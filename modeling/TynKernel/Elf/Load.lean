import TynKernel.Lib.Bytes
import TynKernel.Lib.Regions

/-!
The loader of static executables, elf.rs. It walks the program headers of a file that lies in
memory, copies each PT_LOAD segment to its address and zeroes what the file does not cover.
-/
namespace TynKernel.Elf
open Bytes Regions List

structure Slice where
  base : Nat
  len : Nat
  fits : base + len < 2 ^ 64

structure Phdr where
  pType : Nat
  pOffset : Nat
  pVaddr : Nat
  pFilesz : Nat
  pMemsz : Nat
  deriving DecidableEq

structure ElfInfo where
  entry : Nat
  phdrVaddr : Nat
  phentsize : Nat
  phnum : Nat
  memEnd : Nat

def phdrSize : Nat := 56
def ptLoad : Nat := 1

def phdrAt (file : Memory) (offset : Nat) : Phdr :=
  ⟨readLE file 4 offset, readLE file 8 (offset + 8), readLE file 8 (offset + 16),
    readLE file 8 (offset + 32), readLE file 8 (offset + 40)⟩

def ePhoff (file : Memory) : Nat := readLE file 8 32
def ePhnum (file : Memory) : Nat := readLE file 2 56

/-- How far an address lies above the start of a copy, round the end of the address space. -/
def above (start a : Nat) : Nat := (a + 2 ^ 64 - start) % 2 ^ 64

def copyNonoverlapping (mem : Memory) (src dst count : Nat) : Memory :=
  fun a => if above dst a < count then mem ((src + above dst a) % 2 ^ 64) else mem a

def writeBytes (mem : Memory) (dst : Nat) (byte : UInt8) (count : Nat) : Memory :=
  fun a => if above dst a < count then byte else mem a

/-- The memory and the accumulators between two headers, with the ranges of the slice that were
    read. -/
structure Progress where
  mem : Memory
  phdrVaddr : Nat
  memEnd : Nat
  reads : List Region

def Progress.read (s : Progress) (r : Region) : Progress := { s with reads := r :: s.reads }

def copySegment (data : Slice) (p : Phdr) (mem : Memory) : Memory :=
  let copied := copyNonoverlapping mem (data.base + p.pOffset) p.pVaddr p.pFilesz
  if p.pFilesz < p.pMemsz then
    writeBytes copied ((p.pVaddr + p.pFilesz) % 2 ^ 64) 0 (p.pMemsz - p.pFilesz)
  else copied

def place (data : Slice) (phoff : Nat) (p : Phdr) (s : Progress) : Progress :=
  let segEnd := (p.pVaddr + p.pMemsz) % 2 ^ 64
  { s with
    mem := copySegment data p s.mem
    memEnd := if s.memEnd < segEnd then segEnd else s.memEnd
    phdrVaddr :=
      if s.phdrVaddr = 0 ∧ p.pOffset ≤ phoff ∧ phoff < (p.pOffset + p.pFilesz) % 2 ^ 64 then
        (p.pVaddr + (phoff - p.pOffset)) % 2 ^ 64
      else s.phdrVaddr }

def loadSegments (data : Slice) (phoff : Nat) :
    (left i : Nat) → Progress → Progress × Option String
  | 0, _, s => (s, none)
  | left + 1, i, s =>
    let offset := (phoff + i * phdrSize) % 2 ^ 64
    if data.len < (offset + phdrSize) % 2 ^ 64 then (s, some "program header out of bounds")
    else
      let p := phdrAt (seenAt s.mem data.base) offset
      let s := s.read (offset, phdrSize)
      if p.pType ≠ ptLoad then loadSegments data phoff left (i + 1) s
      else if data.len < (p.pOffset + p.pFilesz) % 2 ^ 64 then
        (s, some "segment data out of bounds")
      else
        loadSegments data phoff left (i + 1) (place data phoff p (s.read (p.pOffset, p.pFilesz)))

def headerError (data : Slice) (file : Memory) : Option String :=
  if data.len < 64 then some "ELF data too small"
  else if (range 4).map file ≠ [0x7f, 69, 76, 70] then some "bad ELF magic"
  else if file 4 ≠ 2 then some "not ELF64"
  else if readLE file 2 16 ≠ 2 then some "not ET_EXEC (static executable)"
  else if readLE file 2 18 ≠ 62 then some "not x86_64"
  else none

def load (data : Slice) (mem : Memory) : Progress × Except String ElfInfo :=
  let file := seenAt mem data.base
  match headerError data file with
  | some error => (⟨mem, 0, 0, []⟩, .error error)
  | none =>
    match loadSegments data (ePhoff file) (ePhnum file) 0 ⟨mem, 0, 0, []⟩ with
    | (s, some error) => (s, .error error)
    | (s, none) =>
      (s, .ok ⟨readLE file 8 24, s.phdrVaddr, readLE file 2 54, ePhnum file,
        (s.memEnd + 0xFFF) % 2 ^ 64 / 4096 * 4096⟩)

variable {data : Slice} {mem : Memory} {phoff left i : Nat} {s : Progress} {p : Phdr}
  {segs : List Phdr} {r : Region}

def InFile (data : Slice) (r : Region) : Prop := ∀ x, Inside x r → x < data.len

def WrapsInto (len : Nat) (r : Region) : Prop := 2 ^ 64 ≤ r.1 + r.2 ∧ r.1 + r.2 ≤ 2 ^ 64 + len

/-- The headers of the file with their offsets, as long as headers and segments lie in it: each
    as it stands in memory once the segments before it are copied. -/
def headers (data : Slice) (phoff : Nat) : (left i : Nat) → Memory → List (Nat × Phdr)
  | 0, _, _ => []
  | left + 1, i, mem =>
    let offset := (phoff + i * phdrSize) % 2 ^ 64
    let p := phdrAt (seenAt mem data.base) offset
    (offset, p) ::
      if data.len < offset + phdrSize then []
      else if p.pType ≠ ptLoad then headers data phoff left (i + 1) mem
      else if data.len < p.pOffset + p.pFilesz then []
      else headers data phoff left (i + 1) (copySegment data p mem)

def Straight (data : Slice) (h : Nat × Phdr) : Prop :=
  ¬ WrapsInto data.len (h.1, phdrSize) ∧ (h.1 + phdrSize ≤ data.len → h.2.pType = ptLoad →
    ¬ WrapsInto data.len (h.2.pOffset, h.2.pFilesz))

theorem sum_cases (data : Slice) (start : r.1 < 2 ^ 64) (size : r.2 < 2 ^ 64) :
    (WrapsInto data.len r ∧ ¬ data.len < (r.1 + r.2) % 2 ^ 64 ∧ ¬ InFile data r) ∨
    (¬ WrapsInto data.len r ∧ ¬ data.len < (r.1 + r.2) % 2 ^ 64 ∧ r.1 + r.2 ≤ data.len ∧
      InFile data r) ∨
    (¬ WrapsInto data.len r ∧ data.len < (r.1 + r.2) % 2 ^ 64 ∧ data.len < r.1 + r.2) := by
  have whole := data.fits
  unfold WrapsInto InFile Inside
  by_cases wraps : 2 ^ 64 ≤ r.1 + r.2 ∧ r.1 + r.2 ≤ 2 ^ 64 + data.len
  · refine .inl ⟨wraps, by omega, fun inside => ?_⟩
    have last := inside (r.1 + r.2 - 1) (by omega)
    omega
  · by_cases within : r.1 + r.2 ≤ data.len
    · exact .inr (.inl ⟨wraps, by omega, within, by omega⟩)
    · exact .inr (.inr ⟨wraps, by omega, by omega⟩)

theorem loadSegments_reads (read : r ∈ s.reads) :
    r ∈ (loadSegments data phoff left i s).1.reads := by
  induction left generalizing i s with
  | zero => exact read
  | succ left ih =>
    unfold loadSegments
    dsimp only
    split
    · exact read
    split
    · exact ih (mem_cons_of_mem _ read)
    split
    · exact mem_cons_of_mem _ read
    · exact ih (mem_cons_of_mem _ (mem_cons_of_mem _ read))

theorem loadSegments_inside_iff (sofar : ∀ r ∈ s.reads, InFile data r) :
    (∀ r ∈ (loadSegments data phoff left i s).1.reads, InFile data r) ↔
      ∀ h ∈ headers data phoff left i s.mem, Straight data h := by
  induction left generalizing i s with
  | zero => exact iff_of_true sofar (by simp [headers])
  | succ left ih =>
    obtain ⟨offset, row⟩ : ∃ o, (phoff + i * phdrSize) % 2 ^ 64 = o := ⟨_, rfl⟩
    obtain ⟨p, header⟩ : ∃ p, phdrAt (seenAt s.mem data.base) offset = p := ⟨_, rfl⟩
    have word : offset < 2 ^ 64 := row ▸ Nat.mod_lt _ (by decide)
    have field (o : Nat) := readLE_lt (seenAt s.mem data.base) 8 o
    unfold loadSegments headers
    simp only [row, header, forall_mem_cons]
    rcases sum_cases (r := (offset, phdrSize)) data word
      (show phdrSize < 2 ^ 64 by decide) with
      ⟨wraps, passes, out⟩ | ⟨straight, passes, within, inside⟩ | ⟨straight, fails, beyond⟩
    · refine iff_of_false (fun all => ?_) fun all => all.1.1 wraps
      rw [if_neg passes] at all
      refine out (all _ ?_)
      split
      · exact loadSegments_reads mem_cons_self
      split
      · exact mem_cons_self
      · exact loadSegments_reads (mem_cons_of_mem _ mem_cons_self)
    · have read : ∀ r ∈ (s.read (offset, phdrSize)).reads, InFile data r :=
        forall_mem_cons.mpr ⟨inside, sofar⟩
      rw [if_neg passes, if_neg (Nat.not_lt.mpr within)]
      by_cases other : p.pType ≠ ptLoad
      · rw [if_pos other, if_pos other, ih read]
        exact (and_iff_right ⟨straight, fun _ load => absurd load other⟩).symm
      have load := not_not.mp other
      rw [if_neg other, if_neg other]
      rcases sum_cases (r := (p.pOffset, p.pFilesz)) data (header ▸ field _) (header ▸ field _) with
        ⟨wraps, fits, out⟩ | ⟨plain, fits, ends, inside⟩ | ⟨plain, fails, beyond⟩
      · rw [if_neg fits]
        refine iff_of_false (fun all => out (all _ ?_)) fun all => all.1.2 within load wraps
        exact loadSegments_reads mem_cons_self
      · have copied : ∀ r ∈ (place data phoff p ((s.read (offset, phdrSize)).read
            (p.pOffset, p.pFilesz))).reads, InFile data r := forall_mem_cons.mpr ⟨inside, read⟩
        rw [if_neg fits, if_neg (Nat.not_lt.mpr ends), ih copied]
        exact (and_iff_right ⟨straight, fun _ _ => plain⟩).symm
      · rw [if_pos fails, if_pos beyond]
        exact iff_of_true read ⟨⟨straight, fun _ _ => plain⟩, by simp⟩
    · rw [if_pos fails, if_pos beyond]
      have stops : ¬ offset + phdrSize ≤ data.len := Nat.not_le.mpr beyond
      exact iff_of_true sofar ⟨⟨straight, fun within => absurd within stops⟩, by simp⟩

/-- Everything that the loader reads as a program header or copies as segment data lies in the
    slice exactly if for no header that the table reaches, and no segment that one names, the
    64-bit sum of offset and size comes back into the file. -/
theorem reads_inside_iff (data : Slice) (mem : Memory) :
    let file := seenAt mem data.base
    (∀ r ∈ (load data mem).1.reads, ∀ x, Inside x r → x < data.len) ↔
      (headerError data file = none →
        ∀ h ∈ headers data (ePhoff file) (ePhnum file) 0 mem, Straight data h) := by
  intro file
  have walked := @loadSegments_inside_iff data (ePhoff file) (ePhnum file) 0 ⟨mem, 0, 0, []⟩
    (by simp)
  unfold load
  dsimp only
  split
  · next error wrong =>
    refine iff_of_true (by simp) fun none => ?_
    cases wrong.symm.trans none
  · next none =>
    rw [forall_prop_of_true none, ← walked]
    split <;> next eq => rw [eq]; rfl

def fileHeader (phoff phnum : Nat) : List UInt8 :=
  [0x7f, 69, 76, 70, 2] ++ replicate 11 0 ++ encodeLE 2 2 ++ encodeLE 2 62 ++
    encodeLE 4 1 ++ encodeLE 8 0x400000 ++ encodeLE 8 phoff ++ replicate 14 0 ++
    encodeLE 2 56 ++ encodeLE 2 phnum ++ replicate 6 0

def memoryAt (base : Nat) (bytes : List UInt8) : Memory :=
  fun a => if a < base then 0 else image bytes (a - base)

/-- With its program headers 56 bytes below the end of the address space, the sum of offset and
    size is 0 and the loader reads a header in front of the file. -/
theorem reads_before_slice :
    let data : Slice := ⟨0x1000, 64, by decide⟩
    let mem := memoryAt 0x1000 (fileHeader (2 ^ 64 - 56) 1)
    (2 ^ 64 - 56, 56) ∈ (load data mem).1.reads ∧ Inside (2 ^ 64 - 56) (2 ^ 64 - 56, 56) ∧
      ¬ 2 ^ 64 - 56 < data.len := by
  decide +kernel

def Phdr.range (p : Phdr) : Region := (p.pVaddr, p.pMemsz)
def Phdr.Maps (p : Phdr) (phoff : Nat) : Prop :=
  p.pOffset ≤ phoff ∧ phoff < p.pOffset + p.pFilesz
instance (p : Phdr) (phoff : Nat) : Decidable (p.Maps phoff) := inferInstanceAs (Decidable (_ ∧ _))
def Phdr.mapped (p : Phdr) (phoff : Nat) : Nat := p.pVaddr + (phoff - p.pOffset)

def segments (file : Memory) (count : Nat) : List Phdr :=
  ((range count).map fun i => phdrAt file (ePhoff file + i * phdrSize)).filter
    fun p => p.pType = ptLoad

def Disjoint (r q : Region) : Prop := ∀ x, Inside x r → ¬ Inside x q

/-- A segment that can be loaded: its data in the file, no sum of addresses, the rounding up to
    a page included, beyond the 64 bits, and no byte of its range in the file itself. -/
structure Phdr.Fits (data : Slice) (p : Phdr) : Prop where
  inside : p.pOffset + p.pFilesz ≤ data.len
  sizes : p.pFilesz ≤ p.pMemsz
  straight : p.pVaddr + p.pMemsz + 0xFFF < 2 ^ 64
  off : Disjoint p.range (data.base, data.len)

structure WellFormed (data : Slice) (mem : Memory) : Prop where
  header : headerError data (seenAt mem data.base) = none
  table : ePhoff (seenAt mem data.base) + ePhnum (seenAt mem data.base) * phdrSize ≤ data.len
  fit : ∀ p ∈ segments (seenAt mem data.base) (ePhnum (seenAt mem data.base)), p.Fits data
  apart : (segments (seenAt mem data.base) (ePhnum (seenAt mem data.base))).Pairwise
    fun p q => Disjoint p.range q.range

structure Built (data : Slice) (mem : Memory) (phoff : Nat) (segs : List Phdr) (s : Progress) :
    Prop where
  filled : ∀ p ∈ segs, ∀ k < p.pMemsz, s.mem (p.pVaddr + k) =
    if k < p.pFilesz then seenAt mem data.base (p.pOffset + k) else 0
  others : ∀ a < 2 ^ 64, (∀ p ∈ segs, ¬ Inside a p.range) → s.mem a = mem a
  ends : ∀ p ∈ segs, p.pVaddr + p.pMemsz ≤ s.memEnd
  reached : s.memEnd = 0 ∨ ∃ p ∈ segs, s.memEnd = p.pVaddr + p.pMemsz
  found : s.phdrVaddr ≠ 0 → ∃ p ∈ segs, p.Maps phoff ∧ s.phdrVaddr = p.mapped phoff
  missed : s.phdrVaddr = 0 → ∀ p ∈ segs, p.Maps phoff → p.mapped phoff = 0

theorem above_lt (start count : Nat) (straight : start + count < 2 ^ 64) (small : a < 2 ^ 64) :
    above start a < count ↔ Inside a (start, count) := by
  unfold above Inside
  omega

theorem copySegment_filled (fits : p.Fits data) (below : k < p.pMemsz) :
    copySegment data p mem (p.pVaddr + k) =
      if k < p.pFilesz then seenAt mem data.base (p.pOffset + k) else 0 := by
  obtain ⟨-, sizes, straight, -⟩ := fits
  have reach : above p.pVaddr (p.pVaddr + k) = k := by
    unfold above
    omega
  have copied : copyNonoverlapping mem (data.base + p.pOffset) p.pVaddr p.pFilesz (p.pVaddr + k) =
      if k < p.pFilesz then seenAt mem data.base (p.pOffset + k) else mem (p.pVaddr + k) := by
    unfold copyNonoverlapping seenAt
    rw [reach, Nat.add_assoc]
  have zeroed := above_lt (p.pVaddr + p.pFilesz) (p.pMemsz - p.pFilesz) (a := p.pVaddr + k)
    (by omega) (by omega)
  unfold copySegment
  by_cases bss : p.pFilesz < p.pMemsz
  · rw [if_pos bss, Nat.mod_eq_of_lt (by omega)]
    unfold writeBytes
    by_cases stored : k < p.pFilesz
    · rw [if_neg (by rw [zeroed]; unfold Inside; omega), copied, if_pos stored, if_pos stored]
    · rw [if_pos (by rw [zeroed]; unfold Inside; omega), if_neg stored]
  · rw [if_neg bss, copied, if_pos (by omega), if_pos (by omega)]

theorem copySegment_others (fits : p.Fits data) (small : a < 2 ^ 64)
    (outside : ¬ Inside a p.range) : copySegment data p mem a = mem a := by
  obtain ⟨-, sizes, straight, -⟩ := fits
  unfold Phdr.range Inside at outside
  have copied := above_lt p.pVaddr p.pFilesz (by omega) small
  have zeroed := above_lt (p.pVaddr + p.pFilesz) (p.pMemsz - p.pFilesz) (by omega) small
  unfold copySegment copyNonoverlapping writeBytes
  dsimp only at outside ⊢
  rw [Nat.mod_eq_of_lt (a := p.pVaddr + p.pFilesz) (by omega)]
  by_cases bss : p.pFilesz < p.pMemsz
  · rw [if_pos bss, if_neg (by rw [zeroed]; unfold Inside; omega),
      if_neg (by rw [copied]; unfold Inside; omega)]
  · rw [if_neg bss, if_neg (by rw [copied]; unfold Inside; omega)]

theorem Built.file (built : Built data mem phoff segs s) (fit : ∀ p ∈ segs, p.Fits data)
    (o : Nat) (inside : o < data.len) : seenAt s.mem data.base o = seenAt mem data.base o := by
  have whole := data.fits
  unfold seenAt
  rw [Nat.mod_eq_of_lt (by omega)]
  apply built.others _ (by omega)
  intro p member covered
  exact (fit p member).off _ covered ⟨Nat.le_add_right _ _, Nat.add_lt_add_left inside _⟩

theorem Built.place (built : Built data mem phoff segs s) (fits : p.Fits data)
    (fit : ∀ q ∈ segs, q.Fits data) (apart : ∀ q ∈ segs, Disjoint q.range p.range) :
    Built data mem phoff (segs ++ [p]) (place data phoff p s) := by
  have ⟨inside, sizes, straight, _⟩ := fits
  have segEnd : (p.pVaddr + p.pMemsz) % 2 ^ 64 = p.pVaddr + p.pMemsz :=
    Nat.mod_eq_of_lt (by omega)
  have memEnd : (Elf.place data phoff p s).memEnd =
      if s.memEnd < p.pVaddr + p.pMemsz then p.pVaddr + p.pMemsz else s.memEnd := by
    rw [← segEnd]
    rfl
  have phdrVaddr : (Elf.place data phoff p s).phdrVaddr =
      if s.phdrVaddr = 0 ∧ p.Maps phoff then p.mapped phoff else s.phdrVaddr := by
    have whole := data.fits
    unfold Elf.place Phdr.Maps Phdr.mapped
    dsimp only
    rw [Nat.mod_eq_of_lt (a := p.pOffset + p.pFilesz) (by omega)]
    by_cases maps : s.phdrVaddr = 0 ∧ p.pOffset ≤ phoff ∧ phoff < p.pOffset + p.pFilesz
    · rw [if_pos maps, if_pos maps, Nat.mod_eq_of_lt (by omega)]
    · rw [if_neg maps, if_neg maps]
  have last : ∀ {q : Phdr}, q ∈ segs ++ [p] ↔ q ∈ segs ∨ q = p := by simp
  constructor
  · intro q member k below
    rcases last.mp member with old | rfl
    · have here : Inside (q.pVaddr + k) q.range :=
        ⟨Nat.le_add_right _ _, Nat.add_lt_add_left below _⟩
      have := (fit q old).straight
      refine (copySegment_others fits (by omega) (apart q old _ here)).trans ?_
      exact built.filled q old k below
    · refine (copySegment_filled fits below).trans ?_
      by_cases stored : k < q.pFilesz
      · rw [if_pos stored, if_pos stored, built.file fit _ (by omega)]
      · rw [if_neg stored, if_neg stored]
  · intro a small outside
    refine (copySegment_others fits small (outside p (last.mpr (.inr rfl)))).trans ?_
    exact built.others a small fun q old => outside q (last.mpr (.inl old))
  · intro q member
    rw [memEnd]
    rcases last.mp member with old | rfl
    · have := built.ends q old
      split <;> omega
    · split <;> omega
  · rw [memEnd]
    split
    · exact .inr ⟨p, last.mpr (.inr rfl), rfl⟩
    · exact built.reached.imp_right fun ⟨q, old, eq⟩ => ⟨q, last.mpr (.inl old), eq⟩
  · rw [phdrVaddr]
    intro set
    by_cases fresh : s.phdrVaddr = 0 ∧ p.Maps phoff
    · rw [if_pos fresh]
      exact ⟨p, last.mpr (.inr rfl), fresh.2, rfl⟩
    · rw [if_neg fresh] at set ⊢
      obtain ⟨q, old, rest⟩ := built.found set
      exact ⟨q, last.mpr (.inl old), rest⟩
  · rw [phdrVaddr]
    intro unset q member maps
    by_cases fresh : s.phdrVaddr = 0 ∧ p.Maps phoff
    · rw [if_pos fresh] at unset
      rcases last.mp member with old | rfl
      · exact built.missed fresh.1 q old maps
      · exact unset
    · rw [if_neg fresh] at unset
      rcases last.mp member with old | rfl
      · exact built.missed unset q old maps
      · exact absurd ⟨unset, maps⟩ fresh

theorem segments_succ {count : Nat}
    (row : phdrAt file (ePhoff file + count * phdrSize) = p) : segments file (count + 1) =
      if p.pType = ptLoad then segments file count ++ [p] else segments file count := by
  unfold segments
  rw [range_succ, map_append, filter_append, map_singleton, row]
  by_cases load : p.pType = ptLoad
  · rw [if_pos load, filter_cons_of_pos (by simpa using load), filter_nil]
  · rw [if_neg load, filter_cons_of_neg (by simpa using load), filter_nil,
      append_nil]

theorem phdrAt_congr {file file' : Memory} (inside : offset + phdrSize ≤ len)
    (same : ∀ o < len, file o = file' o) : phdrAt file offset = phdrAt file' offset := by
  unfold phdrSize at inside
  have field (count o : Nat) (within : o + count ≤ len) :
      readLE file count o = readLE file' count o :=
    readLE_congr fun k _ _ => same k (by omega)
  unfold phdrAt
  rw [field 4 offset (by omega), field 8 (offset + 8) (by omega),
    field 8 (offset + 16) (by omega), field 8 (offset + 32) (by omega),
    field 8 (offset + 40) (by omega)]

theorem loadSegments_built {file : Memory} (view : file = seenAt mem data.base)
    (wf : WellFormed data mem) (count : i + left = ePhnum file)
    (built : Built data mem (ePhoff file) (segments file i) s) :
    ∃ s', loadSegments data (ePhoff file) left i s = (s', none) ∧
      Built data mem (ePhoff file) (segments file (ePhnum file)) s' := by
  induction left generalizing i s with
  | zero => exact ⟨s, rfl, count ▸ built⟩
  | succ left ih =>
    have whole := data.fits
    obtain ⟨-, table, fit, apart⟩ := wf
    rw [← view] at table fit apart
    have row : i * phdrSize + phdrSize ≤ ePhnum file * phdrSize := by
      rw [← Nat.succ_mul]
      exact Nat.mul_le_mul_right _ (by omega)
    have front : (segments file (i + 1)).Sublist (segments file (ePhnum file)) :=
      ((range_sublist.mpr (by omega)).map _).filter _
    have known : (segments file i).Sublist (segments file (ePhnum file)) :=
      ((range_sublist.mpr (by omega)).map _).filter _
    have sofar : ∀ q ∈ segments file i, q.Fits data := fun q old => fit q (known.subset old)
    have offset : (ePhoff file + i * phdrSize) % 2 ^ 64 = ePhoff file + i * phdrSize :=
      Nat.mod_eq_of_lt (by omega)
    obtain ⟨p, header⟩ : ∃ p, phdrAt file (ePhoff file + i * phdrSize) = p := ⟨_, rfl⟩
    have same : phdrAt (seenAt s.mem data.base) (ePhoff file + i * phdrSize) = p :=
      (phdrAt_congr (by omega) (view ▸ built.file sofar)).trans header
    unfold loadSegments
    rw [offset, if_neg (by rw [Nat.mod_eq_of_lt (by omega)]; omega)]
    rw [same]
    have next := segments_succ header
    by_cases load : p.pType = ptLoad
    · rw [if_pos load] at next
      rw [next] at front
      have fits := fit _ (front.subset (mem_append_right _ mem_cons_self))
      have inside := fits.inside
      have away := (pairwise_append.mp (apart.sublist front)).2.2
      rw [if_neg (not_not.mpr load), if_neg (by rw [Nat.mod_eq_of_lt (by omega)]; omega)]
      refine ih (by omega) ?_
      rw [next]
      exact Built.place ⟨built.filled, built.others, built.ends, built.reached, built.found,
        built.missed⟩ fits sofar fun q member => away q member _ mem_cons_self
    · rw [if_neg load] at next
      rw [if_pos load]
      refine ih (by omega) ?_
      rw [next]
      exact ⟨built.filled, built.others, built.ends, built.reached, built.found, built.missed⟩

/-- A well-formed file is loaded as it says: every segment holds its file bytes and then zeros,
    nothing else changes, the end is the least page boundary above all segments, and a mapped
    program header table is found at an address where it was loaded. -/
theorem load_builds_image (data : Slice) (mem : Memory) (wf : WellFormed data mem) :
    let file := seenAt mem data.base
    let segs := segments file (ePhnum file)
    ∃ s info, load data mem = (s, .ok info) ∧
      (∀ p ∈ segs, ∀ k < p.pMemsz, s.mem (p.pVaddr + k) =
        if k < p.pFilesz then file (p.pOffset + k) else 0) ∧
      (∀ a < 2 ^ 64, (∀ p ∈ segs, ¬ Inside a p.range) → s.mem a = mem a) ∧
      4096 ∣ info.memEnd ∧ (∀ p ∈ segs, p.pVaddr + p.pMemsz ≤ info.memEnd) ∧
      (∀ b, 4096 ∣ b → (∀ p ∈ segs, p.pVaddr + p.pMemsz ≤ b) → info.memEnd ≤ b) ∧
      ∀ p ∈ segs, p.Maps (ePhoff file) → p.mapped (ePhoff file) ≠ 0 →
        ∃ q ∈ segs, q.Maps (ePhoff file) ∧ info.phdrVaddr = q.mapped (ePhoff file) := by
  intro file segs
  have empty : Built data mem (ePhoff file) (segments file 0) ⟨mem, 0, 0, []⟩ := by
    constructor <;> simp [segments]
  obtain ⟨s, walked, built⟩ := loadSegments_built rfl wf (Nat.zero_add _) empty
  have small : s.memEnd + 0xFFF < 2 ^ 64 := by
    rcases built.reached with zero | ⟨p, member, last⟩
    · omega
    · rw [last]
      exact (wf.fit p member).straight
  refine ⟨s, _, by unfold load; dsimp only; rw [wf.header, walked], built.filled, built.others,
    Nat.dvd_mul_left _ _, ?_, ?_, ?_⟩
  · intro p member
    have last := built.ends p member
    dsimp only
    omega
  · intro b page above
    dsimp only
    have below : s.memEnd ≤ b := by
      rcases built.reached with zero | ⟨p, member, last⟩
      · omega
      · rw [last]
        exact above p member
    omega
  · intro p member maps nonzero
    have set : s.phdrVaddr ≠ 0 := fun unset => nonzero (built.missed unset p member maps)
    exact built.found set

def phdrBytes (p : Phdr) : List UInt8 :=
  encodeLE 4 p.pType ++ encodeLE 4 5 ++ encodeLE 8 p.pOffset ++ encodeLE 8 p.pVaddr ++
    encodeLE 8 p.pVaddr ++ encodeLE 8 p.pFilesz ++ encodeLE 8 p.pMemsz ++ encodeLE 8 4096

theorem load_builds_image_two_segments :
    ∃ (data : Slice) (mem : Memory), WellFormed data mem ∧ ∃ s info,
      load data mem = (s, .ok info) ∧ info.phdrVaddr = 0x400040 ∧ s.mem 0x400001 = 69 ∧
        s.mem 0x402001 = 62 ∧ s.mem 0x402004 = 0 ∧ 0x402008 ≤ info.memEnd := by
  let data : Slice := ⟨0x1000, 176, by decide⟩
  let text : Phdr := ⟨1, 0, 0x400000, 176, 176⟩
  let bss : Phdr := ⟨1, 17, 0x402000, 4, 8⟩
  let mem := memoryAt 0x1000 (fileHeader 64 2 ++ phdrBytes text ++ phdrBytes bss)
  have both : segments (seenAt mem 0x1000) (ePhnum (seenAt mem 0x1000)) = [text, bss] := by
    decide +kernel
  have phoff : ePhoff (seenAt mem 0x1000) = 64 := by decide +kernel
  have apart (q r : Region) (low : r.1 + r.2 ≤ q.1) : Disjoint q r := by
    rintro x ⟨above, _⟩ ⟨_, below⟩
    omega
  have wf : WellFormed data mem := by
    refine ⟨by decide +kernel, by decide +kernel, ?_, ?_⟩
    · rw [both]
      intro p member
      rcases mem_pair.mp member with rfl | rfl <;>
        exact ⟨by decide, by decide, by decide, apart _ _ (by decide)⟩
    · rw [both, pairwise_pair]
      rintro x ⟨_, below⟩ ⟨above, _⟩
      exact absurd (Nat.lt_of_le_of_lt above below) (by decide)
  obtain ⟨s, info, eq, filled, -, -, ends, -, phdr⟩ := load_builds_image data mem wf
  rw [both] at filled ends phdr
  rw [phoff] at phdr
  have first : text ∈ [text, bss] := mem_cons_self
  have second : bss ∈ [text, bss] := mem_pair.mpr (.inr rfl)
  obtain ⟨q, member, maps, address⟩ := phdr _ first ⟨by decide, by decide⟩ (by decide)
  rcases mem_pair.mp member with rfl | rfl
  · exact ⟨data, mem, wf, s, info, eq, address,
      (filled _ first 1 (by decide)).trans (by decide +kernel),
      (filled _ second 1 (by decide)).trans (by decide +kernel),
      (filled _ second 4 (by decide)).trans (by decide +kernel), ends _ second⟩
  · exact absurd maps (by decide)

end TynKernel.Elf
