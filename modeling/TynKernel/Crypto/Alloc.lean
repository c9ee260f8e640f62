import Mathlib.Data.Nat.Bitwise
import TynKernel.Lib.Bytes
import TynKernel.Lib.Regions
import TynKernel.Lib.Runs

/-!
The global allocator of the crypto NIF. It rounds an address of enif_alloc up to the alignment
and keeps the raw one in the word below.
-/
namespace TynKernel.Crypto
open Bytes Regions Runs List

/-- A request of the Rust library: the alignment is a power of two, and the size rounded up to it
    is at most isize::MAX. -/
structure Layout where
  size : UInt64
  align : UInt64
  power : ∃ k, align.toNat = 2 ^ k
  small : (size.toNat + align.toNat - 1) / align.toNat * align.toNat ≤ 2 ^ 63 - 1

def word : UInt64 := 8

def Layout.unit (l : Layout) : UInt64 := max l.align word

def Layout.total (l : Layout) : UInt64 := l.size + l.unit + word

def Layout.aligned (l : Layout) (raw : UInt64) : UInt64 :=
  (raw + word + l.unit - 1) &&& ~~~(l.unit - 1)

def writeWord (mem : Memory) (addr value : UInt64) : Memory := fun a =>
  if Inside a (addr.toNat, 8) then image (encodeLE 8 value.toNat) (a - addr.toNat) else mem a

/-- EnifAlloc::alloc, with the address that enif_alloc returned. -/
def Layout.alloc (l : Layout) (mem : Memory) (raw : UInt64) : UInt64 × Memory :=
  if raw = 0 then (0, mem)
  else (l.aligned raw, writeWord mem (l.aligned raw - word) raw)

def dealloc (mem : Memory) (ptr : UInt64) : Nat := readLE mem 8 (ptr - word).toNat

theorem max_toNat (a b : UInt64) : (max a b).toNat = max a.toNat b.toNat := by
  show (if a ≤ b then b else a).toNat = if a.toNat ≤ b.toNat then b.toNat else a.toNat
  simp only [UInt64.le_iff_toNat_le]
  split <;> rfl

theorem and_mask (inWord : x < 2 ^ 64) (low : k ≤ 64) :
    x &&& (2 ^ 64 - 1 - (2 ^ k - 1)) = x / 2 ^ k * 2 ^ k := by
  apply Nat.eq_of_testBit_eq
  intro i
  have power : 2 ^ k ≤ 2 ^ 64 := Nat.pow_le_pow_right (by decide) low
  have below : 2 ^ k - 1 < 2 ^ 64 := by omega
  have mask : 2 ^ 64 - 1 - (2 ^ k - 1) = 2 ^ 64 - (2 ^ k - 1 + 1) := by omega
  rw [mask, Nat.testBit_and, Nat.testBit_two_pow_sub_succ below, Nat.testBit_two_pow_sub_one,
    Nat.testBit_mul_two_pow, Nat.testBit_div_two_pow]
  by_cases high : k ≤ i
  · by_cases inside : i < 64
    · simp [high, inside]
    · have larger : 2 ^ 64 ≤ 2 ^ i := Nat.pow_le_pow_right (by decide) (by omega)
      simp [inside, high, Nat.testBit_lt_two_pow (Nat.lt_of_lt_of_le inWord larger)]
  · simp [high, Nat.not_le.mp high]

theorem align_power (l : Layout) : ∃ j, j < 64 ∧ l.align.toNat = 2 ^ j := by
  obtain ⟨j, power⟩ := l.power
  have inWord : 2 ^ j < 2 ^ 64 := power ▸ l.align.toNat_lt
  exact ⟨j, (Nat.pow_lt_pow_iff_right (by decide)).mp inWord, power⟩

theorem unit_power (l : Layout) :
    ∃ k, k < 64 ∧ l.unit.toNat = 2 ^ k ∧ l.align.toNat ∣ 2 ^ k := by
  obtain ⟨j, less, power⟩ := align_power l
  have unit : l.unit.toNat = max (2 ^ j) (2 ^ 3) := by
    rw [Layout.unit, max_toNat, power]
    rfl
  rw [unit, power]
  rcases Nat.le_total j 3 with small | large
  · have below : 2 ^ j ≤ 2 ^ 3 := Nat.pow_le_pow_right (by decide) small
    exact ⟨3, by decide, Nat.max_eq_right below, Nat.pow_dvd_pow 2 small⟩
  · have above : 2 ^ 3 ≤ 2 ^ j := Nat.pow_le_pow_right (by decide) large
    exact ⟨j, less, Nat.max_eq_left above, Nat.dvd_refl _⟩

theorem size_align_le (l : Layout) : l.size.toNat + l.align.toNat ≤ 2 ^ 63 := by
  obtain ⟨j, less, power⟩ := align_power l
  have small := l.small
  have whole : 2 ^ 63 = 2 ^ (63 - j) * 2 ^ j := by
    rw [← Nat.pow_add, Nat.sub_add_cancel (by omega)]
  rw [power] at small ⊢
  have above := Nat.div_add_mod' (l.size.toNat + 2 ^ j - 1) (2 ^ j)
  generalize (l.size.toNat + 2 ^ j - 1) / 2 ^ j = n at small above
  have fewer : n < 2 ^ (63 - j) := by
    apply Nat.lt_of_mul_lt_mul_right (a := 2 ^ j)
    omega
  have next := Nat.mul_le_mul_right (2 ^ j) (show n + 1 ≤ 2 ^ (63 - j) from fewer)
  rw [Nat.add_mul, Nat.one_mul] at next
  omega

theorem total_toNat (l : Layout) : l.total.toNat = l.size.toNat + l.unit.toNat + 8 := by
  have small := size_align_le l
  have unit : l.unit.toNat = max l.align.toNat 8 := max_toNat ..
  rw [Layout.total, UInt64.toNat_add, UInt64.toNat_add]
  show ((_ % 2 ^ 64 + 8) % 2 ^ 64) = _
  omega

section
variable {l : Layout} {raw : UInt64} (fits : raw.toNat + l.total.toNat ≤ 2 ^ 64)
include fits

theorem aligned_toNat (power : l.unit.toNat = 2 ^ k) (low : k < 64) :
    (l.aligned raw).toNat = (raw.toNat + 8 + 2 ^ k - 1) / 2 ^ k * 2 ^ k := by
  rw [total_toNat, power] at fits
  have pos : 0 < 2 ^ k := Nat.two_pow_pos k
  have sum : (raw + word + l.unit - 1).toNat = raw.toNat + 8 + 2 ^ k - 1 := by
    rw [UInt64.toNat_sub, UInt64.toNat_add, UInt64.toNat_add, power]
    show (2 ^ 64 - 1 + ((raw.toNat + 8) % 2 ^ 64 + 2 ^ k) % 2 ^ 64) % 2 ^ 64 = _
    omega
  have mask : (~~~(l.unit - 1)).toNat = 2 ^ 64 - 1 - (2 ^ k - 1) := by
    rw [UInt64.toNat_not, UInt64.toNat_sub, power]
    show 2 ^ 64 - 1 - (2 ^ 64 - 1 + 2 ^ k) % 2 ^ 64 = _
    omega
  rw [Layout.aligned, UInt64.toNat_and, sum, mask]
  exact and_mask (by omega) (by omega)

theorem aligned_room : l.align.toNat ∣ (l.aligned raw).toNat ∧
    raw.toNat + 8 ≤ (l.aligned raw).toNat ∧
    (l.aligned raw).toNat + l.size.toNat < raw.toNat + l.total.toNat := by
  obtain ⟨k, low, power, divides⟩ := unit_power l
  have pos : 0 < 2 ^ k := Nat.two_pow_pos k
  have rounded := Nat.div_add_mod' (raw.toNat + 8 + 2 ^ k - 1) (2 ^ k)
  rw [aligned_toNat fits power low, total_toNat, power]
  refine ⟨Nat.dvd_trans divides (Nat.dvd_mul_left _ _), ?_, ?_⟩
  · omega
  · omega

theorem header_toNat : (l.aligned raw - word).toNat = (l.aligned raw).toNat - 8 := by
  obtain ⟨_, room, _⟩ := aligned_room fits
  show (2 ^ 64 - 8 + (l.aligned raw).toNat) % 2 ^ 64 = _
  omega
end

structure Block where
  layout : Layout
  raw : UInt64

def Block.ptr (b : Block) : UInt64 := b.layout.aligned b.raw
def Block.whole (b : Block) : Region := (b.raw.toNat, b.layout.total.toNat)
def Block.header (b : Block) : Region := (b.ptr.toNat - 8, 8)
def Block.user (b : Block) : Region := (b.ptr.toNat, b.layout.size.toNat)

structure Heap where
  mem : Memory
  live : List Block

inductive Action where
  | alloc (l : Layout) (raw : UInt64)
  | dealloc (ptr : UInt64)
  | store (addr : Nat) (byte : UInt8)

/-- enif_alloc returns null or a block that is apart from the ones in use. Nobody but the allocator
    writes to a block in use outside the part its user got, and only such a part is freed. -/
def step (h : Heap) : Action → Option Heap
  | .alloc l raw =>
    if raw = 0 ∨ raw.toNat + l.total.toNat ≤ 2 ^ 64 ∧
        ∀ b ∈ h.live, Apart (raw.toNat, l.total.toNat) b.whole then
      some ⟨(l.alloc h.mem raw).2, if raw = 0 then h.live else ⟨l, raw⟩ :: h.live⟩
    else none
  | .dealloc ptr =>
    if ∃ b ∈ h.live, b.ptr = ptr then
      some { h with live := h.live.eraseP fun b => b.raw.toNat = dealloc h.mem ptr }
    else none
  | .store addr byte =>
    if ∀ b ∈ h.live, Inside addr b.whole → Inside addr b.user then
      some { h with mem := Function.update h.mem addr byte }
    else none

structure Heap.Sound (h : Heap) : Prop where
  fits : ∀ b ∈ h.live, b.raw.toNat + b.layout.total.toNat ≤ 2 ^ 64
  apart : h.live.Pairwise fun b c => Apart b.whole c.whole
  kept : ∀ b ∈ h.live, Holds h.mem b.header.1 (encodeLE 8 b.raw.toNat)

theorem block_parts {b : Block} (fits : b.raw.toNat + b.layout.total.toNat ≤ 2 ^ 64) :
    Within b.header b.whole ∧ Within b.user b.whole ∧ Apart b.header b.user := by
  obtain ⟨_, room, inside⟩ := aligned_room fits
  simp only [Within, Apart, Block.header, Block.user, Block.whole, Block.ptr]
  omega

theorem holds_kept (held : Holds mem start bytes)
    (same : ∀ a, Inside a (start, bytes.length) → mem' a = mem a) : Holds mem' start bytes := by
  intro i inside
  rw [same _ ⟨Nat.le_add_right _ _, Nat.add_lt_add_left inside _⟩]
  exact held i inside

theorem writeWord_holds (mem : Memory) (addr value : UInt64) :
    Holds (writeWord mem addr value) addr.toNat (encodeLE 8 value.toNat) := by
  intro i inside
  rw [writeWord, if_pos ⟨Nat.le_add_right _ _, Nat.add_lt_add_left inside _⟩,
    Nat.add_sub_cancel_left]

theorem alloc_sound {h : Heap} (l : Layout) (raw : UInt64) (sound : h.Sound)
    (fits : raw.toNat + l.total.toNat ≤ 2 ^ 64)
    (free : ∀ b ∈ h.live, Apart (raw.toNat, l.total.toNat) b.whole) :
    Heap.Sound ⟨writeWord h.mem (l.aligned raw - word) raw, ⟨l, raw⟩ :: h.live⟩ := by
  have header := header_toNat fits
  refine ⟨forall_mem_cons.mpr ⟨fits, sound.fits⟩, pairwise_cons.mpr ⟨free, sound.apart⟩, ?_⟩
  refine forall_mem_cons.mpr ⟨?_, ?_⟩
  · have written := writeWord_holds h.mem (l.aligned raw - word) raw
    rw [header] at written
    exact written
  intro b member
  apply holds_kept (sound.kept b member)
  intro a inside
  have old := (block_parts (sound.fits b member)).1
  have new := (block_parts (b := ⟨l, raw⟩) fits).1
  have apart := free b member
  refine if_neg ?_
  rw [encodeLE_length] at inside
  simp only [Inside, Within, Apart, Block.header, Block.whole, Block.ptr] at *
  omega

theorem step_sound {h h' : Heap} (sound : h.Sound) (taken : step h a = some h') :
    h'.Sound := by
  cases a with
  | alloc l raw =>
    obtain ⟨answer, same⟩ := Option.ite_none_right_eq_some.mp taken
    cases same
    by_cases null : raw = 0
    · simp only [Layout.alloc, if_pos null]
      exact sound
    · obtain ⟨fits, free⟩ := answer.resolve_left null
      simp only [Layout.alloc, if_neg null]
      exact alloc_sound l raw sound fits free
  | dealloc ptr =>
    obtain ⟨_, same⟩ := Option.ite_none_right_eq_some.mp taken
    cases same
    exact ⟨fun b member => sound.fits b (eraseP_subset member),
      sound.apart.sublist eraseP_sublist, fun b member => sound.kept b (eraseP_subset member)⟩
  | store addr byte =>
    obtain ⟨allowed, same⟩ := Option.ite_none_right_eq_some.mp taken
    cases same
    refine { sound with kept := ?_ }
    intro b member
    apply holds_kept (sound.kept b member)
    intro a inside
    refine Function.update_of_ne ?_ _ _
    rintro rfl
    obtain ⟨within_, _, apart⟩ := block_parts (sound.fits b member)
    have user := allowed b member
    rw [encodeLE_length] at inside
    simp only [Inside, Within, Apart, Block.header, Block.whole, Block.user] at *
    omega

theorem dealloc_raw {h : Heap} (sound : h.Sound) (member : b ∈ h.live) :
    dealloc h.mem b.ptr = b.raw.toNat := by
  rw [dealloc, Block.ptr, header_toNat (sound.fits b member)]
  exact readLE_encodeLE b.raw.toNat_lt (sound.kept b member)

theorem ptr_unique {h : Heap} (sound : h.Sound) (one : b ∈ h.live) (two : c ∈ h.live)
    (same : b.ptr = c.ptr) : b = c := by
  by_contra other
  have symmetric : Std.Symm fun b c : Block => Apart b.whole c.whole := ⟨fun _ _ => apart_symm⟩
  have apart := sound.apart.forall one two other
  have first := (block_parts (sound.fits b one)).1
  have second := (block_parts (sound.fits c two)).1
  simp only [Within, Apart, Block.header, Block.whole, same] at *
  omega

/-- alloc returns an aligned address with the word below it and the user's bytes behind it in the
    raw block. In every run of allocations, frees and stores of the users, dealloc gives enif_free
    the raw address of the block whose address it is called with. -/
theorem enif_alloc_layout :
    (∀ (l : Layout) (mem : Memory) (raw : UInt64), raw ≠ 0 →
      raw.toNat + l.total.toNat ≤ 2 ^ 64 →
      let p := (l.alloc mem raw).1.toNat
      let whole := (raw.toNat, l.total.toNat)
      l.align.toNat ∣ p ∧ 8 ≤ p ∧ Within (p - 8, 8) whole ∧ Within (p, l.size.toNat) whole ∧
        Apart (p - 8, 8) (p, l.size.toNat)) ∧
    ∀ mem past final, Run step ⟨mem, []⟩ past final → ∀ h ptr, (h, .dealloc ptr) ∈ past →
      ∃ b ∈ h.live, b.ptr = ptr ∧ dealloc h.mem ptr = b.raw.toNat ∧
        ∀ c ∈ h.live, c.ptr = ptr → c = b := by
  constructor
  · intro l mem raw given fits p whole
    have at_ : p = (l.aligned raw).toNat := by
      show (l.alloc mem raw).1.toNat = _
      rw [Layout.alloc, if_neg given]
    obtain ⟨divides, room, inside⟩ := aligned_room fits
    rw [at_]
    refine ⟨divides, by omega, ?_⟩
    exact block_parts (b := ⟨l, raw⟩) fits
  · intro mem past final run h ptr member
    obtain ⟨later, earlier, rfl⟩ := append_of_mem member
    obtain ⟨_, before, taken, _⟩ := run_at run
    have sound : h.Sound := run_invariant Heap.Sound
      ⟨forall_mem_nil _, Pairwise.nil, forall_mem_nil _⟩ (fun _ _ _ => step_sound) before
    obtain ⟨⟨b, found, rfl⟩, _⟩ := Option.ite_none_right_eq_some.mp taken
    refine ⟨b, found, rfl, dealloc_raw sound found, ?_⟩
    intro c other same
    exact ptr_unique sound other found same

def threeBytes : Layout := ⟨3, 64, ⟨6, rfl⟩, by decide⟩

theorem enif_alloc_layout_three_bytes :
    64 ∣ (threeBytes.alloc (image []) 4097).1.toNat ∧
      ∃ past final h, Run step ⟨image [], []⟩ past final ∧ (h, .dealloc 4160) ∈ past ∧
        dealloc h.mem 4160 = 4097 := by
  obtain ⟨past, h, run, _, done⟩ := run_of_exec (fun _ _ => true) step ⟨image [], []⟩
    [.alloc threeBytes 4097, .store 4162 7]
    (fun h => (step h (.dealloc 4160)).isSome && decide (h.live.map Block.raw = [4097]))
    (by decide +kernel)
  simp only [Bool.and_eq_true, decide_eq_true_eq] at done
  obtain ⟨final, taken⟩ := Option.isSome_iff_exists.mp done.1
  have freed := Run.snoc run taken
  refine ⟨(enif_alloc_layout.1 threeBytes (image []) 4097 (by decide) (by decide)).1,
    _, final, h, freed, mem_cons_self, ?_⟩
  obtain ⟨b, member, _, passed, _⟩ := enif_alloc_layout.2 _ _ _ freed h 4160 mem_cons_self
  have raw : b.raw ∈ [4097] := done.2 ▸ mem_map_of_mem member
  rw [passed, mem_singleton.mp raw]
  rfl

end TynKernel.Crypto
