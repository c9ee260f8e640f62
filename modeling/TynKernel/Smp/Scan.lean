import TynKernel.Smp.Madt

/-!
parse_madt on a table of arbitrary bytes. The loop asks only whether type and length of an entry
are in the table, so that it reads on in an entry that the table's end cuts off.
-/
namespace TynKernel.Smp
open Bytes Sched List

def typeAt (madt : Memory) (offset : Nat) : Nat := (madt offset).toNat

def lenAt (madt : Memory) (offset : Nat) : Nat := (madt (offset + 1)).toNat

def AcpiInfo.fields (info : AcpiInfo) (madt : Memory) (offset : Nat) : List Nat :=
  if typeAt madt offset = 0 then
    if 8 ≤ lenAt madt offset ∧ info.cpus.length < maxCpus then (range 6).map (offset + 2 + ·)
    else []
  else if typeAt madt offset = 1 then
    if 12 ≤ lenAt madt offset then (offset + 2) :: (range 8).map (offset + 4 + ·) else []
  else []

def AcpiInfo.entryAt (info : AcpiInfo) (madt : Memory) (offset : Nat) : AcpiInfo :=
  info.entry madt offset (typeAt madt offset) (lenAt madt offset)

structure Turn where
  offset : Nat
  entryLen : Nat
  fields : List Nat

def AcpiInfo.turn (info : AcpiInfo) (madt : Memory) (offset : Nat) : Turn :=
  ⟨offset, lenAt madt offset, info.fields madt offset⟩

def Turn.reads (turn : Turn) : List Nat := turn.offset :: (turn.offset + 1) :: turn.fields

/-- The loop of parseEntries with its turns. It is none while the loop is not over. -/
def scanEntriesFrom (madt : Memory) (length : Nat) :
    (fuel offset : Nat) → AcpiInfo → Option (AcpiInfo × List Turn)
  | 0, _, _ => none
  | fuel + 1, offset, info =>
    if offset + 2 ≤ length then
      if lenAt madt offset = 0 then some (info, [⟨offset, 0, []⟩])
      else
        (scanEntriesFrom madt length fuel (offset + lenAt madt offset)
          (info.entryAt madt offset)).map fun rest =>
            (rest.1, info.turn madt offset :: rest.2)
    else some (info, [])

def scanMadt (madt : Memory) : Option (AcpiInfo × List Turn) :=
  let length := readLE madt 4 4
  scanEntriesFrom madt length length 44
    { cpus := [], ioapic := none, localApicAddr := readLE madt 4 36, few := Nat.zero_le _ }

def headerReads : List Nat := (range 4).map (4 + ·) ++ (range 4).map (36 + ·)

def completeEntries (madt : Memory) (length : Nat) : (fuel offset : Nat) → List Nat × Nat
  | 0, offset => ([], offset)
  | fuel + 1, offset =>
    if offset + 2 ≤ length ∧ 0 < lenAt madt offset ∧ offset + lenAt madt offset ≤ length then
      let rest := completeEntries madt length fuel (offset + lenAt madt offset)
      (offset :: rest.1, rest.2)
    else ([], offset)

def localApic (madt : Memory) (offset : Nat) : Option (Nat × Nat) :=
  if typeAt madt offset = 0 ∧ 8 ≤ lenAt madt offset ∧ readLE madt 4 (offset + 4) % 2 = 1 then
    some ((madt (offset + 3)).toNat, (madt (offset + 2)).toNat)
  else none

def ioApic (madt : Memory) (offset : Nat) : Option IoApicInfo :=
  if typeAt madt offset = 1 ∧ 12 ≤ lenAt madt offset then
    some ⟨(madt (offset + 2)).toNat, readLE madt 4 (offset + 4), readLE madt 4 (offset + 8)⟩
  else none

def firstCpus (madt : Memory) (entries : List Nat) : List CpuInfo :=
  ((entries.filterMap (localApic madt)).take maxCpus).mapIdx fun i ids => ⟨ids.1, i = 0, ids.2⟩

def lastIoApic (madt : Memory) (entries : List Nat) : Option IoApicInfo :=
  (entries.filterMap (ioApic madt)).getLast?

/-- The entry behind the complete ones is cut off by the table's end, and it is one that
    parse_madt looks into. -/
def CutOff (madt : Memory) (length : Nat) (entries : List Nat) (stop : Nat) : Prop :=
  stop + 2 ≤ length ∧ length < stop + lenAt madt stop ∧
    (typeAt madt stop = 0 ∧ 8 ≤ lenAt madt stop ∧
        (entries.filterMap (localApic madt)).length < maxCpus ∨
      typeAt madt stop = 1 ∧ 12 ≤ lenAt madt stop)

variable {madt : Memory} {info : AcpiInfo} {length offset fuel a : Nat} {done : List Nat}

theorem fields_inside (read : a ∈ info.fields madt offset) : a < offset + lenAt madt offset := by
  unfold AcpiInfo.fields at read
  split at read
  · split at read
    · simp only [mem_map, mem_range] at read
      omega
    · cases read
  split at read
  · split at read
    · simp only [mem_cons, mem_map, mem_range] at read
      omega
    · cases read
  · cases read

theorem entry_skipped (skipped : info.fields madt offset = []) :
    info.entryAt madt offset = info := by
  unfold AcpiInfo.fields at skipped
  unfold AcpiInfo.entryAt AcpiInfo.entry
  by_cases apic : typeAt madt offset = 0
  · rw [if_pos apic] at skipped ⊢
    by_cases room : 8 ≤ lenAt madt offset ∧ info.cpus.length < maxCpus
    · rw [if_pos room] at skipped
      cases skipped
    · rw [dif_neg room]
  rw [if_neg apic] at skipped ⊢
  by_cases io : typeAt madt offset = 1
  · rw [if_pos io] at skipped ⊢
    by_cases long : 12 ≤ lenAt madt offset
    · rw [if_pos long] at skipped
      cases skipped
    · rw [if_neg long]
  · rw [if_neg io]

structure Sums (madt : Memory) (info : AcpiInfo) (entries : List Nat) : Prop where
  cpus : info.cpus = firstCpus madt entries
  ioapic : info.ioapic = lastIoApic madt entries

theorem sums_room (sums : Sums madt info done) :
    info.cpus.length < maxCpus ↔ (done.filterMap (localApic madt)).length < maxCpus := by
  rw [sums.cpus, firstCpus, length_mapIdx, length_take]
  omega

theorem skips_iff (sums : Sums madt info done) :
    info.fields madt offset = [] ↔
      ¬ (typeAt madt offset = 0 ∧ 8 ≤ lenAt madt offset ∧
          (done.filterMap (localApic madt)).length < maxCpus ∨
        typeAt madt offset = 1 ∧ 12 ≤ lenAt madt offset) := by
  rw [← sums_room sums]
  unfold AcpiInfo.fields
  by_cases apic : typeAt madt offset = 0
  · by_cases room : 8 ≤ lenAt madt offset ∧ info.cpus.length < maxCpus <;> simp [apic, room]
  · by_cases io : typeAt madt offset = 1 ∧ 12 ≤ lenAt madt offset <;> simp_all

theorem firstCpus_full (full : ¬ (done.filterMap (localApic madt)).length < maxCpus) :
    firstCpus madt (done ++ [offset]) = firstCpus madt done := by
  rw [firstCpus, filterMap_append, take_append_of_le_length (by omega), firstCpus]

theorem firstCpus_none (other : localApic madt offset = none) :
    firstCpus madt (done ++ [offset]) = firstCpus madt done := by
  simp [firstCpus, other]

theorem firstCpus_some (found : localApic madt offset = some ids)
    (room : (done.filterMap (localApic madt)).length < maxCpus) :
    firstCpus madt (done ++ [offset]) = firstCpus madt done ++
      [⟨ids.1, (firstCpus madt done).isEmpty, ids.2⟩] := by
  have whole : (done.filterMap (localApic madt)).take maxCpus =
      done.filterMap (localApic madt) := take_of_length_le (by omega)
  unfold firstCpus
  rw [filterMap_append, filterMap_cons_some found, filterMap_nil, whole, take_of_length_le]
  · cases done.filterMap (localApic madt) <;> simp
  · rw [length_append]
    exact room

theorem lastIoApic_concat : lastIoApic madt (done ++ [offset]) =
    (ioApic madt offset).or (lastIoApic madt done) := by
  cases io : ioApic madt offset <;> simp [lastIoApic, io]

theorem sums_entry (sums : Sums madt info done) :
    Sums madt (info.entryAt madt offset)
      (done ++ [offset]) := by
  by_cases skipped : info.fields madt offset = []
  · rw [entry_skipped skipped]
    obtain ⟨noCpu, noIo⟩ := not_or.mp ((skips_iff sums).mp skipped)
    constructor
    · cases found : localApic madt offset with
      | none => rw [firstCpus_none found, sums.cpus]
      | some =>
        obtain ⟨⟨apic, long, _⟩, _⟩ := Option.ite_none_right_eq_some.mp found
        rw [firstCpus_full fun room => noCpu ⟨apic, long, room⟩, sums.cpus]
    · rw [lastIoApic_concat, ioApic, if_neg noIo, Option.none_or, sums.ioapic]
  rw [skips_iff sums, not_not] at skipped
  unfold AcpiInfo.entryAt AcpiInfo.entry
  rcases skipped with ⟨apic, long, room⟩ | ⟨io, long⟩
  · have noIo : ioApic madt offset = none := by simp [ioApic, apic]
    rw [if_pos apic, dif_pos ⟨long, (sums_room sums).mpr room⟩, Nat.and_one_is_mod]
    by_cases enabled : readLE madt 4 (offset + 4) % 2 = 1
    · rw [if_pos (by omega)]
      constructor
      · rw [firstCpus_some (if_pos ⟨apic, long, enabled⟩) room, ← sums.cpus]
      · rw [lastIoApic_concat, noIo, Option.none_or, ← sums.ioapic]
    · rw [if_neg (by omega)]
      constructor
      · rw [firstCpus_none (if_neg fun h => enabled h.2.2), sums.cpus]
      · rw [lastIoApic_concat, noIo, Option.none_or, sums.ioapic]
  · have other : ¬ typeAt madt offset = 0 := by omega
    rw [if_neg other, if_pos io, if_pos long]
    constructor
    · rw [firstCpus_none (if_neg fun h => other h.1), ← sums.cpus]
    · rw [lastIoApic_concat, ioApic, if_pos ⟨io, long⟩]
      rfl

def Turn.Safe (length : Nat) (turn : Turn) : Prop :=
  (∀ a ∈ turn.reads, a < length) ∧ (length < turn.offset + turn.entryLen → turn.fields = [])

theorem turn_safe_iff (more : offset + 2 ≤ length) :
    (info.turn madt offset).Safe length ↔
      (length < offset + lenAt madt offset → info.fields madt offset = []) := by
  constructor
  · intro safe
    exact safe.2
  intro skips
  refine ⟨?_, skips⟩
  intro a read
  simp only [AcpiInfo.turn, Turn.reads, mem_cons] at read
  rcases read with rfl | rfl | field
  · omega
  · omega
  have inside := fields_inside field
  by_cases cut : length < offset + lenAt madt offset
  · rw [skips cut] at field
    cases field
  · omega

def Settles (madt : Memory) (length : Nat) (entries : List Nat) (stop : Nat)
    (result : Option (AcpiInfo × List Turn)) : Prop :=
  ∃ final turns, result = some (final, turns) ∧
    ((∀ turn ∈ turns, turn.Safe length) ↔ ¬ CutOff madt length entries stop) ∧
    (¬ CutOff madt length entries stop → Sums madt final entries)

theorem scan_stops (past : ¬ offset + 2 ≤ length) :
    scanEntriesFrom madt length (fuel + 1) offset info = some (info, []) := by
  rw [scanEntriesFrom, if_neg past]

theorem scan_last (enough : length ≤ offset + fuel) (more : offset + 2 ≤ length)
    (last : ¬ (0 < lenAt madt offset ∧ offset + lenAt madt offset ≤ length)) :
    scanEntriesFrom madt length (fuel + 1) offset info =
      some (info.entryAt madt offset, [info.turn madt offset]) := by
  obtain ⟨fuel, rfl⟩ := Nat.exists_eq_add_of_lt (show 0 < fuel by omega)
  rw [scanEntriesFrom, if_pos more]
  by_cases zero : lenAt madt offset = 0
  · have skipped : info.fields madt offset = [] := by
      simp [AcpiInfo.fields, zero]
    rw [if_pos zero, entry_skipped skipped, AcpiInfo.turn, zero, skipped]
  · rw [if_neg zero, Nat.zero_add, scan_stops (by omega)]
    rfl

theorem settles_end (enough : length ≤ offset + fuel) (sums : Sums madt info done)
    (last : ¬ (offset + 2 ≤ length ∧ 0 < lenAt madt offset ∧
      offset + lenAt madt offset ≤ length)) :
    Settles madt length done offset (scanEntriesFrom madt length (fuel + 1) offset info) := by
  by_cases more : offset + 2 ≤ length
  · refine ⟨_, _, scan_last enough more fun h => last ⟨more, h⟩, ?_, ?_⟩
    · rw [forall_mem_singleton, turn_safe_iff more, skips_iff sums]
      simp [CutOff, more]
    intro whole
    have skipped : info.fields madt offset = [] := by
      rw [skips_iff sums]
      intro read
      refine whole ⟨more, ?_, read⟩
      omega
    rw [entry_skipped skipped]
    exact sums
  · refine ⟨_, _, scan_stops more, ?_, fun _ => sums⟩
    simp [CutOff, more]

theorem scan_settles (enough : length ≤ offset + fuel) (sums : Sums madt info done) :
    Settles madt length (done ++ (completeEntries madt length (fuel + 1) offset).1)
      (completeEntries madt length (fuel + 1) offset).2
      (scanEntriesFrom madt length (fuel + 1) offset info) := by
  induction fuel generalizing offset info done with
  | zero =>
    have last : ¬ (offset + 2 ≤ length ∧ 0 < lenAt madt offset ∧
        offset + lenAt madt offset ≤ length) := by omega
    rw [completeEntries, if_neg last, append_nil]
    exact settles_end enough sums last
  | succ fuel ih =>
    rw [completeEntries]
    by_cases complete : offset + 2 ≤ length ∧ 0 < lenAt madt offset ∧
        offset + lenAt madt offset ≤ length
    · obtain ⟨more, some, inside⟩ := complete
      obtain ⟨final, turns, scanned, safe, right⟩ := ih
        (show length ≤ offset + lenAt madt offset + fuel by omega) (sums_entry sums)
      rw [append_assoc, singleton_append] at safe right
      rw [if_pos ⟨more, some, inside⟩]
      refine ⟨final, info.turn madt offset :: turns, ?_, ?_, right⟩
      · rw [scanEntriesFrom, if_pos more, if_neg (by omega), scanned]
        rfl
      · rw [forall_mem_cons, safe]
        exact and_iff_right ((turn_safe_iff more).mpr fun cut => by omega)
    · rw [if_neg complete, append_nil]
      exact settles_end enough sums complete

theorem scan_parses (scanned : scanEntriesFrom madt length fuel offset info = some (final, turns)) :
    parseEntries madt length fuel offset info = final := by
  induction fuel generalizing offset info turns with
  | zero => cases scanned
  | succ fuel ih =>
    rw [scanEntriesFrom] at scanned
    rw [parseEntries]
    by_cases more : offset + 2 ≤ length
    · rw [if_pos more] at scanned ⊢
      show (if lenAt madt offset = 0 then info else parseEntries madt length fuel
        (offset + lenAt madt offset) (info.entryAt madt offset)) = final
      by_cases zero : lenAt madt offset = 0
      · rw [if_pos zero] at scanned ⊢
        cases scanned
        rfl
      · rw [if_neg zero] at scanned ⊢
        obtain ⟨rest, later, same⟩ := Option.map_eq_some_iff.mp scanned
        cases same
        exact ih later
    · rw [if_neg more] at scanned ⊢
      cases scanned
      rfl

/-- parse_madt ends, reads inside the table, looks into no entry that runs past the end, and
    returns what the complete entries say, for every table but those whose end cuts off an entry
    of the kinds it looks into. -/
theorem parse_madt_exact_iff (madt : Memory) (long : 44 ≤ readLE madt 4 4) :
    let length := readLE madt 4 4
    let entries := completeEntries madt length length 44
    (∃ turns, scanMadt madt = some (parseMadt madt, turns) ∧
      (∀ a ∈ headerReads ++ turns.flatMap Turn.reads, a < length) ∧
      (∀ turn ∈ turns, length < turn.offset + turn.entryLen → turn.fields = []) ∧
      (parseMadt madt).cpus = firstCpus madt entries.1 ∧
      (parseMadt madt).numCpus = (firstCpus madt entries.1).length ∧
      (parseMadt madt).ioapic = lastIoApic madt entries.1) ↔
    ¬ CutOff madt length entries.1 entries.2 := by
  intro length entries
  have header : ∀ a ∈ headerReads, a < 44 := by decide
  have start : Sums madt ⟨[], none, readLE madt 4 36, Nat.zero_le _⟩ [] := ⟨rfl, rfl⟩
  have settles := scan_settles (show length ≤ 44 + (length - 1) by omega) start
  rw [Nat.sub_add_cancel (by omega), nil_append] at settles
  obtain ⟨final, turns, scanned, safe, right⟩ := settles
  have parsed : parseMadt madt = final := scan_parses scanned
  have scan : scanMadt madt = some (parseMadt madt, turns) := by
    rw [parsed]
    exact scanned
  rw [← safe]
  constructor
  · rintro ⟨_, again, inside, skips, -⟩ turn member
    cases again.symm.trans scan
    refine ⟨?_, skips turn member⟩
    intro a read
    exact inside a (mem_append_right _ (mem_flatMap.mpr ⟨turn, member, read⟩))
  · intro all
    have sums := right (safe.mp all)
    refine ⟨turns, scan, ?_, fun turn member => (all turn member).2, ?_⟩
    · intro a read
      rcases mem_append.mp read with first | later
      · exact Nat.lt_of_lt_of_le (header a first) long
      · obtain ⟨turn, member, read⟩ := mem_flatMap.mp later
        exact (all turn member).1 a read
    · rw [AcpiInfo.numCpus, parsed, sums.cpus, sums.ioapic]
      exact ⟨rfl, rfl, rfl⟩

def cutTable : List UInt8 :=
  replicate 4 0 ++ [48, 0, 0, 0] ++ replicate 36 0 ++ [0, 8, 1, 2] ++ [1, 0, 0, 0]

theorem parse_madt_reads_behind_table :
    let madt := image cutTable
    readLE madt 4 4 = 48 ∧ completeEntries madt 48 48 44 = ([], 44) ∧
      (parseMadt madt).cpus = [⟨2, true, 1⟩] ∧
      (scanMadt madt).map (fun r => r.2.flatMap Turn.reads) =
        some [44, 45, 46, 47, 48, 49, 50, 51] := by
  decide +kernel

def wholeTable : List UInt8 :=
  replicate 4 0 ++ [72, 0, 0, 0] ++ replicate 36 0 ++ [0, 8, 1, 2, 1, 0, 0, 0] ++
    [1, 12, 0, 0, 0, 0, 192, 254, 0, 0, 0, 0] ++ [0, 8, 2, 4, 1, 0, 0, 0]

theorem parse_madt_exact_three_entries :
    let madt := image wholeTable
    44 ≤ readLE madt 4 4 ∧ (parseMadt madt).cpus = [⟨2, true, 1⟩, ⟨4, false, 2⟩] ∧
      ∃ turns, scanMadt madt = some (parseMadt madt, turns) ∧
        ∀ a ∈ headerReads ++ turns.flatMap Turn.reads, a < 72 := by
  intro madt
  have long : 44 ≤ readLE madt 4 4 := by decide
  have whole : ¬ CutOff madt 72 [44, 52, 64] 72 := by
    unfold CutOff
    decide
  obtain ⟨turns, scan, inside, -⟩ := (parse_madt_exact_iff madt long).mpr whole
  exact ⟨long, by decide +kernel, turns, scan, inside⟩

end TynKernel.Smp
