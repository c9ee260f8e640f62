import TynKernel.Lib.Bytes
import TynKernel.Sched.State

/-!
The firmware's table of processors (MADT) and parse_madt of acpi.rs, which keeps the enabled
local APICs, sixteen at most, in the order of the table.
-/
namespace TynKernel.Smp
open Bytes Sched

structure CpuInfo where
  apicId : Nat
  isBsp : Bool
  processorId : Nat
  deriving DecidableEq, Repr

structure IoApicInfo where
  id : Nat
  address : Nat
  gsiBase : Nat
  deriving DecidableEq, Repr

/-- The part of AcpiInfo that comes from the MADT; num_cpus is the length of the list. -/
structure AcpiInfo where
  cpus : List CpuInfo
  ioapic : Option IoApicInfo
  localApicAddr : Nat
  few : cpus.length ≤ maxCpus

def AcpiInfo.numCpus (info : AcpiInfo) : Nat := info.cpus.length

def AcpiInfo.entry (info : AcpiInfo) (madt : Memory) (offset entryType entryLen : Nat) : AcpiInfo :=
  if entryType = 0 then
    if room : 8 ≤ entryLen ∧ info.cpus.length < maxCpus then
      if readLE madt 4 (offset + 4) &&& 1 ≠ 0 then
        { info with
          cpus := info.cpus ++
            [⟨(madt (offset + 3)).toNat, info.cpus.isEmpty, (madt (offset + 2)).toNat⟩]
          few := by
            rw [List.length_append]
            exact room.2 }
      else info
    else info
  else if entryType = 1 then
    if 12 ≤ entryLen then
      { info with
        ioapic := some ⟨(madt (offset + 2)).toNat, readLE madt 4 (offset + 4),
          readLE madt 4 (offset + 8)⟩ }
    else info
  else info

/-- The loop over the entries. A turn moves at least one byte on, so that the length of the
    table is fuel enough. -/
def parseEntries (madt : Memory) (length : Nat) : (fuel offset : Nat) → AcpiInfo → AcpiInfo
  | 0, _, info => info
  | fuel + 1, offset, info =>
    if offset + 2 ≤ length then
      let entryType := (madt offset).toNat
      let entryLen := (madt (offset + 1)).toNat
      if entryLen = 0 then info
      else
        parseEntries madt length fuel (offset + entryLen) (info.entry madt offset entryType entryLen)
    else info

def parseMadt (madt : Memory) : AcpiInfo :=
  let length := readLE madt 4 4
  parseEntries madt length length 44
    { cpus := [], ioapic := none, localApicAddr := readLE madt 4 36, few := Nat.zero_le _ }

structure Entry where
  kind : UInt8
  body : List UInt8
  fits : body.length + 2 < 256

def Entry.bytes (e : Entry) : List UInt8 := e.kind :: UInt8.ofNat (e.body.length + 2) :: e.body

def entriesBytes (entries : List Entry) : List UInt8 := entries.flatMap Entry.bytes

structure Madt where
  localApicAddr : UInt32
  entries : List Entry
  fits : 44 + (entriesBytes entries).length < 2 ^ 32

def Madt.bytes (madt : Madt) : List UInt8 :=
  [65, 80, 73, 67] ++ (encodeLE 4 (44 + (entriesBytes madt.entries).length) ++
    (List.replicate 28 0 ++ (encodeLE 4 madt.localApicAddr.toNat ++
      (encodeLE 4 1 ++ entriesBytes madt.entries))))

def Entry.enabledId (e : Entry) : Option Nat :=
  if e.kind = 0 ∧ 6 ≤ e.body.length ∧ (image e.body 2).toNat % 2 = 1 then
    some (image e.body 1).toNat
  else none

def Madt.enabledIds (madt : Madt) : List Nat :=
  (madt.entries.filterMap Entry.enabledId).take maxCpus

def AcpiInfo.ids (info : AcpiInfo) : List Nat := info.cpus.map CpuInfo.apicId

variable {offset : Nat} {info : AcpiInfo} {mem : Memory} {e : Entry}

theorem entry_bytes_length (e : Entry) : e.bytes.length = e.body.length + 2 := rfl

theorem entry_held (holds : Holds mem offset e.bytes) :
    mem offset = e.kind ∧ (mem (offset + 1)).toNat = e.body.length + 2 ∧
      Holds mem (offset + 2) e.body := by
  obtain ⟨kind, rest⟩ := holds_cons holds
  obtain ⟨len, body⟩ := holds_cons rest
  refine ⟨kind, ?_, body⟩
  rw [len, UInt8.toNat_ofNat']
  exact Nat.mod_eq_of_lt e.fits

theorem entry_ids (info : AcpiInfo) (holds : Holds mem offset e.bytes) :
    (info.entry mem offset e.kind.toNat (e.body.length + 2)).ids =
      (info.ids ++ e.enabledId.toList).take maxCpus := by
  obtain ⟨_, _, body⟩ := entry_held holds
  have few := info.few
  have short : info.ids.length = info.cpus.length := List.length_map ..
  have kept : info.ids.take maxCpus = info.ids := List.take_of_length_le (by omega)
  have zero : e.kind.toNat = 0 ↔ e.kind = 0 := by
    rw [← UInt8.toNat_inj]
    rfl
  unfold AcpiInfo.entry Entry.enabledId
  by_cases apic : e.kind = 0
  · rw [if_pos (zero.mpr apic)]
    by_cases long : 6 ≤ e.body.length
    · -- the flags and the id lie inside the entry
      have flags : readLE mem 4 (offset + 4) % 2 = (image e.body 2).toNat % 2 := by
        rw [readLE_odd, ← body 2 (by omega)]
      have id : mem (offset + 3) = image e.body 1 := body 1 (by omega)
      rw [Nat.and_one_is_mod, flags]
      by_cases enabled : (image e.body 2).toNat % 2 = 1
      · rw [if_pos ⟨apic, long, enabled⟩]
        by_cases room : info.cpus.length < maxCpus
        · rw [dif_pos ⟨by omega, room⟩, if_pos (by omega)]
          have whole : (info.ids ++ [(image e.body 1).toNat]).length ≤ maxCpus := by
            rw [List.length_append, short]
            exact room
          rw [Option.toList_some, List.take_of_length_le whole]
          simp [AcpiInfo.ids, id]
        · rw [dif_neg (fun h => room h.2), List.take_append_of_le_length (by omega), kept]
      · rw [if_neg (fun h => enabled h.2.2), Option.toList_none, List.append_nil, kept]
        split
        · rw [if_neg (by omega)]
        · rfl
    · rw [if_neg (fun h => long h.2.1), Option.toList_none, List.append_nil, kept,
        dif_neg (fun h => by omega)]
  · have other : ¬ (e.kind = 0 ∧ 6 ≤ e.body.length ∧ (image e.body 2).toNat % 2 = 1) :=
      fun h => apic h.1
    rw [if_neg (fun h => apic (zero.mp h)), if_neg other, Option.toList_none, List.append_nil, kept]
    split
    · split <;> rfl
    · rfl

theorem take_take_append (n : Nat) (first second : List α) :
    (first.take n ++ second).take n = (first ++ second).take n := by
  rw [List.take_append, List.take_append, List.take_take, Nat.min_self, List.length_take]
  congr 2
  omega

theorem parseEntries_ids (entries : List Entry) (holds : Holds mem offset (entriesBytes entries))
    (ends : length = offset + (entriesBytes entries).length) (enough : entries.length ≤ fuel) :
    (parseEntries mem length fuel offset info).ids =
      (info.ids ++ entries.filterMap Entry.enabledId).take maxCpus := by
  induction entries generalizing fuel offset info with
  | nil =>
    have past : ¬ offset + 2 ≤ length := by
      rw [ends]
      simp [entriesBytes]
    have stop : parseEntries mem length fuel offset info = info := by
      cases fuel with
      | zero => rfl
      | succ => rw [parseEntries, if_neg past]
    have few := info.few
    rw [stop, List.filterMap_nil, List.append_nil, List.take_of_length_le]
    rw [AcpiInfo.ids, List.length_map]
    exact few
  | cons e rest ih =>
    cases fuel with
    | zero => cases enough
    | succ =>
      have size : (entriesBytes (e :: rest)).length = e.body.length + 2 + (entriesBytes rest).length := by
        rw [entriesBytes, List.flatMap_cons, List.length_append]
        rfl
      have both : Holds mem offset (e.bytes ++ entriesBytes rest) := holds
      obtain ⟨first, later⟩ := holds_append both
      obtain ⟨kind, len, _⟩ := entry_held first
      have more : offset + 2 ≤ length := by omega
      rw [parseEntries, if_pos more]
      simp only [kind, len]
      rw [entry_bytes_length] at later
      rw [if_neg (by omega), ih later (by omega) (Nat.le_of_succ_le_succ enough),
        entry_ids info first, take_take_append, List.filterMap_cons]
      cases e.enabledId with
      | none | some id => simp

theorem entries_short (entries : List Entry) : entries.length ≤ (entriesBytes entries).length := by
  induction entries with
  | nil => exact Nat.le_refl _
  | cons e rest ih =>
    rw [entriesBytes, List.flatMap_cons, List.length_append, List.length_cons, entry_bytes_length]
    have short : rest.length ≤ (rest.flatMap Entry.bytes).length := ih
    omega

theorem parseMadt_ids (madt : Madt) : (parseMadt (image madt.bytes)).ids = madt.enabledIds := by
  have whole := image_holds madt.bytes
  obtain ⟨_, afterSignature⟩ := holds_append whole
  obtain ⟨length, afterLength⟩ := holds_append afterSignature
  obtain ⟨_, afterHeader⟩ := holds_append afterLength
  obtain ⟨_, afterAddress⟩ := holds_append afterHeader
  obtain ⟨_, entries⟩ := holds_append afterAddress
  have read : readLE (image madt.bytes) 4 4 = 44 + (entriesBytes madt.entries).length :=
    readLE_encodeLE madt.fits length
  simp only [encodeLE_length, List.length_replicate, List.length_cons, List.length_nil] at entries
  have short := entries_short madt.entries
  unfold parseMadt
  rw [read, parseEntries_ids madt.entries entries rfl (by omega)]
  rfl

end TynKernel.Smp
