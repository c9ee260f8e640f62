import TynKernel.Lib.Bytes

/-!
The firmware's root table (RSDT) and the two searches of acpi.rs in it, find_madt and
find_table_in_sdt.
-/
namespace TynKernel.Smp
open Bytes

def signature (mem : Memory) (base : Nat) : List UInt8 := (List.range 4).map (seenAt mem base)

def declaredLength (mem : Memory) (sdt : Nat) : Nat := readLE (seenAt mem sdt) 4 4

def entriesStart : Nat := 36

/-- The loop over the entries that are left, from the entry i on. It returns the first address
    whose table has the signature, and the offsets at which it read entries. -/
def scanEntries (mem : Memory) (sdt : Nat) (target : List UInt8) (entrySize : Nat) :
    (left i : Nat) → Option Nat × List Nat
  | 0, _ => (none, [])
  | left + 1, i =>
    let entryOff := (entriesStart + i * entrySize) % 2 ^ 64
    let entryAddr := readLE (seenAt mem sdt) (if entrySize = 4 then 4 else 8) entryOff
    if signature mem entryAddr = target then (some entryAddr, [entryOff])
    else
      let rest := scanEntries mem sdt target entrySize left (i + 1)
      (rest.1, entryOff :: rest.2)

def findMadt (mem : Memory) (rsdt : UInt32) : Option Nat × List Nat :=
  if signature mem rsdt.toNat ≠ text "RSDT" then (none, [])
  else
    -- the subtraction of two usize wraps in a release build
    let numEntries := ((declaredLength mem rsdt.toNat + 2 ^ 64 - entriesStart) % 2 ^ 64) / 4
    scanEntries mem rsdt.toNat (text "APIC") 4 numEntries 0

def findTableInSdt (mem : Memory) (sdt : UInt64) (expectedRootSig target : List UInt8)
    (entrySize : Nat) : Option Nat × List Nat :=
  if signature mem sdt.toNat ≠ expectedRootSig then (none, [])
  else
    let length := declaredLength mem sdt.toNat
    if length ≤ entriesStart then (none, [])
    else scanEntries mem sdt.toNat target entrySize ((length - entriesStart) / entrySize) 0

variable {mem : Memory} {sdt entrySize left i off : Nat} {target : List UInt8}

theorem scanEntries_inside (read : off ∈ (scanEntries mem sdt target entrySize left i).2) :
    off + entrySize ≤ entriesStart + (i + left) * entrySize := by
  induction left generalizing i with
  | zero => cases read
  | succ left ih =>
    have here : (entriesStart + i * entrySize) % 2 ^ 64 + entrySize ≤
        entriesStart + (i + (left + 1)) * entrySize := by
      have wrapped := Nat.mod_le (entriesStart + i * entrySize) (2 ^ 64)
      have sum := Nat.mul_le_mul_right entrySize (show i + 1 ≤ i + (left + 1) by omega)
      rw [Nat.add_mul, Nat.one_mul] at sum
      omega
    rw [scanEntries] at read
    by_cases found : signature mem (readLE (seenAt mem sdt) (if entrySize = 4 then 4 else 8)
        ((entriesStart + i * entrySize) % 2 ^ 64)) = target
    · simp only [found, if_true, List.mem_singleton] at read
      rw [read]
      exact here
    simp only [found, if_false, List.mem_cons] at read
    rcases read with rfl | later
    · exact here
    · have bound := ih later
      rw [show i + 1 + left = i + (left + 1) by omega] at bound
      exact bound

theorem scanEntries_first (any : 0 < left) :
    entriesStart ∈ (scanEntries mem sdt target entrySize left 0).2 := by
  obtain ⟨left, rfl⟩ := Nat.exists_eq_add_of_lt any
  have first : (entriesStart + 0 * entrySize) % 2 ^ 64 = entriesStart := by
    rw [Nat.zero_mul]
    rfl
  rw [Nat.zero_add, scanEntries, first]
  by_cases found : signature mem (readLE (seenAt mem sdt) (if entrySize = 4 then 4 else 8)
      entriesStart) = target
  · simp [found]
  · simp [found]

/-- The two searches return the same, and find_madt stays inside the table, for every table but
    those that declare a length below that of the header. -/
theorem findMadt_agrees_iff (mem : Memory) (rsdt : UInt32) :
    ((findMadt mem rsdt).1 =
        (findTableInSdt mem rsdt.toUInt64 (text "RSDT") (text "APIC") 4).1 ∧
      ∀ off ∈ (findMadt mem rsdt).2, off + 4 ≤ declaredLength mem rsdt.toNat) ↔
    (signature mem rsdt.toNat ≠ text "RSDT" ∨ entriesStart ≤ declaredLength mem rsdt.toNat) := by
  unfold findMadt findTableInSdt
  rw [UInt32.toNat_toUInt64]
  by_cases other : signature mem rsdt.toNat ≠ text "RSDT"
  · simp [other]
  have small : declaredLength mem rsdt.toNat < 256 ^ 4 := readLE_lt ..
  rw [if_neg other, if_neg other]
  generalize declaredLength mem rsdt.toNat = length at small ⊢
  by_cases long : entriesStart ≤ length
  · have count : (length + 2 ^ 64 - entriesStart) % 2 ^ 64 = length - entriesStart := by
      rw [Nat.sub_add_comm long, Nat.add_mod_right]
      exact Nat.mod_eq_of_lt (by omega)
    simp only [count, long, or_true, iff_true]
    constructor
    · by_cases bare : length ≤ entriesStart
      · rw [if_pos bare, Nat.le_antisymm bare long, Nat.sub_self, Nat.zero_div, scanEntries]
      · rw [if_neg bare]
    · intro off read
      have bound := scanEntries_inside read
      omega
  · have short : (entriesStart : Nat) = 36 := rfl
    have any : 0 < (length + 2 ^ 64 - entriesStart) % 2 ^ 64 / 4 := by omega
    constructor
    · rintro ⟨-, inside⟩
      have bound := inside _ (scanEntries_first any)
      omega
    · rintro (root | enough)
      · exact absurd root other
      · exact absurd enough long

def bareTable : List UInt8 :=
  text "RSDT" ++ List.replicate 32 0 ++ [40, 16, 0, 0] ++ text "APIC"

theorem findMadt_reads_behind_bare_table :
    let mem : Memory := fun a => image bareTable (a - 4096)
    signature mem 4096 = text "RSDT" ∧ declaredLength mem 4096 = 0 ∧
      findMadt mem 4096 = (some 4136, [36]) ∧
      findTableInSdt mem 4096 (text "RSDT") (text "APIC") 4 = (none, []) := by
  decide +kernel

end TynKernel.Smp
