import Mathlib.Algebra.Group.Nat.Defs
import Mathlib.Data.List.GetD

/-!
Bytes in memory. A memory holds a list of bytes at an offset; fixed-width numbers are stored
with their low byte first.
-/
namespace TynKernel.Bytes
open List

def text (s : String) : List UInt8 := s.toList.map fun c => UInt8.ofNat c.toNat

abbrev Memory := Nat → UInt8

def image (bytes : List UInt8) : Memory := fun i => bytes.getD i 0

/-- The memory as a pointer sees it: the sum of pointer and offset is a 64-bit one. -/
def seenAt (mem : Memory) (base : Nat) : Memory := fun offset => mem ((base + offset) % 2 ^ 64)

def readLE (mem : Memory) : (count offset : Nat) → Nat
  | 0, _ => 0
  | count + 1, offset => (mem offset).toNat + 256 * readLE mem count (offset + 1)

def encodeLE : (count value : Nat) → List UInt8
  | 0, _ => []
  | count + 1, value => UInt8.ofNat value :: encodeLE count (value / 256)

def Holds (mem : Memory) (offset : Nat) (bytes : List UInt8) : Prop :=
  ∀ i, i < bytes.length → mem (offset + i) = image bytes i

theorem image_append_left (second : List UInt8)
    (inside : i < first.length) : image (first ++ second) i = image first i :=
  getD_append _ _ _ _ inside

theorem image_append_right (first second : List UInt8) (i : Nat) :
    image (first ++ second) (first.length + i) = image second i := by
  unfold image
  rw [getD_append_right _ _ _ _ (Nat.le_add_right _ _), Nat.add_sub_cancel_left]

theorem image_holds (bytes : List UInt8) : Holds (image bytes) 0 bytes := by
  intro i _
  rw [Nat.zero_add]

theorem holds_append (holds : Holds mem offset (first ++ second)) :
    Holds mem offset first ∧ Holds mem (offset + first.length) second := by
  constructor
  · intro i inside
    rw [holds i (by rw [length_append]; omega), image_append_left second inside]
  · intro i inside
    rw [Nat.add_assoc, holds (first.length + i) (by rw [length_append]; omega),
      image_append_right]

theorem holds_cons (holds : Holds mem offset (b :: bytes)) :
    mem offset = b ∧ Holds mem (offset + 1) bytes := by
  constructor
  · exact holds 0 (Nat.succ_pos _)
  · intro i inside
    rw [Nat.add_assoc, Nat.add_comm 1 i]
    exact holds (i + 1) (Nat.succ_lt_succ inside)

theorem encodeLE_length (count value : Nat) : (encodeLE count value).length = count := by
  induction count generalizing value with
  | zero => rfl
  | succ count ih => rw [encodeLE, length_cons, ih]

theorem readLE_encodeLE {count value offset : Nat} (fits : value < 256 ^ count)
    (holds : Holds mem offset (encodeLE count value)) : readLE mem count offset = value := by
  induction count generalizing value offset with
  | zero =>
    rw [readLE]
    omega
  | succ count ih =>
    obtain ⟨low, rest⟩ := holds_cons holds
    have small : value / 256 < 256 ^ count := by
      exact Nat.div_lt_of_lt_mul (Nat.mul_comm _ _ ▸ fits)
    rw [readLE, low, ih small rest, UInt8.toNat_ofNat']
    exact Nat.mod_add_div value 256

theorem readLE_lt (mem : Memory) (count offset : Nat) : readLE mem count offset < 256 ^ count := by
  induction count generalizing offset with
  | zero => exact Nat.one_pos
  | succ count ih =>
    have byte := (mem offset).toNat_lt
    have rest := ih (offset + 1)
    rw [readLE, Nat.pow_succ]
    omega

theorem readLE_congr {count offset : Nat}
    (same : ∀ k, offset ≤ k → k < offset + count → mem k = mem' k) :
    readLE mem count offset = readLE mem' count offset := by
  induction count generalizing offset with
  | zero => rfl
  | succ count ih =>
    unfold readLE
    rw [same offset (by omega) (by omega), ih fun k _ _ => same k (by omega) (by omega)]

theorem readLE_odd (mem : Memory) (count offset : Nat) :
    readLE mem (count + 1) offset % 2 = (mem offset).toNat % 2 := by
  rw [readLE]
  omega

/-- The bytes with others put over them from an offset on. What lies between the old end and the
    offset is zero. -/
def overwrite (old : List UInt8) (offset : Nat) (bytes : List UInt8) : List UInt8 :=
  (old ++ List.replicate (offset - old.length) 0).take offset ++
    (bytes ++ old.drop (offset + bytes.length))

theorem overwrite_length (old : List UInt8) (offset : Nat) (bytes : List UInt8) :
    (overwrite old offset bytes).length = old.length + (offset + bytes.length - old.length) := by
  simp only [overwrite, length_append, length_take, length_replicate,
    length_drop]
  omega

theorem overwrite_padded (old : List UInt8) (offset : Nat) (bytes : List UInt8) :
    let room := old ++ List.replicate (offset + bytes.length - old.length) 0
    room.take offset ++ (bytes ++ room.drop (offset + bytes.length)) =
      overwrite old offset bytes := by
  simp only [overwrite]
  have front : (old ++ List.replicate (offset + bytes.length - old.length) (0 : UInt8)).take offset =
      (old ++ List.replicate (offset - old.length) 0).take offset := by
    rw [take_append, take_append, take_replicate, take_replicate]
    congr 2
    omega
  have back : (old ++ List.replicate (offset + bytes.length - old.length) (0 : UInt8)).drop
      (offset + bytes.length) = old.drop (offset + bytes.length) := by
    rw [drop_append, drop_replicate, Nat.sub_self, replicate_zero, append_nil]
  rw [front, back]

theorem overwrite_end (old bytes : List UInt8) : overwrite old old.length bytes = old ++ bytes := by
  rw [overwrite, Nat.sub_self, replicate_zero, append_nil, take_length,
    drop_eq_nil_of_le (Nat.le_add_right _ _), append_nil]

end TynKernel.Bytes
