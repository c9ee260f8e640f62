import Mathlib.Data.List.Basic
import Mathlib.Data.Nat.ModEq

/-!
Queues in a circle of cells. The queue stands in the cells from the head up to the tail. One cell
always stays free, so that head and tail meet only if the queue is empty.
-/
namespace TynKernel.Rings
open List
variable {A : Type} [Inhabited A]

def used (size head tail : Nat) : Nat := (tail + size - head) % size

def turn (cells : List A) (start n : Nat) : List A :=
  (List.range n).map fun i => cells.getD ((start + i) % cells.length) default

theorem turn_length (cells : List A) (start n : Nat) : (turn cells start n).length = n := by
  rw [turn, length_map, length_range]

theorem turn_zero (cells : List A) (start : Nat) : turn cells start 0 = [] := rfl

theorem turn_last (cells : List A) (start n : Nat) :
    turn cells start (n + 1) =
      turn cells start n ++ [cells.getD ((start + n) % cells.length) default] := by
  rw [turn, range_succ, map_append]
  rfl

theorem turn_first {cells : List A} (inside : start < cells.length) (n : Nat) :
    turn cells start (n + 1) =
      cells.getD start default :: turn cells ((start + 1) % cells.length) n := by
  rw [turn, range_succ_eq_map, map_cons, map_map, Nat.add_zero,
    Nat.mod_eq_of_lt inside, turn]
  congr 1
  apply map_congr_left
  intro i _
  have same : (start + (i + 1)) % cells.length = ((start + 1) % cells.length + i) % cells.length := by
    rw [Nat.mod_add_mod, Nat.add_assoc, Nat.add_comm 1 i]
  exact congrArg (cells.getD · default) same

theorem place_ne (start : Nat) (before : i < n) (part : n < size) :
    (start + i) % size ≠ (start + n) % size := by
  intro same
  have near : i % size = n % size := Nat.ModEq.add_left_cancel' start same
  rw [Nat.mod_eq_of_lt (Nat.lt_trans before part), Nat.mod_eq_of_lt part] at near
  exact absurd near (Nat.ne_of_lt before)

theorem turn_set (part : n < cells.length) (a : A) :
    turn (cells.set ((start + n) % cells.length) a) start (n + 1) = turn cells start n ++ [a] := by
  have inside : (start + n) % cells.length < cells.length := Nat.mod_lt _ (by omega)
  rw [turn_last, length_set]
  congr 1
  · apply map_congr_left
    intro i member
    have apart := place_ne start (mem_range.mp member) part
    rw [length_set, getD_eq_getElem?_getD, getElem?_set_ne apart.symm,
      getD_eq_getElem?_getD]
  · rw [getD_eq_getElem?_getD, getElem?_set_self inside, Option.getD_some]

section Places
variable {size head tail : Nat}

theorem next_place (inside : tail < size) :
    (tail + 1) % size = if tail + 1 = size then 0 else tail + 1 := by
  split
  · rename_i last
    rw [last, Nat.mod_self]
  · exact Nat.mod_eq_of_lt (by omega)

section
variable (first : head < size) (last : tail < size)
include first last

theorem used_eq :
    used size head tail = if head ≤ tail then tail - head else tail + size - head := by
  unfold used
  split
  · have sum : tail + size - head = tail - head + size := by omega
    rw [sum, Nat.add_mod_right]
    exact Nat.mod_eq_of_lt (by omega)
  · exact Nat.mod_eq_of_lt (by omega)

theorem used_lt : used size head tail < size := by
  rw [used_eq first last]
  split <;> omega

theorem tail_place :
    (head + used size head tail) % size = tail := by
  rw [used_eq first last]
  split
  · rw [Nat.add_sub_cancel' (by assumption)]
    exact Nat.mod_eq_of_lt last
  · rw [Nat.add_sub_cancel' (by omega), Nat.add_mod_right]
    exact Nat.mod_eq_of_lt last

theorem used_zero :
    used size head tail = 0 ↔ head = tail := by
  rw [used_eq first last]
  split <;> omega

theorem used_full :
    (tail + 1) % size = head ↔ used size head tail + 1 = size := by
  rw [next_place last, used_eq first last]
  split <;> split <;> omega

theorem used_push (room : (tail + 1) % size ≠ head) :
    used size head ((tail + 1) % size) = used size head tail + 1 := by
  have inside : (tail + 1) % size < size := Nat.mod_lt _ (by omega)
  rw [used_eq first inside, used_eq first last]
  rw [next_place last] at room ⊢
  by_cases end_ : tail + 1 = size
  · rw [if_pos end_] at room ⊢
    split <;> split <;> omega
  · rw [if_neg end_] at room ⊢
    split <;> split <;> omega

theorem used_pop (some_ : head ≠ tail) :
    used size head tail = used size ((head + 1) % size) tail + 1 := by
  have inside : (head + 1) % size < size := Nat.mod_lt _ (by omega)
  rw [used_eq inside last, used_eq first last, next_place first]
  split <;> split <;> split <;> omega

end

end Places

end TynKernel.Rings
