import Mathlib.Data.Finset.Card

/-!
Rows of cells with keys, one of which marks the free cells. A value is written over the first
cell with its key, or else into the first free one.
-/
namespace TynKernel.Keyed
open List
variable {α K : Type} [DecidableEq K] (key : α → K) (free : K)

def under (cells : List α) (k : K) : List α := cells.filter fun c => key c = k

def drop (blank : α) (cells : List α) (k : K) : List α :=
  cells.map fun c => if key c = k then blank else c

def put (cells : List α) (a : α) : List α :=
  match cells.findIdx? fun c => key c = key a with
  | some i => cells.set i a
  | none =>
    match cells.findIdx? fun c => key c = free with
    | some i => cells.set i a
    | none => cells

def Maps (cells : List α) (m : K → Option α) : Prop :=
  ∀ k, k ≠ free → under key cells k = (m k).toList

variable {c blank : α} {rest : List α} {k' : K} {used : Finset K}

section Cells
variable {key free} {cells : List α} {k : K} {a : α}

theorem keys_nodup (once : ∀ k, k ≠ free → (under key cells k).length ≤ 1)
    (used : ∀ c ∈ cells, p c = true → key c ≠ free) : ((cells.filter p).map key).Nodup := by
  rw [nodup_iff_count_le_one]
  intro k
  by_cases absent : k = free
  · rw [count_eq_zero_of_not_mem]
    · exact Nat.zero_le _
    · intro member
      obtain ⟨c, inside, same⟩ := mem_map.mp member
      obtain ⟨there, passes⟩ := mem_filter.mp inside
      exact used c there passes (same.trans absent)
  · rw [List.count, countP_map, countP_filter]
    refine Nat.le_trans (countP_mono_left fun c _ both => ?_)
      (Nat.le_trans (Nat.le_of_eq countP_eq_length_filter) (once k absent))
    simpa using (Bool.and_eq_true_iff.mp both).1

end Cells

section Maps
variable {key free} {cells : List α} {m : K → Option α}

end Maps

end TynKernel.Keyed
