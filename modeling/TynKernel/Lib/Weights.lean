import Mathlib.Algebra.BigOperators.Group.List.Basic
import Mathlib.Algebra.GroupWithZero.Nat
import Mathlib.Data.List.AList

/-!
Finite maps whose values have a weight. The weight of a map is the sum over its entries; writing
or erasing a key changes it by what stands under that key.
-/
namespace TynKernel.Weights
variable {K V : Type} [DecidableEq K]

def weight (w : V → Nat) (m : AList fun _ : K => V) : Nat := (m.entries.map fun e => w e.2).sum

variable {m : AList fun _ : K => V} {k : K} {v : V}

theorem lookup_write (m : AList fun _ : K => V) (k : K) (v : V) (p : K) :
    (m.insert k v).lookup p = if p = k then some v else m.lookup p := by
  split
  · rename_i same
    rw [same, AList.lookup_insert]
  · rename_i other
    rw [AList.lookup_insert_ne other]

theorem lookup_erased (m : AList fun _ : K => V) (k p : K) :
    (m.erase k).lookup p = if p = k then none else m.lookup p := by
  split
  · rename_i same
    rw [same, AList.lookup_erase]
  · rename_i other
    rw [AList.lookup_erase_ne other]

theorem erase_absent (absent : m.lookup k = none) :
    m.erase k = m := by
  apply AList.ext
  exact List.kerase_of_notMem_keys (AList.lookup_eq_none.mp absent)

theorem weight_present (w : V → Nat) (present : m.lookup k = some v) :
    weight w m = w v + weight w (m.erase k) := by
  have member : k ∈ m.entries.keys := by
    apply AList.lookup_isSome.mp
    rw [present]
    rfl
  obtain ⟨b, before, after, new, split, erased⟩ := List.exists_of_kerase member
  have value : b = v := by
    have found : m.lookup k = some b := by
      apply AList.mem_lookup_iff.mpr
      rw [split]
      simp
    rw [present] at found
    exact (Option.some.inj found).symm
  have rest : (m.erase k).entries = before ++ after := erased
  subst value
  unfold weight
  rw [rest, split]
  simp only [List.map_append, List.map_cons, List.sum_append, List.sum_cons]
  omega

theorem weight_insert (w : V → Nat) (m : AList fun _ : K => V) (k : K) (v : V) :
    weight w (m.insert k v) = w v + weight w (m.erase k) := rfl

theorem weight_insert_new (w : V → Nat) (v : V) (absent : m.lookup k = none) :
    weight w (m.insert k v) = w v + weight w m := by
  rw [weight_insert, erase_absent absent]

theorem weight_insert_over (w : V → Nat) (v : V) (present : m.lookup k = some old) :
    weight w (m.insert k v) + w old = weight w m + w v := by
  rw [weight_insert, weight_present w present]
  omega

theorem weight_le (w : V → Nat) (present : m.lookup k = some v) : w v ≤ weight w m := by
  rw [weight_present w present]
  exact Nat.le_add_right _ _

end TynKernel.Weights
