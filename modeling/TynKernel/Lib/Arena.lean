import Mathlib.Data.List.AList

/-!
Arenas. A value is kept under a number, its handle. A new value gets a handle that is not in use;
which one is left open, so one that was given back may be handed out again. What an arena holds is
stated as the list of its items, up to their order.
-/
namespace TynKernel.Arenas
variable {A K : Type}

/-- A way to choose the handle of a new value. -/
class Handles where
  fresh : List Nat → Nat
  fresh_not_mem : ∀ used, fresh used ∉ used

def above : List Nat → Nat
  | [] => 0
  | h :: used => max (h + 1) (above used)

theorem above_not_mem (used : List Nat) : above used ∉ used := by
  have least : ∀ h ∈ used, h < above used := by
    induction used with
    | nil => simp
    | cons first used ih =>
      rw [List.forall_mem_cons]
      refine ⟨Nat.lt_of_succ_le (Nat.le_max_left _ _), fun h member => ?_⟩
      exact Nat.lt_of_lt_of_le (ih h member) (Nat.le_max_right _ _)
  intro member
  exact Nat.lt_irrefl _ (least _ member)

structure Arena (A : Type) where
  map : AList fun _ : Nat => A

namespace Arena

def get? (m : Arena A) (h : Nat) : Option A := m.map.lookup h

def add [Handles] (m : Arena A) (a : A) : Arena A × Nat :=
  (⟨m.map.insert (Handles.fresh m.map.keys) a⟩, Handles.fresh m.map.keys)

def put (m : Arena A) (h : Nat) (a : A) : Arena A := ⟨m.map.insert h a⟩

def remove (m : Arena A) (h : Nat) : Arena A := ⟨m.map.erase h⟩

def items (m : Arena A) : List (Nat × A) := m.map.entries.map fun e => (e.1, e.2)

def marks (m : Arena A) (mark : A → K) : List (Nat × K) :=
  m.items.map fun x => (x.1, mark x.2)

end Arena

variable {m : Arena A} {h h' : Nat} {a old : A} {mark : A → K}

theorem mem_items : (h, a) ∈ m.items ↔ m.get? h = some a := by
  rw [Arena.get?, ← Option.mem_def, AList.mem_lookup_iff]
  simp only [Arena.items, List.mem_map, Prod.mk.injEq]
  constructor
  · rintro ⟨⟨h', a'⟩, member, rfl, rfl⟩
    exact member
  · intro member
    exact ⟨_, member, rfl, rfl⟩

theorem mem_marks : (h, k) ∈ m.marks mark ↔ ∃ a, m.get? h = some a ∧ mark a = k := by
  simp only [Arena.marks, List.mem_map, Prod.mk.injEq, Prod.exists]
  constructor
  · rintro ⟨h', a, member, rfl, same⟩
    exact ⟨a, mem_items.mp member, same⟩
  · rintro ⟨a, got, same⟩
    exact ⟨h, a, mem_items.mpr got, rfl, same⟩

theorem get?_keys (got : m.get? h = some a) : h ∈ m.map.keys :=
  AList.mem_keys.mp (AList.lookup_isSome.mp (Option.isSome_of_eq_some got))

theorem put_items (got : m.get? h = some old) :
    ∃ rest, m.items.Perm ((h, old) :: rest) ∧
      (∀ new, (m.put h new).items.Perm ((h, new) :: rest)) ∧ (m.remove h).items.Perm rest := by
  obtain ⟨a, front, back, _, split, rest⟩ := List.exists_of_kerase (get?_keys got)
  have here : m.get? h = some a := by
    rw [Arena.get?, ← Option.mem_def, AList.mem_lookup_iff, split]
    exact List.mem_append_right _ List.mem_cons_self
  cases here.symm.trans got
  refine ⟨(front ++ back).map fun e => (e.1, e.2), ?_, fun new => ?_, ?_⟩
  · rw [Arena.items, split]
    exact List.perm_middle.map _
  · rw [Arena.items, Arena.put, AList.entries_insert, rest]
    exact .refl _
  · have removed : (m.remove h).map.entries = front ++ back := rest
    rw [Arena.items, removed]

theorem put_marks (got : m.get? h = some old) (same : mark new = mark old) :
    ((m.put h new).marks mark).Perm (m.marks mark) := by
  obtain ⟨rest, before, after, _⟩ := put_items got
  have first : ((m.put h new).marks mark).Perm
      ((h, mark new) :: rest.map fun x => (x.1, mark x.2)) := (after new).map _
  have second : (m.marks mark).Perm ((h, mark old) :: rest.map fun x => (x.1, mark x.2)) :=
    before.map _
  rw [same] at first
  exact first.trans second.symm

theorem remove_marks (got : m.get? h = some old) :
    (m.marks mark).Perm ((h, mark old) :: (m.remove h).marks mark) := by
  obtain ⟨rest, before, _, removed⟩ := put_items got
  exact (before.trans (removed.symm.cons _)).map fun x => (x.1, mark x.2)

theorem get?_put (m : Arena A) (h h' : Nat) (a : A) :
    (m.put h a).get? h' = if h = h' then some a else m.get? h' := by
  split
  · rename_i same
    subst same
    exact AList.lookup_insert _
  · rename_i other
    exact AList.lookup_insert_ne (Ne.symm other)

theorem get?_remove (other : h ≠ h') : (m.remove h).get? h' = m.get? h' :=
  AList.lookup_erase_ne other.symm

theorem items_nodup (m : Arena A) : (m.items.map Prod.fst).Nodup := by
  rw [Arena.items, List.map_map]
  exact m.map.nodupKeys

section Added
variable [Handles] (m : Arena A)

theorem add_items (a : A) : (m.add a).1.items.Perm (((m.add a).2, a) :: m.items) := by
  have new : Handles.fresh m.map.keys ∉ m.map := Handles.fresh_not_mem _
  simp only [Arena.add, Arena.items]
  rw [AList.entries_insert_of_notMem new]
  exact .refl _

theorem add_marks (mark : A → K) (a : A) :
    ((m.add a).1.marks mark).Perm (((m.add a).2, mark a) :: m.marks mark) :=
  (add_items m a).map _

theorem get?_added (a : A) : (m.add a).1.get? (m.add a).2 = some a := AList.lookup_insert _

variable {m}

theorem fresh_ne (got : m.get? h = some old) : Handles.fresh m.map.keys ≠ h := by
  intro same
  have used := get?_keys got
  rw [← same] at used
  exact Handles.fresh_not_mem _ used

theorem get?_add (got : m.get? h = some old) : (m.add a).1.get? h = some old :=
  (AList.lookup_insert_ne (fresh_ne got).symm).trans got

end Added

end TynKernel.Arenas
