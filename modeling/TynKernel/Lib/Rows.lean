import Mathlib.Data.List.Perm.Basic

/-!
Rows of cells. A table of fixed size is a row of cells, each of which holds some entries, often
none or one. An entry is put into the first cell that passes a test, by writing that cell.
-/
namespace TynKernel.Rows
variable {α β : Type}

structure Row (n : Nat) (α : Type) where
  cells : List α
  size : cells.length = n

variable {a new old y : α} {g : α → α} {f : α → Nat → List β} {e : β} {before after : List α}

namespace Row
variable {n : Nat}

def replicate (n : Nat) (a : α) : Row n α := ⟨List.replicate n a, List.length_replicate⟩

def set (row : Row n α) (i : Nat) (a : α) : Row n α :=
  ⟨row.cells.set i a, by rw [List.length_set, row.size]⟩

def map (row : Row n α) (g : α → β) : Row n β :=
  ⟨row.cells.map g, by rw [List.length_map, row.size]⟩

theorem forall_set {P : Nat → α → Prop} {row : Row n α} {i : Nat}
    (all : ∀ j b, row.cells[j]? = some b → P j b) (new : P i a) :
    ∀ j b, (row.set i a).cells[j]? = some b → P j b := by
  intro j b get
  simp only [Row.set, List.getElem?_set] at get
  split at get
  · rename_i same
    split at get
    · cases get
      exact same ▸ new
    · cases get
  · exact all j b get

end Row

section
variable {p : α → Bool} {cells : List α} {i k : Nat}

theorem findIdx_iff : cells.findIdx? p = some i ↔
    ∃ a, cells[i]? = some a ∧ p a = true ∧ ∀ j b, j < i → cells[j]? = some b → p b = false := by
  rw [List.findIdx?_eq_some_iff_getElem]
  constructor
  · rintro ⟨bound, test, earlier⟩
    refine ⟨cells[i], List.getElem?_eq_getElem bound, test, ?_⟩
    intro j b less get
    rw [List.getElem?_eq_getElem (Nat.lt_trans less bound), Option.some.injEq] at get
    rw [← get]
    exact Bool.not_eq_true _ ▸ earlier j less
  · rintro ⟨a, get, test, earlier⟩
    obtain ⟨bound, same⟩ := List.getElem?_eq_some_iff.mp get
    refine ⟨bound, by rw [same, test], ?_⟩
    intro j less
    have fails := earlier j _ less (List.getElem?_eq_getElem (Nat.lt_trans less bound))
    rw [fails]
    exact Bool.false_ne_true

theorem findIdx_write_other (found : cells.findIdx? p = some k) (other : i ≠ k)
    (fails : p new = false) : (cells.set i new).findIdx? p = some k := by
  obtain ⟨a, get, test, earlier⟩ := findIdx_iff.mp found
  refine findIdx_iff.mpr ⟨a, (List.getElem?_set_ne other).trans get, test, ?_⟩
  intro j b less here
  rw [List.getElem?_set] at here
  split at here
  · split at here
    · cases here
      exact fails
    · cases here
  · exact earlier j b less here

theorem findIdx_write_here (here : cells[i]? = some old) (passes : p new = true)
    (earlier : ∀ j b, j < i → cells[j]? = some b → p b = false) :
    (cells.set i new).findIdx? p = some i := by
  have bound := (List.getElem?_eq_some_iff.mp here).1
  refine findIdx_iff.mpr ⟨new, List.getElem?_set_self bound, passes, ?_⟩
  intro j b less get
  rw [List.getElem?_set_ne (Nat.ne_of_gt less)] at get
  exact earlier j b less get

theorem findIdx_write_same (here : cells[i]? = some old) (same : p new = p old) :
    (cells.set i new).findIdx? p = cells.findIdx? p := by
  have tests : (cells.set i new).map p = cells.map p := by
    apply List.ext_getElem?
    intro j
    rw [List.map_set, List.getElem?_set, List.getElem?_map]
    split
    · rename_i at_j
      subst at_j
      have inside : i < cells.length := (List.getElem?_eq_some_iff.mp here).1
      rw [List.length_map, if_pos inside, here, same]
      rfl
    · rfl
  have lookup : ∀ l : List α, l.findIdx? p = (l.map p).findIdx? id := by
    intro l
    rw [List.findIdx?_map]
    rfl
  rw [lookup, tests, ← lookup]

theorem findIdx_map (same : ∀ a, p (g a) = p a) :
    (cells.map g).findIdx? p = cells.findIdx? p := by
  have tests : p ∘ g = p := funext same
  rw [List.findIdx?_map, tests]

end

def entries (f : α → Nat → List β) (cells : List α) : List β :=
  cells.zipIdx.flatMap fun x => f x.1 x.2

theorem mem_entries :
    e ∈ entries f cells ↔ ∃ i a, cells[i]? = some a ∧ e ∈ f a i := by
  simp only [entries, List.mem_flatMap, Prod.exists, List.mem_zipIdx_iff_getElem?]
  constructor
  · rintro ⟨a, i, get, member⟩
    exact ⟨i, a, get, member⟩
  · rintro ⟨i, a, get, member⟩
    exact ⟨a, i, get, member⟩

theorem entries_replicate (n : Nat) (none : ∀ i, f a i = []) :
    entries f (List.replicate n a) = [] := by
  rw [List.eq_nil_iff_forall_not_mem]
  intro e member
  obtain ⟨i, b, get, inside⟩ := mem_entries.mp member
  rw [List.eq_of_mem_replicate (List.mem_of_getElem? get), none i] at inside
  cases inside

theorem entries_write (f : α → Nat → List β) (get : cells[i]? = some old) :
    ∃ rest, (entries f cells).Perm (f old i ++ rest) ∧
      ∀ new, (entries f (cells.set i new)).Perm (f new i ++ rest) := by
  obtain ⟨bound, here⟩ := List.getElem?_eq_some_iff.mp get
  have split : cells = cells.take i ++ old :: cells.drop (i + 1) := by
    rw [← here, List.getElem_cons_drop, List.take_append_drop]
  have length : (cells.take i).length = i := List.length_take_of_le (Nat.le_of_lt bound)
  generalize cells.take i = before at split length
  generalize cells.drop (i + 1) = after at split
  subst split length
  have around : ∀ a, entries f (before ++ a :: after) =
      entries f before ++ (f a before.length ++
        (after.zipIdx (before.length + 1)).flatMap fun x => f x.1 x.2) := by
    simp [entries, List.zipIdx_append]
  refine ⟨entries f before ++ (after.zipIdx (before.length + 1)).flatMap fun x => f x.1 x.2, ?_, ?_⟩
  · rw [around]
    exact List.perm_append_comm_assoc ..
  · intro new
    rw [List.set_append_right _ _ (Nat.le_refl _), Nat.sub_self, List.set_cons_zero, around]
    exact List.perm_append_comm_assoc ..

theorem entries_set (f : α → Nat → List β) (found : cells.findIdx? p = some i) :
    ∃ old rest, p old = true ∧ cells[i]? = some old ∧ (entries f cells).Perm (f old i ++ rest) ∧
      ∀ new, (entries f (cells.set i new)).Perm (f new i ++ rest) := by
  obtain ⟨bound, test, _⟩ := List.findIdx?_eq_some_iff_getElem.mp found
  have get : cells[i]? = some cells[i] := List.getElem?_eq_getElem bound
  obtain ⟨rest, before, after⟩ := entries_write f get
  exact ⟨cells[i], rest, test, get, before, after⟩

theorem entries_absent (absent : cells.findIdx? p = none) (test : ∀ a i, e ∈ f a i → p a = true) :
    e ∉ entries f cells := by
  intro member
  obtain ⟨i, a, get, inside⟩ := mem_entries.mp member
  have fails := List.findIdx?_eq_none_iff.mp absent a (List.mem_of_getElem? get)
  rw [test a i inside] at fails
  cases fails

theorem entries_map (cells : List α) (each : ∀ a i, f (g a) i = (f a i).filter q) :
    entries f (cells.map g) = (entries f cells).filter q := by
  unfold entries
  rw [List.zipIdx_map, List.flatMap_map, List.filter_flatMap]
  exact List.flatMap_congr fun x _ => each x.1 x.2

theorem set_exchange {cells : List α} {i : Nat} {x : α} (here : cells[i]? = some x) :
    ∃ rest, cells.Perm (x :: rest) ∧ ∀ y, (cells.set i y).Perm (y :: rest) := by
  obtain ⟨bound, same⟩ := List.getElem?_eq_some_iff.mp here
  subst same
  exact ⟨cells.eraseIdx i, (List.getElem_cons_eraseIdx_perm bound).symm,
    fun y => List.set_perm_cons_eraseIdx bound y⟩

theorem mem_removed (member : x ∈ before ++ y :: after) (other : x ≠ y) :
    x ∈ before ++ after := by
  rcases List.mem_append.mp member with early | late
  · exact List.mem_append_left _ early
  · exact List.mem_append_right _ (List.mem_of_ne_of_mem other late)

theorem mem_replaced (member : x ∈ before ++ y :: after) (other : x ≠ y) (y' : α) :
    x ∈ before ++ y' :: after :=
  List.Sublist.mem (mem_removed member other)
    ((List.Sublist.refl before).append (List.sublist_cons_self y' after))

def focus (p : α → Bool) : List α → Option (List α × α × List α)
  | [] => none
  | x :: rest =>
    if p x then some ([], x, rest)
    else (focus p rest).map fun found => (x :: found.1, found.2)

theorem focus_some (found : focus p cells = some (before, x, after)) :
    cells = before ++ x :: after ∧ p x = true ∧ ∀ y ∈ before, ¬ p y = true := by
  induction cells generalizing before with
  | nil => cases found
  | cons y rest ih =>
    rw [focus] at found
    split at found
    · rename_i test
      cases found
      exact ⟨rfl, test, by simp⟩
    rename_i fails
    obtain ⟨⟨before', x', after'⟩, inner, same⟩ := Option.map_eq_some_iff.mp found
    cases same
    obtain ⟨split, test, others⟩ := ih inner
    refine ⟨by rw [split, List.cons_append], test, ?_⟩
    intro z member
    rcases List.mem_cons.mp member with here | there
    · rw [here]
      exact fails
    · exact others z there

theorem focus_find (p : α → Bool) (cells : List α) :
    (focus p cells).map (fun found => found.2.1) = cells.find? p := by
  induction cells with
  | nil => rfl
  | cons x rest ih =>
    rw [focus, List.find?_cons]
    split
    · rename_i test
      rw [test]
      rfl
    · rename_i fails
      rw [Bool.eq_false_iff.mpr fails, ← ih, Option.map_map]
      rfl

theorem focus_append (test : p x = true) (others : ∀ y ∈ before, ¬ p y = true) :
    focus p (before ++ x :: after) = some (before, x, after) := by
  induction before with
  | nil => rw [List.nil_append, focus, if_pos test]
  | cons y rest ih =>
    rw [List.forall_mem_cons] at others
    rw [List.cons_append, focus, if_neg others.1, ih others.2]
    rfl

def swapRemove (l : List α) (i : Nat) : List α :=
  match l.getLast? with
  | none => []
  | some last => (l.set i last).dropLast

theorem swapRemove_perm {l : List α} (get : l[i]? = some a) :
    l.Perm (a :: swapRemove l i) := by
  obtain ⟨bound, here⟩ := List.getElem?_eq_some_iff.mp get
  rcases List.eq_nil_or_concat l with empty | ⟨front, last, split⟩
  · rw [empty] at bound
    exact absurd bound (Nat.not_lt_zero i)
  subst split
  unfold swapRemove
  rw [List.concat_eq_append, List.getLast?_concat]
  simp only
  rw [List.length_concat] at bound
  by_cases inside : i < front.length
  · rw [List.set_append_left _ _ inside, List.dropLast_concat]
    have value : front[i] = a := by
      rw [← here]
      simp [List.getElem_append_left inside]
    have moved := List.set_perm_cons_eraseIdx inside last
    have whole := List.getElem_cons_eraseIdx_perm inside
    rw [value] at whole
    have first : (front ++ [last]).Perm (last :: a :: front.eraseIdx i) :=
      List.perm_append_comm.trans (whole.symm.cons last)
    exact first.trans ((List.Perm.swap ..).trans (moved.symm.cons a))
  · have atEnd : i = front.length := by omega
    subst atEnd
    rw [List.set_append_right _ _ (Nat.le_refl _), Nat.sub_self, List.set_cons_zero,
      List.dropLast_concat]
    have value : last = a := by
      rw [← here]
      simp
    rw [value]
    exact List.perm_append_comm

end TynKernel.Rows
