import Mathlib.Logic.Function.Basic

/-!
Locks that one context may take and another may release. A held lock has an owner: an agent
inside its section, or a slot in which an agent left it for whoever runs there next.
-/
namespace TynKernel.Ownership
open Function

section
variable {O B : Type} [DecidableEq O] [DecidableEq B] {held : B → Bool} {owns : O → Option B}

structure Exact (held : B → Bool) (owns : O → Option B) : Prop where
  held_iff : ∀ b, held b = true ↔ ∃ o, owns o = some b
  unique : ∀ o o' b, owns o = some b → owns o' = some b → o = o'

theorem exact_acquire (all : Exact held owns) (idle : owns o = none) (free : held b = false) :
    Exact (update held b true) (update owns o (some b)) := by
  have noOwner : ∀ o', owns o' ≠ some b := by
    intro o' own
    rw [(all.held_iff b).mpr ⟨o', own⟩] at free
    cases free
  constructor
  · intro e
    by_cases same : e = b
    · subst same
      simp only [update_self, true_iff]
      exact ⟨o, update_self _ _ _⟩
    rw [update_of_ne same, all.held_iff e]
    constructor
    · rintro ⟨o', own⟩
      refine ⟨o', ?_⟩
      rw [update_of_ne]
      · exact own
      · intro eq
        rw [eq, idle] at own
        cases own
    · rintro ⟨o', own⟩
      rw [update_apply] at own
      split at own
      · exact absurd (Option.some.inj own).symm same
      · exact ⟨o', own⟩
  · intro p q e hp hq
    simp only [update_apply] at hp hq
    split at hp <;> split at hq
    · rename_i eqp eqq
      rw [eqp, eqq]
    · cases hp
      exact absurd hq (noOwner q)
    · cases hq
      exact absurd hp (noOwner p)
    · exact all.unique p q e hp hq

theorem exact_release (all : Exact held owns) (own : owns o = some b) :
    Exact (update held b false) (update owns o none) := by
  constructor
  · intro e
    constructor
    · intro h
      have other : e ≠ b := by
        intro same
        rw [same, update_self] at h
        cases h
      rw [update_of_ne other] at h
      obtain ⟨o', own'⟩ := (all.held_iff e).mp h
      refine ⟨o', ?_⟩
      rw [update_of_ne]
      · exact own'
      · intro eq
        rw [eq, own] at own'
        exact other (Option.some.inj own').symm
    · rintro ⟨o', own'⟩
      rw [update_apply] at own'
      split at own'
      · cases own'
      rename_i different
      rw [update_of_ne]
      · exact (all.held_iff e).mpr ⟨o', own'⟩
      · intro same
        rw [same] at own'
        exact different (all.unique o' o b own' own)
  · intro p q e hp hq
    rw [update_apply] at hp hq
    split at hp
    · cases hp
    · split at hq
      · cases hq
      · exact all.unique p q e hp hq

theorem exact_transfer (o p : O) (all : Exact held owns) (own : owns o = some b)
    (idle : owns p = none) :
    Exact held (update (update owns o none) p (some b)) := by
  have released := exact_release all own
  have empty : update owns o none p = none := by
    rw [update_apply]
    split
    · rfl
    · exact idle
  have again := exact_acquire released empty (update_self b false held)
  have same : update (update held b false) b true = held := by
    rw [update_idem, ← (all.held_iff b).mpr ⟨o, own⟩, update_eq_self]
  rwa [same] at again

end

inductive Owner (C : Type) where
  | sect (c : C)
  | slot (c : C)
  deriving DecidableEq

variable {C B : Type}

def owns (sect slot : C → Option B) : Owner C → Option B
  | .sect c => sect c
  | .slot c => slot c

theorem owns_update_sect [DecidableEq C] (sect slot : C → Option B) (c : C) (x : Option B) :
    owns (update sect c x) slot = update (owns sect slot) (.sect c) x := by
  funext o
  cases o with
  | sect => simp [owns, update_apply]
  | slot => simp [owns]

theorem owns_update_slot [DecidableEq C] (sect slot : C → Option B) (c : C) (x : Option B) :
    owns sect (update slot c x) = update (owns sect slot) (.slot c) x := by
  funext o
  cases o with
  | sect => simp [owns]
  | slot => simp [owns, update_apply]

variable [DecidableEq C] [DecidableEq B] {held held' : B → Bool} {sect slot slot' : C → Option B}
  {c : C} {x x' : Option B}

/-- What one step of agent c may do, from section x: nothing, take a free lock, release its
    own, leave it in its empty slot, or take it out of its slot. -/
inductive Change (held : B → Bool) (slot : C → Option B) (c : C) :
    Option B → (B → Bool) → (C → Option B) → Option B → Prop where
  | keep (x : Option B) : Change held slot c x held slot x
  | acquire (b : B) (free : held b = false) :
      Change held slot c none (Function.update held b true) slot (some b)
  | release (b : B) : Change held slot c (some b) (Function.update held b false) slot none
  | handoff (b : B) (empty : slot c = none) :
      Change held slot c (some b) held (Function.update slot c (some b)) none
  | take (b : B) (left : slot c = some b) :
      Change held slot c none held (Function.update slot c none) (some b)

theorem exact_change (all : Exact held (owns sect slot)) (here : sect c = x)
    (change : Change held slot c x held' slot' x') :
    Exact held' (owns (update sect c x') slot') := by
  cases change with
  | keep => rwa [← here, update_eq_self]
  | acquire b free =>
    rw [owns_update_sect]
    exact exact_acquire all here free
  | release =>
    rw [owns_update_sect]
    exact exact_release all here
  | handoff b empty =>
    rw [owns_update_slot, owns_update_sect]
    exact exact_transfer (Owner.sect c) (Owner.slot c) all here empty
  | take b left =>
    rw [owns_update_sect, owns_update_slot]
    exact exact_transfer (Owner.slot c) (Owner.sect c) all left here

end TynKernel.Ownership
