import Mathlib.Algebra.Order.BigOperators.Group.Finset

/-!
Executions without an end. If every change of the state lowers a rank, and some party can
always make one, then a schedule that forgets nobody reaches the goal.
-/
namespace TynKernel.Turns
variable {S P I : Type}

structure Schedule (P I : Type) where
  turn : Nat → P
  input : Nat → I

def trace (step : S → P → I → S) (start : S) (x : Schedule P I) : Nat → S
  | 0 => start
  | k + 1 => step (trace step start x k) (x.turn k) (x.input k)

def Fair (party : P → Prop) (x : Schedule P I) : Prop :=
  ∀ p, party p → ∀ k, ∃ l, k ≤ l ∧ x.turn l = p

variable {step : S → P → I → S} {start : S} {x : Schedule P I} {n : Nat}

theorem trace_invariant (allowed : S → Prop) (Inv : S → Prop) (initial : Inv start)
    (preserved : ∀ s p i, Inv s → allowed s → Inv (step s p i)) :
    ∀ k, (∀ l, l < k → allowed (trace step start x l)) → Inv (trace step start x k) := by
  intro k
  induction k with
  | zero =>
    intro _
    exact initial
  | succ k ih =>
    intro early
    apply preserved
    · apply ih
      intro l less
      exact early l (by omega)
    · exact early k (by omega)

theorem trace_stays (Q : S → Prop) (kept : ∀ s p i, Q s → Q (step s p i))
    (now : Q (trace step start x k)) :
    ∀ l, k ≤ l → Q (trace step start x l) := by
  intro l later
  induction l, later using Nat.le_induction with
  | base => exact now
  | succ l _ ih => exact kept _ _ _ ih

theorem trace_rank (rank : S → Nat) (Inv : S → Prop) (holds : ∀ k, Inv (trace step start x k))
    (lowers : ∀ s p i, Inv s → step s p i = s ∨ rank (step s p i) < rank s) (k : Nat) :
    ∀ l, k ≤ l → trace step start x l = trace step start x k ∨
      rank (trace step start x l) < rank (trace step start x k) := by
  intro l later
  induction l, later using Nat.le_induction with
  | base => exact .inl rfl
  | succ l _ ih =>
    have last := lowers _ (x.turn l) (x.input l) (holds l)
    change trace step start x (l + 1) = _ ∨ rank (trace step start x (l + 1)) < _ at last
    rcases ih with same | less
    · rw [same] at last
      exact last
    right
    rcases last with same | lower
    · rw [same]
      exact less
    · omega

theorem fair_reaches (fair : Fair party x) (rank : S → Nat) (Inv Goal : S → Prop)
    (holds : ∀ k, Inv (trace step start x k))
    (lowers : ∀ s p i, Inv s → step s p i = s ∨ rank (step s p i) < rank s)
    (moves : ∀ s, Inv s → ¬ Goal s → ∃ p, party p ∧ ∀ i, rank (step s p i) < rank s) :
    ∃ k, Goal (trace step start x k) := by
  -- strong induction on the rank of the state at hand, over all times at once
  suffices within : ∀ r k, rank (trace step start x k) ≤ r → ∃ l, Goal (trace step start x l) from
    within _ 0 (Nat.le_refl _)
  intro r
  induction r with
  | zero =>
    intro k low
    by_contra never
    obtain ⟨p, _, moved⟩ := moves _ (holds k) (fun goal => never ⟨k, goal⟩)
    have impossible := moved (x.input k)
    omega
  | succ r ih =>
    intro k low
    by_contra never
    obtain ⟨p, member, moved⟩ := moves _ (holds k) (fun goal => never ⟨k, goal⟩)
    obtain ⟨l, later, turn⟩ := fair p member k
    have drop : rank (trace step start x (l + 1)) < rank (trace step start x k) := by
      rcases trace_rank rank Inv holds lowers k l later with same | less
      · have act := moved (x.input l)
        rw [← same, ← turn] at act
        rw [← same]
        exact act
      · rcases trace_rank rank Inv holds lowers l (l + 1) (Nat.le_succ l) with same | lower
        · rw [same]
          exact less
        · omega
    exact never (ih (l + 1) (by omega))

def circle (n : Nat) (input : Nat → I) (party : Nat → P) : Schedule P I where
  turn k := party (k % n)
  input := input

theorem circle_fair :
    Fair (fun p => ∃ r, r < n ∧ party r = p) (circle n input party) := by
  rintro p ⟨r, less, rfl⟩ k
  refine ⟨k * n + r, ?_, ?_⟩
  · have enough := Nat.le_mul_of_pos_right k (show 0 < n by omega)
    omega
  · change party ((k * n + r) % n) = party r
    rw [Nat.mul_add_mod_self_right, Nat.mod_eq_of_lt less]

theorem sum_rank_lt (rank : A → Nat) (f : Nat → A) (a : A) (less : i < n)
    (lower : rank a < rank (f i)) :
    ∑ j ∈ Finset.range n, rank (Function.update f i a j) < ∑ j ∈ Finset.range n, rank (f j) := by
  apply Finset.sum_lt_sum
  · intro j _
    by_cases same : j = i
    · rw [same, Function.update_self]
      exact Nat.le_of_lt lower
    · rw [Function.update_of_ne same]
  · exact ⟨i, Finset.mem_range.mpr less, by rw [Function.update_self]; exact lower⟩

end TynKernel.Turns
