import Mathlib.Logic.Function.Basic

/-!
Runs of a partial step function. A run keeps its history, latest step first, and with
every step the state it was taken in, so a property of a run may speak about all steps
between two events. The action carries every choice of the environment.
-/
namespace TynKernel.Runs
open List
variable {S A : Type}

inductive Run (step : S → A → Option S) (start : S) : List (S × A) → S → Prop where
  | nil : Run step start [] start
  | snoc {past : List (S × A)} {s s' : S} {a : A}
      (before : Run step start past s) (taken : step s a = some s') :
      Run step start ((s, a) :: past) s'

def exec (ok : S → A → Bool) (step : S → A → Option S) : S → List A → Option S
  | s, [] => some s
  | s, a :: rest => if ok s a then (step s a).bind fun s' => exec ok step s' rest else none

def Since (event broken : S → A → Prop) (past : List (S × A)) : Prop :=
  ∃ later e earlier, past = later ++ e :: earlier ∧ event e.1 e.2 ∧
    ∀ x ∈ later, ¬ broken x.1 x.2

variable {event broken : S → A → Prop} {a : A} {past p : List (S × A)} {step : S → A → Option S}
  {start final : S} {e : S × A} {ok : S → A → Bool} {acts : List A}

theorem since_here (now : event s a) : Since event broken ((s, a) :: past) :=
  ⟨[], (s, a), past, rfl, now, by simp⟩

theorem since_later (held : Since event broken past) (quiet : ¬ broken s a) :
    Since event broken ((s, a) :: past) := by
  obtain ⟨later, e, earlier, eq, ev, clean⟩ := held
  refine ⟨(s, a) :: later, e, earlier, by simp [eq], ev, ?_⟩
  intro x member
  rcases mem_cons.mp member with same | rest
  · subst same
    exact quiet
  · exact clean x rest

theorem run_append (first : Run step start p mid) (second : Run step mid q final) :
    Run step start (q ++ p) final := by
  induction second with
  | nil => exact first
  | snoc before taken ih => exact .snoc ih taken

theorem run_split (q : List (S × A)) (run : Run step start (q ++ p) final) :
    ∃ mid, Run step start p mid ∧ Run step mid q final := by
  induction q generalizing final with
  | nil => exact ⟨final, run, .nil⟩
  | cons e rest ih =>
    cases run with
    | snoc before taken =>
      obtain ⟨mid, first, second⟩ := ih before
      exact ⟨mid, first, .snoc second taken⟩

theorem run_at (run : Run step start (later ++ e :: earlier) final) :
    ∃ mid, Run step start earlier e.1 ∧ step e.1 e.2 = some mid ∧ Run step mid later final := by
  obtain ⟨mid, first, second⟩ := run_split later run
  cases first with
  | snoc before taken => exact ⟨mid, before, taken, second⟩

theorem run_reaches (run : Run step start past final) (member : e ∈ past) :
    ∃ earlier, Run step start earlier e.1 := by
  obtain ⟨later, earlier, eq⟩ := append_of_mem member
  subst eq
  obtain ⟨_, before, _⟩ := run_at run
  exact ⟨earlier, before⟩

theorem run_invariant_of (ok : S → A → Prop) (I : S → Prop) (initial : I start)
    (preserved : ∀ s a s', I s → ok s a → step s a = some s' → I s')
    (run : Run step start past final) (allowed : ∀ e ∈ past, ok e.1 e.2) : I final := by
  induction run with
  | nil => exact initial
  | snoc before taken ih =>
    have earlier := ih (fun e member => allowed e (mem_cons_of_mem _ member))
    exact preserved _ _ _ earlier (allowed _ mem_cons_self) taken

theorem run_invariant (I : S → Prop) (initial : I start)
    (preserved : ∀ s a s', I s → step s a = some s' → I s') (run : Run step start past final) :
    I final :=
  run_invariant_of (fun _ _ => True) I initial (fun s a s' h _ t => preserved s a s' h t) run
    (fun _ _ => trivial)

theorem run_since
    (ok : S → A → Prop) (I : S → Prop) (phase : S → Prop) (event broken : S → A → Prop)
    (initial : I start) (closed : ¬ phase start)
    (preserved : ∀ s a s', I s → ok s a → step s a = some s' → I s')
    (opened : ∀ s a s', I s → ok s a → step s a = some s' → phase s' →
      event s a ∨ (phase s ∧ ¬ broken s a))
    (run : Run step start past final) (allowed : ∀ e ∈ past, ok e.1 e.2)
    (inside : phase final) : Since event broken past := by
  induction run with
  | nil => exact absurd inside closed
  | @snoc past s s' a before taken ih =>
    have allowedBefore : ∀ e ∈ past, ok e.1 e.2 :=
      fun e member => allowed e (mem_cons_of_mem _ member)
    have holds := run_invariant_of ok I initial preserved before allowedBefore
    rcases opened _ _ _ holds (allowed _ mem_cons_self) taken inside with now | ⟨held, quiet⟩
    · exact since_here now
    · exact since_later (ih allowedBefore held) quiet

def Throughout (P : S → Prop) (past : List (S × A)) (final : S) : Prop :=
  P final ∧ ∀ e ∈ past, P e.1

theorem throughout_start (run : Run step start past final)
    (all : Throughout P past final) : P start := by
  induction run with
  | nil => exact all.1
  | snoc before taken ih =>
    exact ih ⟨all.2 _ mem_cons_self, fun e member => all.2 e (mem_cons_of_mem _ member)⟩

theorem run_throughout (ok : S → A → Prop) (I : S → Prop) (initial : I start)
    (preserved : ∀ s a s', I s → ok s a → step s a = some s' → I s')
    (run : Run step start past final) (allowed : ∀ e ∈ past, ok e.1 e.2) :
    Throughout I past final := by
  refine ⟨run_invariant_of ok I initial preserved run allowed, ?_⟩
  intro e member
  obtain ⟨later, earlier, eq⟩ := append_of_mem member
  subst eq
  obtain ⟨_, before, _⟩ := run_at run
  refine run_invariant_of ok I initial preserved before ?_
  intro x hx
  exact allowed x (mem_append_right _ (mem_cons_of_mem _ hx))

/-- A property that holds as long as a stronger invariant does, where the first step that
    breaks the invariant is seen to break the property. -/
theorem throughout_iff_first (ok : S → A → Prop) (I P : S → Prop) (breach : S → A → Prop)
    (initial : I start) (holds : ∀ s, I s → P s)
    (kept : ∀ s a s', I s → ok s a → ¬ breach s a → step s a = some s' → I s')
    (lost : ∀ s a s', I s → ok s a → breach s a → step s a = some s' → ¬ P s')
    (run : Run step start past final) (allowed : ∀ e ∈ past, ok e.1 e.2) :
    Throughout P past final ↔ ∀ e ∈ past, ¬ breach e.1 e.2 := by
  have clean : ∀ {past : List (S × A)} {final : S}, Run step start past final →
      (∀ e ∈ past, ok e.1 e.2) → (∀ e ∈ past, ¬ breach e.1 e.2) → Throughout I past final := by
    intro past final run allowed quiet
    exact run_throughout (fun s a => ok s a ∧ ¬ breach s a) I initial
      (fun s a s' inv fine taken => kept s a s' inv fine.1 fine.2 taken) run
      (fun e member => ⟨allowed e member, quiet e member⟩)
  constructor
  · intro all
    induction run with
    | nil => simp
    | @snoc past s s' a before taken ih =>
      have allowedBefore : ∀ e ∈ past, ok e.1 e.2 :=
        fun e member => allowed e (mem_cons_of_mem _ member)
      have quiet := ih allowedBefore
        ⟨all.2 (s, a) mem_cons_self, fun e member => all.2 e (mem_cons_of_mem _ member)⟩
      have inv := (clean before allowedBefore quiet).1
      intro e member
      rcases mem_cons.mp member with same | rest
      · subst same
        intro bad
        exact lost _ _ _ inv (allowed _ mem_cons_self) bad taken all.1
      · exact quiet e rest
  · intro quiet
    have inv := clean run allowed quiet
    exact ⟨holds _ inv.1, fun e member => holds _ (inv.2 e member)⟩

/-- A property that a step loses exactly if the step is a breach, in runs whose steps all meet a
    condition. -/
theorem throughout_iff_of (ok : S → A → Prop) (I P : S → Prop) (breach : S → A → Prop)
    (initial : I start) (begins : P start)
    (preserved : ∀ s a s', I s → ok s a → step s a = some s' → I s')
    (kept : ∀ s a s', I s → P s → ok s a → ¬ breach s a → step s a = some s' → P s')
    (lost : ∀ s a s', I s → P s → ok s a → breach s a → step s a = some s' → ¬ P s')
    (run : Run step start past final) (allowed : ∀ e ∈ past, ok e.1 e.2) :
    Throughout P past final ↔ ∀ e ∈ past, ¬ breach e.1 e.2 := by
  induction run with
  | nil => exact ⟨fun _ e member => absurd member not_mem_nil, fun _ => ⟨begins, by simp⟩⟩
  | @snoc past s s' a before taken ih =>
    have allowedBefore : ∀ e ∈ past, ok e.1 e.2 :=
      fun e member => allowed e (mem_cons_of_mem _ member)
    have holds := run_invariant_of ok I initial preserved before allowedBefore
    have here := allowed (s, a) mem_cons_self
    constructor
    · rintro ⟨last, all⟩
      have now := all (s, a) mem_cons_self
      have earlier := (ih allowedBefore).mp
        ⟨now, fun e member => all e (mem_cons_of_mem _ member)⟩
      intro e member
      rcases mem_cons.mp member with same | rest
      · subst same
        intro bad
        exact lost _ _ _ holds now here bad taken last
      · exact earlier e rest
    · intro all
      obtain ⟨now, earlier⟩ :=
        (ih allowedBefore).mpr fun e member => all e (mem_cons_of_mem _ member)
      refine ⟨kept _ _ _ holds now here (all _ mem_cons_self) taken, ?_⟩
      intro e member
      rcases mem_cons.mp member with same | rest
      · subst same
        exact now
      · exact earlier e rest

theorem throughout_iff (I P : S → Prop) (breach : S → A → Prop) (initial : I start)
    (begins : P start) (preserved : ∀ s a s', I s → step s a = some s' → I s')
    (kept : ∀ s a s', I s → P s → ¬ breach s a → step s a = some s' → P s')
    (lost : ∀ s a s', I s → P s → breach s a → step s a = some s' → ¬ P s')
    (run : Run step start past final) :
    Throughout P past final ↔ ∀ e ∈ past, ¬ breach e.1 e.2 :=
  throughout_iff_of (fun _ _ => True) I P breach initial begins
    (fun s a s' h _ t => preserved s a s' h t) (fun s a s' h p _ b t => kept s a s' h p b t)
    (fun s a s' h p _ b t => lost s a s' h p b t) run (fun _ _ => trivial)

theorem exec_extends (before : Run step start past s)
    (tested : ∀ e ∈ past, ok e.1 e.2 = true) (done : exec ok step s acts = some final) :
    ∃ past', Run step start past' final ∧ ∀ e ∈ past', ok e.1 e.2 = true := by
  induction acts generalizing s past with
  | nil =>
    simp only [exec, Option.some.injEq] at done
    subst done
    exact ⟨past, before, tested⟩
  | cons a rest ih =>
    simp only [exec] at done
    split at done
    · rename_i test
      obtain ⟨mid, taken, tail⟩ := Option.bind_eq_some_iff.mp done
      refine ih (.snoc before taken) ?_ tail
      intro e member
      rcases mem_cons.mp member with same | rest
      · subst same
        exact test
      · exact tested e rest
    · cases done

/-- A concrete run from its actions, with a test on its last state. -/
theorem run_of_exec (ok : S → A → Bool) (step : S → A → Option S) (start : S) (acts : List A)
    (P : S → Bool) (done : (exec ok step start acts).any P = true) :
    ∃ past final, Run step start past final ∧ (∀ e ∈ past, ok e.1 e.2 = true) ∧
      P final = true := by
  cases result : exec ok step start acts with
  | none =>
    rw [result] at done
    cases done
  | some final =>
    rw [result] at done
    obtain ⟨past, run, tested⟩ := exec_extends .nil (by simp) result
    exact ⟨past, final, run, tested, done⟩

theorem run_on (before : Run step start past w)
    (done : (step w a).any (fun mid => (exec ok step mid acts).any Q) = true) :
    ∃ later final, Run step start (later ++ (w, a) :: past) final ∧
      (∀ e ∈ later, ok e.1 e.2 = true) ∧ Q final = true := by
  obtain ⟨mid, taken, tail⟩ := (Option.any_eq_true _ _).mp done
  obtain ⟨later, final, after, tested, last⟩ := run_of_exec ok step mid acts Q tail
  exact ⟨later, final, run_append (.snoc before taken) after, tested, last⟩

/-- A concrete run with a test on the state before one of its steps and on its last state. -/
theorem run_through (ok ok' : S → A → Bool) (step : S → A → Option S) (start : S) (first : List A)
    (a : A) (second : List A) (P Q : S → Bool)
    (done : (exec ok step start first).any (fun w =>
      P w && (step w a).any fun mid => (exec ok' step mid second).any Q) = true) :
    ∃ later w earlier final, Run step start (later ++ (w, a) :: earlier) final ∧ P w = true ∧
      (∀ e ∈ earlier, ok e.1 e.2 = true) ∧ (∀ e ∈ later, ok' e.1 e.2 = true) ∧ Q final = true := by
  obtain ⟨earlier, w, before, tested, holds⟩ := run_of_exec ok step start first _ done
  simp only [Bool.and_eq_true] at holds
  obtain ⟨here, rest⟩ := holds
  obtain ⟨later, final, run, tested', last⟩ := run_on before rest
  exact ⟨later, w, earlier, final, run, here, tested, tested', last⟩

def gained (f : S → Int) (pick : A → Bool) : List (S × A) → S → Int
  | [], _ => 0
  | (s, a) :: earlier, s' => gained f pick earlier s + if pick a then f s' - f s else 0

theorem gained_split (f : S → Int) (pick : A → Bool) (run : Run step start past final) :
    gained f pick past final + gained f (fun a => !pick a) past final = f final - f start := by
  induction run with
  | nil => simp [gained]
  | @snoc past s s' a =>
    cases picked : pick a with
    | true =>
      simp only [gained, picked, if_true, Bool.not_true, Bool.false_eq_true, if_false]
      omega
    | false =>
      simp only [gained, picked, if_true, Bool.not_false, Bool.false_eq_true, if_false]
      omega

end TynKernel.Runs
