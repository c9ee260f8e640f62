import Mathlib.Algebra.Group.Nat.Defs
import Mathlib.Data.List.Nodup
import TynKernel.Lib.Runs

/-!
The one timer descriptor. Its deadline is a word that settime stores and that a read clears
once the clock has passed it. timerfd_consume loads the word, reads the clock and stores zero,
and other CPUs run in between. The fields arm and reports record which settime the word comes
from and which of them reads have reported.
-/
namespace TynKernel.Time.Timerfd
open Runs

def saturating (n : Nat) : Nat := if n < 2 ^ 64 then n else 2 ^ 64 - 1

def tfdTimerAbstime : BitVec 32 := 1

/-- What sys_timerfd_settime stores: zero for a null pointer or a zero value, else the
    absolute time or the time that far from now. -/
def newDeadline (value : Option (Nat × Nat)) (flags : BitVec 32) (now : Nat) : Nat :=
  match value with
  | none => 0
  | some (sec, nsec) =>
    if sec = 0 ∧ nsec = 0 then 0
    else
      let durNs := saturating (saturating (sec * 1000000000) + nsec)
      if flags &&& tfdTimerAbstime ≠ 0 then durNs else saturating (now + durNs)

/-- Where a CPU stands: outside the calls with the last result, before the store of settime,
    in timerfd_ready or timerfd_consume behind the load, before the store of zero. -/
inductive Place where
  | user (rax : Nat)
  | arming (deadline : Nat)
  | asking (deadline : Nat)
  | loaded (deadline arm : Nat)
  | due (deadline arm now : Nat)
  deriving DecidableEq, Repr

structure State where
  deadline : Nat
  arm : Nat
  reports : List Nat
  clock : Nat
  place : Nat → Place

def initial : State := ⟨0, 0, [], 0, fun _ => .user 0⟩

inductive Action where
  | settime (c : Nat) (value : Option (Nat × Nat)) (flags : BitVec 32) (now : Nat)
  | ready (c : Nat)
  | consume (c : Nat)
  | resume (c now : Nat)

def State.goto (s : State) (c : Nat) (place : Place) : State :=
  { s with place := Function.update s.place c place }

def resume (s : State) (c : Nat) : Option State :=
  match s.place c with
  | .user _ => none
  | .arming deadline => some ({ s with deadline, arm := s.arm + 1 }.goto c (.user 0))
  | .asking deadline => some (s.goto c (.user (if deadline ≠ 0 ∧ deadline ≤ s.clock then 1 else 0)))
  | .loaded deadline arm =>
    if deadline ≠ 0 ∧ deadline ≤ s.clock then some (s.goto c (.due deadline arm s.clock))
    else some (s.goto c (.user 0))
  | .due _ arm _ => some ({ s with deadline := 0, reports := arm :: s.reports }.goto c (.user 1))

def step (s : State) : Action → Option State
  | .settime c value flags now =>
    match s.place c with
    | .user _ =>
      if s.clock ≤ now then
        some ({ s with clock := now }.goto c (.arming (newDeadline value flags now)))
      else none
    | _ => none
  | .ready c =>
    match s.place c with
    | .user _ => some (s.goto c (.asking s.deadline))
    | _ => none
  | .consume c =>
    match s.place c with
    | .user _ => some (s.goto c (.loaded s.deadline s.arm))
    | _ => none
  | .resume c now => if s.clock ≤ now then resume { s with clock := now } c else none

/-- A deadline that leaves the word is replaced by settime, or cleared by a read whose clock
    had passed this deadline. -/
def Keeps (s : State) (a : Action) : Prop :=
  ∀ s', step s a = some s' → s.deadline ≠ 0 → s'.deadline ≠ s.deadline →
    ∃ c now, a = .resume c now ∧ ((∃ d, s.place c = .arming d) ∨
      ∃ d arm read, s.place c = .due d arm read ∧ s.deadline ≤ read)

/-- The store of zero comes too late: since the load, settime has stored a deadline that the
    clock had not reached, or another read has reported what this one loaded. -/
def Late (s : State) : Action → Prop
  | .resume c _ =>
    match s.place c with
    | .due _ arm read => s.arm ≠ arm ∧ read < s.deadline ∨ arm ∈ s.reports
    | _ => False
  | _ => False

instance (s : State) : (a : Action) → Decidable (Late s a)
  | .resume c _ => by
    unfold Late
    simp only
    cases s.place c <;> infer_instance
  | .settime .. | .ready _ | .consume _ => inferInstanceAs (Decidable False)

inductive Outcome (s : State) : Action → State → Prop where
  | enter {c : Nat} {value : Option (Nat × Nat)} {flags : BitVec 32} {now : Nat} (d : Nat) :
      Outcome s (.settime c value flags now) ({ s with clock := now }.goto c (.arming d))
  | ready {c : Nat} : Outcome s (.ready c) (s.goto c (.asking s.deadline))
  | load {c : Nat} : Outcome s (.consume c) (s.goto c (.loaded s.deadline s.arm))
  | arm {c now d : Nat} (here : s.place c = .arming d) :
      Outcome s (.resume c now)
        ({ s with clock := now, deadline := d, arm := s.arm + 1 }.goto c (.user 0))
  | back {c now : Nat} (rax : Nat)
      (other : ∀ d arm read, s.place c ≠ .due d arm read) :
      Outcome s (.resume c now) ({ s with clock := now }.goto c (.user rax))
  | fire {c now d arm : Nat} (here : s.place c = .loaded d arm) (armed : d ≠ 0) (past : d ≤ now) :
      Outcome s (.resume c now) ({ s with clock := now }.goto c (.due d arm now))
  | clear {c now d arm read : Nat} (here : s.place c = .due d arm read) :
      Outcome s (.resume c now)
        ({ s with clock := now, deadline := 0, reports := arm :: s.reports }.goto c (.user 1))

variable {s s' : State} {a : Action} {past : List (State × Action)}

theorem step_outcome (taken : step s a = some s') : Outcome s a s' := by
  cases a with
  | settime =>
    simp only [step] at taken
    split at taken
    · split at taken
      · cases taken
        exact .enter _
      · cases taken
    · cases taken
  | ready =>
    simp only [step] at taken
    split at taken
    · cases taken
      exact .ready
    · cases taken
  | consume =>
    simp only [step] at taken
    split at taken
    · cases taken
      exact .load
    · cases taken
  | resume c now =>
    simp only [step, resume] at taken
    split at taken
    · cases here : s.place c with
      | user =>
        rw [here] at taken
        cases taken
      | arming =>
        rw [here] at taken
        cases taken
        exact .arm here
      | asking =>
        rw [here] at taken
        cases taken
        exact .back _ (by simp [here])
      | loaded d =>
        rw [here] at taken
        simp only at taken
        by_cases fires : d ≠ 0 ∧ d ≤ now
        · rw [if_pos fires] at taken
          cases taken
          exact .fire here fires.1 fires.2
        · rw [if_neg fires] at taken
          cases taken
          exact .back _ (by simp [here])
      | due =>
        rw [here] at taken
        cases taken
        exact .clear here
    · cases taken

def Known (s : State) (d arm : Nat) : Prop :=
  arm ≤ s.arm ∧ (arm = s.arm → s.deadline = d ∨ s.deadline = 0)

def Place.Holds (s : State) : Place → Prop
  | .loaded d arm => Known s d arm
  | .due d arm read => Known s d arm ∧ d ≤ read
  | _ => True

def Sound (s : State) : Prop := ∀ c, (s.place c).Holds s

theorem sound_goto (sound : Sound s) (s' : State)
    (grows : ∀ d arm, Known s d arm → Known s' d arm) (places : s'.place = s.place)
    (own : place.Holds s') : Sound (s'.goto c place) := by
  intro c'
  by_cases same : c' = c
  · rw [same]
    simp only [State.goto, Function.update_self]
    exact own
  simp only [State.goto, Function.update_of_ne same, places]
  have held := sound c'
  cases here : s.place c' with
  | user rax | arming d | asking d => trivial
  | loaded d arm =>
    rw [here] at held
    exact grows d arm held
  | due d arm =>
    rw [here] at held
    exact ⟨grows d arm held.1, held.2⟩

theorem sound_step (sound : Sound s) (taken : step s a = some s') : Sound s' := by
  cases step_outcome taken with
  | enter d | ready | back rax other =>
    exact sound_goto sound _ (fun _ _ known => known) rfl trivial
  | load =>
    exact sound_goto sound s (fun _ _ known => known) rfl ⟨Nat.le_refl _, fun _ => .inl rfl⟩
  | arm =>
    refine sound_goto sound _ ?_ rfl trivial
    rintro d arm ⟨old, -⟩
    exact ⟨Nat.le_succ_of_le old, fun same => absurd same (Nat.ne_of_lt (Nat.lt_succ_of_le old))⟩
  | @fire c now d arm here armed past =>
    have held := sound c
    rw [here] at held
    exact sound_goto sound _ (fun _ _ known => known) rfl ⟨held, past⟩
  | clear =>
    refine sound_goto sound _ ?_ rfl trivial
    rintro d arm ⟨old, -⟩
    exact ⟨old, fun _ => .inr rfl⟩

theorem run_sound (run : Run step initial past s) : Sound s :=
  run_invariant Sound (show Sound initial from fun _ => trivial) (fun _ _ _ sound taken => sound_step sound taken) run

theorem not_late (other : ∀ d arm read, s.place c ≠ .due d arm read) :
    ¬ Late s (.resume c now) := by
  rw [Late]
  cases here : s.place c with
  | user rax | arming d | asking d | loaded d arm => exact not_false
  | due d arm read => exact absurd here (other d arm read)

theorem late_iff (sound : Sound s) (taken : step s a = some s') (fresh : s.reports.Nodup) :
    Keeps s a ∧ s'.reports.Nodup ↔ ¬ Late s a := by
  have quiet : s'.deadline = s.deadline → s'.reports = s.reports → Keeps s a ∧ s'.reports.Nodup := by
    intro word reports
    refine ⟨fun s'' same _ changed => ?_, reports ▸ fresh⟩
    rw [taken, Option.some.injEq] at same
    exact absurd (same ▸ word) changed
  cases step_outcome taken with
  | enter d | ready | load => exact ⟨fun _ => id, fun _ => quiet rfl rfl⟩
  | back rax other => exact ⟨fun _ => not_late other, fun _ => quiet rfl rfl⟩
  | fire here => exact ⟨fun _ => not_late (by simp [here]), fun _ => quiet rfl rfl⟩
  | @arm c now d here =>
    refine ⟨fun _ => not_late (by simp [here]), fun _ => ⟨?_, fresh⟩⟩
    intro s'' _ _ _
    exact ⟨c, now, rfl, .inl ⟨d, here⟩⟩
  | @clear c now d arm read here =>
    have held := sound c
    rw [here] at held
    obtain ⟨⟨-, known⟩, reached⟩ := held
    have late : Late s (.resume c now) ↔ s.arm ≠ arm ∧ read < s.deadline ∨ arm ∈ s.reports := by
      rw [Late, here]
    rw [late, not_or, not_and, Nat.not_lt]
    constructor
    · rintro ⟨keeps, nodup⟩
      refine ⟨fun _ => ?_, (List.nodup_cons.mp nodup).1⟩
      by_cases empty : s.deadline = 0
      · omega
      obtain ⟨c', now', same, ⟨d', arming⟩ | ⟨d', arm', read', due, passed⟩⟩ :=
        keeps _ taken empty (Ne.symm empty)
      · cases same
        rw [here] at arming
        cases arming
      · cases same
        rw [here] at due
        cases due
        exact passed
    · rintro ⟨passed, unreported⟩
      refine ⟨fun s'' _ armed _ => ⟨c, now, rfl, .inr ⟨d, arm, read, here, ?_⟩⟩,
        List.nodup_cons.mpr ⟨unreported, fresh⟩⟩
      by_cases same : s.arm = arm
      · rcases known same.symm with still | cleared
        · omega
        · exact absurd cleared armed
      · exact passed same

theorem reports_suffix (taken : step s a = some s') : s.reports <:+ s'.reports := by
  cases step_outcome taken with
  | enter d | ready | load | back rax other | fire here armed past | arm here =>
    exact List.suffix_refl _
  | clear => exact List.suffix_cons _ _

/-- No arm is lost and none is reported twice, exactly in the runs without a late store. -/
theorem arms_kept_iff (run : Run step initial past s) :
    ((∀ e ∈ past, Keeps e.1 e.2) ∧ s.reports.Nodup) ↔ ∀ e ∈ past, ¬ Late e.1 e.2 := by
  induction run with
  | nil => simp [initial]
  | snoc before taken ih =>
    have sound := run_sound before
    simp only [List.mem_cons, forall_eq_or_imp]
    constructor
    · rintro ⟨⟨now, earlier⟩, nodup⟩
      have fresh := nodup.sublist (reports_suffix taken).sublist
      exact ⟨(late_iff sound taken fresh).mp ⟨now, nodup⟩, ih.mp ⟨earlier, fresh⟩⟩
    · rintro ⟨now, earlier⟩
      obtain ⟨keeps, fresh⟩ := ih.mpr earlier
      obtain ⟨here, nodup⟩ := (late_iff sound taken fresh).mpr now
      exact ⟨⟨here, keeps⟩, nodup⟩

theorem arms_kept_one_fire :
    ∃ past s, Run step initial past s ∧ s.reports = [1] ∧
      ((∀ e ∈ past, Keeps e.1 e.2) ∧ s.reports.Nodup) := by
  obtain ⟨past, s, run, tested, last⟩ := run_of_exec (fun s a => decide (¬ Late s a)) step initial
    [.settime 0 (some (0, 10)) 1 0, .resume 0 0, .consume 1, .resume 1 10, .resume 1 20]
    (fun s => decide (s.reports = [1])) (by decide)
  exact ⟨past, s, run, of_decide_eq_true last,
    (arms_kept_iff run).mpr fun e member => of_decide_eq_true (tested e member)⟩

/-- A read of the first timer clears the second one, which settime has stored since. -/
theorem rearm_cleared :
    ∃ past s, Run step initial past s ∧ s.deadline = 0 ∧ s.arm = 2 ∧ s.reports = [1] ∧
      ¬ ∀ e ∈ past, Keeps e.1 e.2 := by
  obtain ⟨later, w, earlier, s, run, here, -, -, last⟩ := run_through (fun _ _ => true)
    (fun _ _ => true) step initial
    [.settime 0 (some (0, 10)) 1 0, .resume 0 0, .consume 0, .resume 0 10,
      .settime 1 (some (0, 990)) 0 10, .resume 1 10] (.resume 0 20) []
    (fun w => decide (w.place 0 = .due 10 1 10 ∧ w.deadline = 1000))
    (fun s => decide (s.deadline = 0 ∧ s.arm = 2 ∧ s.reports = [1])) (by decide)
  obtain ⟨place, word⟩ := of_decide_eq_true here
  obtain ⟨cleared, arm, reports⟩ := of_decide_eq_true last
  refine ⟨_, s, run, cleared, arm, reports, fun keeps => ?_⟩
  obtain ⟨s', -, taken, -⟩ := run_at run
  have zero : s'.deadline = 0 := by
    cases step_outcome taken with
    | arm other | fire other => cases place.symm.trans other
    | back rax other => exact (other _ _ _ place).elim
    | clear => rfl
  obtain ⟨c, now, same, ⟨d, other⟩ | ⟨d, arm, read, due, passed⟩⟩ :=
    keeps (w, .resume 0 20) (by simp) s' taken (by simp [word]) (by simp [word, zero])
  · cases same
    cases place.symm.trans other
  · cases same
    cases place.symm.trans due
    rw [word] at passed
    exact absurd passed (by decide)

end TynKernel.Time.Timerfd
