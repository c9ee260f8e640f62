import TynKernel.Sched.Spawn
import TynKernel.Sched.Waiters

/-!
The timed wait, seen from one thread: it goes to sleep with a deadline, is woken or rescued,
and returns.
-/
namespace TynKernel.Sched
open Runs

inductive Event where
  | sleep (addr : Nat) (deadline : Option Nat)
  | wake
  | rescue
  | finish
  | other
  deriving DecidableEq, Repr

structure Timer where
  waiting : Option Nat
  deadline : Nat
  timedOut : Bool
  deriving DecidableEq, Repr

def Timer.idle : Timer := ⟨none, 0, false⟩

def Timer.after (now : Nat) (v : Timer) : Event → Timer
  | .sleep addr deadline => ⟨some addr, deadline.getD 0, false⟩
  | .wake => { v with waiting := none }
  | .rescue => ⟨none, 0, decide (v.deadline ≠ 0 ∧ v.deadline ≤ now) || v.timedOut⟩
  | .finish => { v with deadline := 0, timedOut := false }
  | .other => v

def Thread.timer (r : Thread) : Timer := ⟨r.waiting, r.waitDeadlineNs, r.waitTimedOut⟩

def timer (k : Kernel) (t : Nat) : Option Timer := (k.threads t).map Thread.timer

def Pc.event (p : Pc) (k : Kernel) (t : Nat) : Event :=
  match p with
  | .waitMark u addr _ deadline => if u = t then .sleep addr deadline else .other
  | .wakeScan _ addr count i woken =>
    if i = t ∧ (woken < count ∧ i < maxThreads) ∧ waitsOn k i = some addr then .wake else .other
  | .rescueCommit i _ _ => if i = t ∧ waitsOn k i ≠ none then .rescue else .other
  | .waitFinish u => if u = t then .finish else .other
  | _ => .other

def event (s : System) (a : Action) (t : Nat) : Event :=
  match a with
  | .cpu c => (s.pc c).event s.kernel t
  | _ => .other

variable {k : Kernel} {now i tid : Nat} {v : Timer}

theorem waitsOn_timer (k : Kernel) (t : Nat) : waitsOn k t = (timer k t).bind Timer.waiting := by
  unfold waitsOn timer
  cases k.threads t <;> rfl

theorem timer_of (get : k.threads t = some r) : timer k t = some r.timer := by
  simp [timer, get]

theorem timer_threads (threads : k'.threads = k.threads) (t : Nat) : timer k' t = timer k t := by
  simp [timer, threads]

theorem timer_setThread (k : Kernel) (u t : Nat) (r : Thread) :
    timer (k.setThread u r) t = if t = u then some r.timer else timer k t := by
  simp only [timer, Kernel.setThread, Function.update_apply]
  split <;> simp

structure Advances (now : Nat) (ev : Event) (before after : Option Timer) : Prop where
  known : ∀ v, before = some v → after = some (v.after now ev)
  fresh : before = none → after = none ∨ after = some Timer.idle

theorem advances_same (quiet : ev = .other) (same : after = before) :
    Advances now ev before after := by
  subst quiet same
  constructor
  · intro v get
    exact get
  · intro none
    exact .inl none

theorem advances_setThread (get : k.threads u = some old)
    (own : t = u → new.timer = old.timer.after now ev) (others : t ≠ u → ev = .other) :
    Advances now ev (timer k t) (timer (k.setThread u new) t) := by
  rw [timer_setThread]
  by_cases same : t = u
  · rw [if_pos same, own same, same, timer_of get]
    constructor
    · intro v found
      rw [Option.some.inj found]
    · intro none
      cases none
  · rw [if_neg same]
    exact advances_same (others same) rfl

section Step
variable {s s' : System} {c t : Nat} {p p' : Pc} {k' : Kernel}

theorem quiet_event (sound : Sound s) (here : s.pc c = p) (go : Quiet s.kernel c p p')
    (skips : ∀ i addr r, p = .rescueCommit i addr r → waitsOn s.kernel i = none) :
    p.event s.kernel t = .other := by
  cases go with
  | commitSkip i addr r =>
    have asleep := skips i addr r rfl
    simp [Pc.event, asleep]
  | markNone u addr val deadline vacant =>
    have current := sound.current c
    rw [here, vacant] at current
    cases current
  | markMissing u addr val deadline tid cur missing =>
    have same : u = tid := sound_current sound (by rw [here]; rfl) cur
    subst same
    obtain ⟨r, get, _⟩ := sound_running (c := c) (t := u) sound (by rw [here]; rfl)
    cases missing.symm.trans get
  | finishMissing u missing =>
    obtain ⟨r, get, _⟩ := sound_running (c := c) (t := u) sound (by rw [here]; rfl)
    cases missing.symm.trans get
  | wakeNext u addr count i woken other =>
    have elsewhere : waitsOn s.kernel i ≠ some addr := by
      intro waits
      obtain ⟨r, get, blocked, same⟩ := waitsOn_some waits
      exact other r get blocked same
    simp [Pc.event, elsewhere]
  | wakeDone u addr count i woken stop =>
    simp only [Pc.event]
    rw [if_neg (fun all => stop all.2.1)]
  | _ => rfl

theorem commit_skips (own : cpuStep k c (.rescueCommit i addr r) = some (k, rescueNext i addr r)) :
    waitsOn k i = none := by
  by_contra waits
  obtain ⟨x, waits⟩ := Option.ne_none_iff_exists'.mp waits
  obtain ⟨th, get, blocked, _⟩ := waitsOn_some waits
  simp only [cpuStep, get, blocked, if_true, Option.some.injEq, Prod.mk.injEq] at own
  cases own.2

theorem rescue_timer (addr : Nat) (r : RescueCaller) (get : k.threads i = some th)
    (blocked : th.state = .blocked) :
    Advances k.now ((Pc.rescueCommit i addr r).event k t) (timer k t) (timer (k.rescue i th) t) := by
  have waits : waitsOn k i = some th.futexAddr := by
    rw [waitsOn_of get, waiting_blocked blocked]
  rw [timer_threads (rescue_threads ..)]
  apply advances_setThread get
  · intro own
    have rescues : (Pc.rescueCommit i addr r).event k t = .rescue := by
      simp [Pc.event, own, waits]
    rw [rescues]
    rfl
  · intro other
    simp [Pc.event, Ne.symm other]

theorem insert_timer (absent : k.threads tid = none) :
    Advances now .other (timer k t) (timer (k.insertThread tid) t) := by
  unfold Kernel.insertThread
  rw [timer_setThread]
  by_cases own : t = tid
  · rw [if_pos own]
    constructor
    · intro v found
      rw [own] at found
      simp [timer, absent] at found
    · intro _
      exact .inr rfl
  · rw [if_neg own]
    exact advances_same rfl rfl

theorem home_timer : Advances now .other (timer k t) (timer (k.setHome tid best) t) := by
  unfold Kernel.setHome
  split
  · rename_i r get
    exact advances_setThread get (fun _ => rfl) (fun _ => rfl)
  · exact advances_same rfl rfl

theorem effect_timer (sound : Sound s) (here : s.pc c = p) (effect : Effect s.kernel c p k' p')
    (skips : ∀ i addr r, p = .rescueCommit i addr r → p' = rescueNext i addr r →
      waitsOn s.kernel i = none) :
    Advances s.kernel.now (p.event s.kernel t) (timer s.kernel t) (timer k' t) := by
  have current : s.kernel.current c = p.current := by
    rw [← here]
    exact sound.current c
  cases effect with
  | quiet go =>
    refine advances_same (quiet_event sound here go ?_) rfl
    intro i addr r commits
    subst commits
    cases go with
    | commitSkip => exact skips i addr r rfl rfl
  | pend u addr count i stop =>
    refine advances_same ?_ rfl
    simp only [Pc.event]
    rw [if_neg (fun all => stop all.2.1)]
  | rescue i addr r th get blocked threads queue rescued =>
    have table := rescue_timer (t := t) addr r get blocked
    rw [rescued] at table
    exact table
  | mark u addr val deadline tid r cur get =>
    obtain rfl : tid = u := Option.some.inj (cur.symm.trans current)
    apply advances_setThread get
    · intro own
      simp [Pc.event, own, Thread.timer, Timer.after, Thread.waiting]
    · intro other
      simp [Pc.event, Ne.symm other]
  | finish u r get =>
    apply advances_setThread get
    · intro own
      simp [Pc.event, own, Thread.timer, Timer.after, Thread.waiting]
    · intro other
      simp [Pc.event, Ne.symm other]
  | wake u addr count i woken th get blocked same room =>
    have waits : waitsOn s.kernel i = some addr := by
      rw [waitsOn_of get, waiting_blocked blocked, same]
    apply advances_setThread get
    · intro own
      subst own
      simp [Pc.event, waits, room, Thread.timer, Thread.woken, Timer.after, Thread.waiting]
    · intro other
      simp [Pc.event, Ne.symm other]
  | insert u tid =>
    have absent : s.kernel.threads tid = none := by
      have fits := sound.fits c
      rw [here] at fits
      exact fits.2.2
    exact insert_timer absent
  | home u tid req best threads mem written =>
    have same : ((s.kernel.setHome tid best).settid tid req).threads = threads := by rw [written]
    rw [settid_threads] at same
    have table : timer { s.kernel with threads := threads, mem := mem } t =
        timer (s.kernel.setHome tid best) t := timer_threads same.symm t
    rw [table]
    exact home_timer
  | exit u tid r cur get =>
    obtain rfl : tid = u := Option.some.inj (cur.symm.trans current)
    have awake := running_awake (c := c) (t := tid) sound (by rw [here]; rfl)
    rw [waitsOn_of get] at awake
    apply advances_setThread get
    · intro _
      simp [Pc.event, Timer.after, Thread.timer, awake]
      rfl
    · intro _
      rfl
  | switch y cur next r n get other | sleepSwitch tid next r n get other | sleepIdle tid r get
  | exitIdle tid r get => exact advances_setThread get (fun _ => rfl) (fun _ => rfl)
  | _ => exact advances_same rfl rfl

theorem step_timer (sound : Sound s) (taken : step s a = some s') (t : Nat) :
    Advances s.kernel.now (event s a t) (timer s.kernel t) (timer s'.kernel t) := by
  cases step_cases taken with
  | @cpu c k p bound own =>
    apply effect_timer sound rfl (cpuStep_effect own)
    intro i addr r commits next
    rw [commits, next] at own
    have kernel : k = s.kernel := by
      simp only [cpuStep] at own
      split at own
      · split at own
        · cases own
        · cases own
          rfl
      · cases own
        rfl
    rw [kernel] at own
    exact commit_skips own
  | call f bound here | interrupt bound pending open_ => exact advances_same rfl rfl
  | @timer c watchdog bound open_ resched rescues blocking kernel =>
    refine advances_same rfl (timer_threads ?_ t)
    change (s.kernel.timerTick c watchdog).threads = _
    rw [kernel]
  | @ambient a mem now blocking notCpu =>
    refine advances_same ?_ rfl
    cases a with
    | cpu c => exact absurd rfl (notCpu c)
    | call | interrupt | timer | write | clock | enableBlockingFutex => rfl

theorem event_waits (served : event s a t = .wake ∨ event s a t = .rescue) :
    waitsOn s.kernel t ≠ none := by
  unfold event at served
  split at served
  · unfold Pc.event at served
    split at served
    · split at served <;> simp at served
    · split at served
      · rename_i all
        rw [← all.1, all.2.2]
        simp
      · simp at served
    · split at served
      · rename_i all
        rw [← all.1]
        exact all.2
      · simp at served
    · split at served <;> simp at served
    · simp at served
  · simp at served

theorem event_awake (sound : Sound s)
    (own : (∃ addr deadline, event s a t = .sleep addr deadline) ∨ event s a t = .finish) :
    waitsOn s.kernel t = none := by
  unfold event at own
  split at own
  · rename_i d
    cases place : s.pc d with
    | waitMark u x val due | waitFinish u =>
      simp only [place, Pc.event] at own
      split at own
      · rename_i same
        exact running_awake (c := d) sound (by rw [place, ← same]; rfl)
      · simp at own
    | wakeScan | rescueCommit =>
      simp only [place, Pc.event] at own
      split at own <;> simp at own
    | _ => simp [place, Pc.event] at own
  · simp at own

theorem effect_now (effect : Effect s.kernel c p k' p') : k'.now = s.kernel.now := by
  cases effect <;> rfl

theorem step_now (taken : step s a = some s') : s.kernel.now ≤ s'.kernel.now := by
  cases a with
  | clock =>
    cases taken
    exact Nat.le_add_right _ _
  | write addr val | enableBlockingFutex =>
    cases taken
    exact Nat.le_refl _
  | cpu =>
    obtain ⟨k, p, rfl, effect⟩ := step_own taken
    exact Nat.le_of_eq (effect_now effect).symm
  | call =>
    simp only [step] at taken
    split at taken
    · split at taken
      · cases taken
        exact Nat.le_refl _
      · cases taken
    · cases taken
  | interrupt =>
    simp only [step] at taken
    split at taken
    · cases taken
      exact Nat.le_refl _
    · cases taken
  | timer d watchdog =>
    simp only [step] at taken
    split at taken
    · cases taken
      obtain ⟨resched, rescues, blocking, kernel⟩ := timerTick_eq s.kernel d watchdog
      exact Nat.le_of_eq (congrArg Kernel.now kernel).symm
    · cases taken

end Step

def Returns (t : Nat) (rax : Int) (e : System × Action) : Prop :=
  ∃ c s', e.2 = .cpu c ∧ e.1.pc c = .waitFinish t ∧ step e.1 e.2 = some s' ∧ s'.pc c = .user t rax

def NoSleep (t : Nat) (steps : List (System × Action)) : Prop :=
  ∀ x ∈ steps, ∀ addr deadline, event x.1 x.2 t ≠ .sleep addr deadline

def Slept (t : Nat) (deadline : Option Nat) (past : List (System × Action)) : Prop :=
  ∃ since m before addr, past = since ++ m :: before ∧ event m.1 m.2 t = .sleep addr deadline ∧
    NoSleep t since

/-- When t went to sleep last, it was with a deadline, and it has been rescued after that
    deadline. -/
def Expired (t : Nat) (past : List (System × Action)) : Prop :=
  ∃ since m before addr d, past = since ++ m :: before ∧
    event m.1 m.2 t = .sleep addr (some d) ∧ NoSleep t since ∧
    ∃ x ∈ since, event x.1 x.2 t = .rescue ∧ d ≤ x.1.kernel.now

section Histories
variable {n t : Nat} {past : List (System × Action)} {s : System} {a : Action}

theorem noSleep_cons (now : ∀ addr d, event s a t ≠ .sleep addr d) (rest : NoSleep t steps) :
    NoSleep t ((s, a) :: steps) := by
  intro x member
  rcases List.mem_cons.mp member with same | later
  · rw [same]
    exact now
  · exact rest x later

theorem slept_cons (now : ∀ addr d, event s a t ≠ .sleep addr d) (slept : Slept t deadline past) :
    Slept t deadline ((s, a) :: past) := by
  obtain ⟨since, m, before, addr, rfl, sleeps, quiet⟩ := slept
  exact ⟨(s, a) :: since, m, before, addr, rfl, sleeps, noSleep_cons now quiet⟩

theorem expired_cons (now : ∀ addr d, event s a t ≠ .sleep addr d) (expired : Expired t past) :
    Expired t ((s, a) :: past) := by
  obtain ⟨since, m, before, addr, d, rfl, sleeps, quiet, x, member, rescued⟩ := expired
  exact ⟨(s, a) :: since, m, before, addr, d, rfl, sleeps, noSleep_cons now quiet, x,
    List.mem_cons_of_mem _ member, rescued⟩

theorem expired_rescue (slept : Slept t deadline past) (rescues : event s a t = .rescue)
    (due : deadline.getD 0 ≠ 0) (late : deadline.getD 0 ≤ s.kernel.now) :
    Expired t ((s, a) :: past) := by
  obtain ⟨since, m, before, addr, rfl, sleeps, quiet⟩ := slept
  cases deadline with
  | none => exact absurd rfl due
  | some d =>
    refine ⟨(s, a) :: since, m, before, addr, d, rfl, sleeps, ?_, (s, a), List.mem_cons_self,
      rescues, late⟩
    apply noSleep_cons _ quiet
    rw [rescues]
    simp

structure Recalls (t : Nat) (past : List (System × Action)) (v : Timer) : Prop where
  asleep : v.waiting ≠ none → v.timedOut = false ∧
    ∃ deadline, Slept t deadline past ∧ v.deadline = deadline.getD 0
  expired : v.timedOut = true → Expired t past

theorem recalls_idle : Recalls t past Timer.idle := by
  constructor
  · intro waits
    exact absurd rfl waits
  · intro expired
    cases expired

theorem recalls_after (recalls : Recalls t past v)
    (asleep : event s a t = .wake ∨ event s a t = .rescue → v.waiting ≠ none)
    (awake : event s a t = .finish → v.waiting = none) :
    Recalls t ((s, a) :: past) (v.after s.kernel.now (event s a t)) := by
  cases ev : event s a t with
  | sleep addr deadline =>
    constructor
    · intro _
      exact ⟨rfl, deadline, ⟨[], (s, a), past, addr, rfl, ev, by simp [NoSleep]⟩, rfl⟩
    · intro expired
      cases expired
  | wake =>
    have now : ∀ addr d, event s a t ≠ .sleep addr d := by simp [ev]
    constructor
    · intro waits
      exact absurd rfl waits
    · intro expired
      exact expired_cons now (recalls.expired expired)
  | rescue =>
    obtain ⟨clear, deadline, slept, due⟩ := recalls.asleep (asleep (.inr ev))
    constructor
    · intro waits
      exact absurd rfl waits
    · intro expired
      simp only [Timer.after, clear, Bool.or_false, decide_eq_true_eq, due] at expired
      exact expired_rescue slept ev expired.1 expired.2
  | finish =>
    constructor
    · intro waits
      exact absurd (awake ev) waits
    · intro expired
      cases expired
  | other =>
    have now : ∀ addr d, event s a t ≠ .sleep addr d := by simp [ev]
    constructor
    · intro waits
      obtain ⟨clear, deadline, slept, due⟩ := recalls.asleep waits
      exact ⟨clear, deadline, slept_cons now slept, due⟩
    · intro expired
      exact expired_cons now (recalls.expired expired)

theorem event_timer (sound : Sound s) (get : timer s.kernel t = some v) :
    (event s a t = .wake ∨ event s a t = .rescue → v.waiting ≠ none) ∧
      ((∃ addr deadline, event s a t = .sleep addr deadline) ∨ event s a t = .finish →
        v.waiting = none) := by
  have same : waitsOn s.kernel t = v.waiting := by
    rw [waitsOn_timer, get]
    rfl
  rw [← same]
  exact ⟨event_waits, event_awake sound⟩

theorem run_recalls (some_cpu : 0 < n) (few : n ≤ maxCpus) (run : Run step (boot n) past s)
    (fresh : ∀ e ∈ past, NoWrap e.1 e.2) : ∀ v, timer s.kernel t = some v → Recalls t past v := by
  induction run with
  | nil =>
    intro v get
    have idle : v = Timer.idle := by
      simp only [timer, boot] at get
      split at get
      · cases get
        rfl
      · cases get
    rw [idle]
    exact recalls_idle
  | @snoc past s s' a before taken ih =>
    intro v get
    have earlier : ∀ e ∈ past, NoWrap e.1 e.2 := fun e member =>
      fresh e (List.mem_cons_of_mem _ member)
    have sound := run_sound some_cpu few before earlier
    have advances := step_timer sound taken t
    cases old : timer s.kernel t with
    | none =>
      rcases advances.fresh old with none | idle
      · rw [none] at get
        cases get
      · rw [idle] at get
        rw [← Option.some.inj get]
        exact recalls_idle
    | some w =>
      rw [advances.known w old] at get
      rw [← Option.some.inj get]
      obtain ⟨asleep, awake⟩ := event_timer (a := a) sound old
      exact recalls_after (ih earlier w old) asleep (fun finish => awake (.inr finish))

theorem returns_value (sound : Sound e.1) (returns : Returns t rax e) :
    ∃ v, timer e.1.kernel t = some v ∧ v.waiting = none ∧ rax = if v.timedOut then -110 else 0 := by
  obtain ⟨c, s', own, place, taken, after⟩ := returns
  have runs : (e.1.pc c).runs = some t := by
    rw [place]
    rfl
  obtain ⟨r, get, _⟩ := sound_running sound runs
  refine ⟨r.timer, timer_of get, ?_, ?_⟩
  · have awake := running_awake sound runs
    rw [waitsOn_of get] at awake
    exact awake
  rw [own] at taken
  obtain ⟨k, p, rfl, effect⟩ := step_own taken
  rw [goto_here] at after
  subst after
  rw [place] at effect
  cases effect with
  | quiet go =>
    cases go with
    | finishMissing _ missing => cases missing.symm.trans get
  | finish _ r' get' =>
    cases get.symm.trans get'
    rfl

end Histories

end TynKernel.Sched
