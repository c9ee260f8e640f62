import TynKernel.Sched.Identity
import TynKernel.Sched.Timers

/-!
What timed waits owe to their deadlines. The watchdog flags a wait that is overdue, a rescue
takes the flag and ends the wait, and the result tells whether that came after the deadline.
-/
namespace TynKernel.Sched
open List Runs

def Overdue (k : Kernel) (t : Nat) : Prop :=
  ∃ r, k.threads t = some r ∧ r.state = .blocked ∧ r.futexAddr ≠ 0 ∧ r.waitDeadlineNs ≠ 0 ∧
    r.waitDeadlineNs ≤ k.now

def Pc.rescues (p : Pc) (t : Nat) : Bool :=
  match p with
  | .rescueRead i _ | .rescueLock i _ _ | .rescueThreadLock i _ _ | .rescueCommit i _ _ => i = t
  | _ => false

variable {d addr c : Nat} {s' : System} {a : Action} {e : System × Action}
  {since upto : List (System × Action)} {rax : Int} {r : RescueCaller}

section Promises
variable {n t : Nat} {past later : List (System × Action)} {s mid : System}

theorem woken_clear (sound : Sound mid) (awake : ∃ v, timer mid.kernel t = some v ∧
      v.waiting = none ∧ v.timedOut = false) (after : Run step mid later s)
    (fresh : ∀ e ∈ later, NoWrap e.1 e.2) (quiet : NoSleep t later) :
    ∃ v, timer s.kernel t = some v ∧ v.waiting = none ∧ v.timedOut = false := by
  refine (run_invariant_of
    (fun s a => NoWrap s a ∧ ∀ addr deadline, event s a t ≠ .sleep addr deadline)
    (fun s => Sound s ∧ ∃ v, timer s.kernel t = some v ∧ v.waiting = none ∧ v.timedOut = false)
    ⟨sound, awake⟩ ?_ after (fun e member => ⟨fresh e member, quiet e member⟩)).2
  rintro s a s' ⟨sound, v, get, awake, clear⟩ ⟨new, never⟩ taken
  refine ⟨step_sound sound new taken, _, (step_timer sound taken t).known v get, ?_⟩
  have served := (event_timer (a := a) sound get).1
  cases ev : event s a t with
  | sleep addr deadline => exact absurd ev (never addr deadline)
  | wake => exact absurd awake (served (.inl ev))
  | rescue => exact absurd awake (served (.inr ev))
  | finish => exact ⟨awake, rfl⟩
  | other => exact ⟨awake, clear⟩

theorem overdue_expires (sound : Sound mid)
    (due : ∃ v, timer mid.kernel t = some v ∧ v.deadline = d ∧ v.waiting ≠ none) (set : d ≠ 0)
    (late : d ≤ mid.kernel.now) (after : Run step mid later s) (fresh : ∀ e ∈ later, NoWrap e.1 e.2)
    (quiet : ∀ e ∈ later, event e.1 e.2 t = .other ∨ event e.1 e.2 t = .rescue) :
    ∃ v, timer s.kernel t = some v ∧ (v.waiting = none → v.timedOut = true) := by
  have held := run_invariant_of
    (fun s a => NoWrap s a ∧ (event s a t = .other ∨ event s a t = .rescue))
    (fun s => Sound s ∧ d ≤ s.kernel.now ∧ ∃ v, timer s.kernel t = some v ∧
      ((v.deadline = d ∧ v.waiting ≠ none) ∨ v.timedOut = true))
    ⟨sound, late, by
      obtain ⟨v, get, deadline, waits⟩ := due
      exact ⟨v, get, .inl ⟨deadline, waits⟩⟩⟩ ?_ after
    (fun e member => ⟨fresh e member, quiet e member⟩)
  · obtain ⟨_, _, v, get, still | expired⟩ := held
    · exact ⟨v, get, fun awake => absurd awake still.2⟩
    · exact ⟨v, get, fun _ => expired⟩
  rintro s a s' ⟨sound, late, v, get, state⟩ ⟨new, only⟩ taken
  refine ⟨step_sound sound new taken, Nat.le_trans late (step_now taken), _,
    (step_timer sound taken t).known v get, ?_⟩
  rcases only with ev | ev
  · rw [ev]
    exact state
  rw [ev]
  rcases state with ⟨deadline, _⟩ | expired
  · simp [Timer.after, deadline, set, late]
  · simp [Timer.after, expired]

theorem waits_on (sound : Sound s) (taken : step s a = some s')
    (asleep : waitsOn s.kernel t = some addr)
    (unserved : event s a t ≠ .wake ∧ event s a t ≠ .rescue) :
    waitsOn s'.kernel t = some addr := by
  rw [waitsOn_timer] at asleep ⊢
  obtain ⟨v, get, waits⟩ := Option.bind_eq_some_iff.mp asleep
  rw [(step_timer sound taken t).known v get]
  have awake := (event_timer (a := a) sound get).2
  rw [waits] at awake
  cases ev : event s a t with
  | sleep x deadline => cases awake (.inl ⟨x, deadline, ev⟩)
  | wake => exact absurd ev unserved.1
  | rescue => exact absurd ev unserved.2
  | finish => cases awake (.inr ev)
  | other => exact waits

theorem rescues_steady {p : Pc} (serving : p.rescues t = true) : p.Steady := by
  cases p with
  | rescueRead | rescueLock | rescueThreadLock | rescueCommit =>
    exact ⟨rfl, fun _ _ same => by cases same⟩
  | _ => cases serving

theorem rescuer_step (nonzero : addr ≠ 0) (asleep : waitsOn s.kernel t = some addr)
    (serving : (s.pc c).rescues t = true) (taken : step s (.cpu c) = some s')
    (unserved : event s (.cpu c) t ≠ .rescue) :
    (s'.pc c).rescues t = true := by
  obtain ⟨th, get, blocked, same⟩ := waitsOn_some asleep
  cases step_cases taken with
  | ambient mem now blocking notCpu => exact absurd rfl (notCpu c)
  | @cpu _ k p bound own =>
    rw [goto_here]
    cases place : s.pc c with
    | rescueRead =>
      rw [place] at serving own
      obtain rfl := of_decide_eq_true serving
      rw [← same] at nonzero
      simp only [cpuStep, get, blocked, nonzero, ne_eq, not_false_eq_true, and_self, if_true,
        Option.some.injEq, Prod.mk.injEq] at own
      rw [← own.2]
      exact decide_eq_true rfl
    | rescueLock i x r | rescueThreadLock i x r =>
      rw [place] at serving own
      obtain ⟨_, after⟩ := spin_taken own
      cases after
      exact serving
    | rescueCommit =>
      rw [place] at serving
      obtain rfl := of_decide_eq_true serving
      refine absurd ?_ unserved
      simp [event, place, Pc.event, asleep]
    | _ =>
      rw [place] at serving
      cases serving

theorem rescuer_stays (nonzero : addr ≠ 0) (sound : Sound mid)
    (asleep : waitsOn mid.kernel t = some addr) (serving : (mid.pc c).rescues t = true)
    (after : Run step mid later s) (fresh : ∀ e ∈ later, NoWrap e.1 e.2)
    (unserved : ∀ e ∈ later, event e.1 e.2 t ≠ .wake ∧ event e.1 e.2 t ≠ .rescue) :
    (s.pc c).rescues t = true := by
  refine (run_invariant_of
    (fun s a => NoWrap s a ∧ event s a t ≠ .wake ∧ event s a t ≠ .rescue)
    (fun s => Sound s ∧ waitsOn s.kernel t = some addr ∧ (s.pc c).rescues t = true)
    ⟨sound, asleep, serving⟩ ?_ after
    (fun e member => ⟨fresh e member, unserved e member⟩)).2.2
  rintro s a s' ⟨sound, asleep, serving⟩ ⟨new, unserved⟩ taken
  refine ⟨step_sound sound new taken, waits_on sound taken asleep unserved, ?_⟩
  by_cases own : a = .cpu c
  · subst own
    exact rescuer_step nonzero asleep serving taken unserved.2
  · rw [steady_stays (rescues_steady serving) taken own]
    exact serving

theorem sleeps_on (sound : Sound mid) (asleep : waitsOn mid.kernel t = some addr)
    (after : Run step mid later s) (fresh : ∀ e ∈ later, NoWrap e.1 e.2)
    (unserved : ∀ e ∈ later, event e.1 e.2 t ≠ .wake ∧ event e.1 e.2 t ≠ .rescue) :
    waitsOn s.kernel t = some addr := by
  refine (run_invariant_of
    (fun s a => NoWrap s a ∧ event s a t ≠ .wake ∧ event s a t ≠ .rescue)
    (fun s => Sound s ∧ waitsOn s.kernel t = some addr) ⟨sound, asleep⟩ ?_ after
    (fun e member => ⟨fresh e member, unserved e member⟩)).2
  rintro s a s' ⟨sound, asleep⟩ ⟨new, unserved⟩ taken
  exact ⟨step_sound sound new taken, waits_on sound taken asleep unserved⟩

end Promises

/-- What the waits of a run owe to their deadlines, in all steps up to the state s. -/
structure Honest (past : List (System × Action)) (s : System) : Prop where
  /-- A wait that returns -ETIMEDOUT had a deadline, and a rescue ended it no earlier. -/
  early : ∀ later e earlier t, past = later ++ e :: earlier → Returns t (-110) e →
    Expired t earlier
  /-- A thread that a futex_wake has counted returns zero from that wait. -/
  woken : ∀ later e since w before t rax, past = later ++ e :: (since ++ w :: before) →
    event w.1 w.2 t = .wake → NoSleep t since → Returns t rax e → rax = 0
  /-- The watchdog raises the flag of an overdue thread. -/
  flagged : ∀ later e earlier c t mid, past = later ++ e :: earlier → e.2 = .timer c true →
    Overdue e.1.kernel t → step e.1 e.2 = some mid → mid.kernel.rescueRequested t = true
  /-- Once the rescue that takes the flag is done with the thread, somebody has ended its wait. -/
  served : ∀ since x upto e earlier c d t r, past = since ++ x :: (upto ++ e :: earlier) →
    e.2 = .timer c true → Overdue e.1.kernel t → x.2 = .cpu d → x.1.pc d = .rescueScan t r →
    x.1.kernel.rescueRequested t = true →
    ((s.pc d).rescues t = false ∨ ∃ y ∈ since, (y.1.pc d).rescues t = false) →
    ∃ y ∈ since ++ x :: upto, event y.1 y.2 t = .wake ∨ event y.1 y.2 t = .rescue
  /-- The overdue wait returns -ETIMEDOUT if nobody has woken the thread. -/
  expires : ∀ later y upto e earlier c t rax, past = later ++ y :: (upto ++ e :: earlier) →
    e.2 = .timer c true → Overdue e.1.kernel t → Returns t rax y →
    (∀ x ∈ upto, event x.1 x.2 t = .other ∨ event x.1 x.2 t = .rescue) → rax = -110

section Runs
variable {n t : Nat} {past later earlier : List (System × Action)} {s : System}

theorem returns_early (some_cpu : 0 < n) (few : n ≤ maxCpus)
    (before : Run step (boot n) earlier e.1) (fresh : ∀ e ∈ earlier, NoWrap e.1 e.2)
    (returns : Returns t (-110) e) : Expired t earlier := by
  have sound := run_sound some_cpu few before fresh
  obtain ⟨v, get, _, value⟩ := returns_value sound returns
  apply (run_recalls some_cpu few before fresh v get).expired
  by_contra clear
  rw [if_neg clear] at value
  cases value

theorem returns_woken (some_cpu : 0 < n) (few : n ≤ maxCpus)
    (before : Run step (boot n) (since ++ w :: earlier) e.1)
    (fresh : ∀ e ∈ since ++ w :: earlier, NoWrap e.1 e.2) (wakes : event w.1 w.2 t = .wake)
    (quiet : NoSleep t since) (returns : Returns t rax e) : rax = 0 := by
  have sound := run_sound some_cpu few before fresh
  obtain ⟨mid, first, taken, after⟩ := run_at before
  have freshBefore : ∀ x ∈ earlier, NoWrap x.1 x.2 := fun x member =>
    fresh x (mem_append_right _ (mem_cons_of_mem _ member))
  have soundAt := run_sound some_cpu few first freshBefore
  have new := fresh w (mem_append_right _ mem_cons_self)
  obtain ⟨v, get, waits⟩ : ∃ v, timer w.1.kernel t = some v ∧ v.waiting ≠ none := by
    have asleep := event_waits (.inl wakes)
    rw [waitsOn_timer] at asleep
    obtain ⟨x, found⟩ := Option.ne_none_iff_exists'.mp asleep
    obtain ⟨v, get, waits⟩ := Option.bind_eq_some_iff.mp found
    exact ⟨v, get, by rw [waits]; simp⟩
  have clear := ((run_recalls some_cpu few first freshBefore v get).asleep waits).1
  have awake : timer mid.kernel t = some { v with waiting := none } := by
    rw [(step_timer soundAt taken t).known v get, wakes]
    rfl
  obtain ⟨u, last, _, none⟩ := woken_clear (step_sound soundAt new taken)
    ⟨_, awake, rfl, clear⟩ after (fun x member => fresh x (mem_append_left _ member)) quiet
  obtain ⟨u', get', _, value⟩ := returns_value sound returns
  cases last.symm.trans get'
  rw [none] at value
  exact value

theorem overdue_waits (overdue : Overdue k t) :
    ∃ addr v, addr ≠ 0 ∧ waitsOn k t = some addr ∧ timer k t = some v ∧ v.waiting ≠ none ∧
      v.deadline ≠ 0 ∧ v.deadline ≤ k.now := by
  obtain ⟨r, get, blocked, nonzero, set, late⟩ := overdue
  refine ⟨r.futexAddr, r.timer, nonzero, ?_, timer_of get, ?_, set, late⟩
  · rw [waitsOn_of get, waiting_blocked blocked]
  · change r.waiting ≠ none
    rw [waiting_blocked blocked]
    simp

theorem tick_timer (sound : Sound s) (taken : step s (.timer c true) = some mid) :
    timer mid.kernel t = timer s.kernel t := by
  have advances := step_timer sound taken t
  cases old : timer s.kernel t with
  | some v => exact advances.known v old
  | none =>
    have threads : mid.kernel.threads = s.kernel.threads := by
      simp only [step] at taken
      split at taken
      · cases taken
        rfl
      · cases taken
    rw [timer_threads threads, old]

theorem tick_flags (sound : Sound s) (overdue : Overdue s.kernel t)
    (taken : step s (.timer c true) = some mid) : mid.kernel.rescueRequested t = true := by
  obtain ⟨r, get, blocked, nonzero, set, late⟩ := overdue
  have slot := (sound.record t r get).slot
  simp only [step] at taken
  split at taken
  · cases taken
    have needs : s.kernel.needsRescue t = true := by
      simp [Kernel.needsRescue, get, blocked, nonzero, set, late]
    change (s.kernel.rescueRequested t || (decide (t < maxThreads) && _)) = true
    rw [decide_eq_true slot, Bool.true_and]
    exact Bool.or_eq_true_iff.mpr (.inr needs)
  · cases taken

theorem flag_taken (slot : t < maxThreads) (scans : s.pc d = .rescueScan t r)
    (flag : s.kernel.rescueRequested t = true) (taken : step s (.cpu d) = some s') :
    (s'.pc d).rescues t = true := by
  cases step_cases taken with
  | ambient mem now blocking notCpu => exact absurd rfl (notCpu d)
  | @cpu _ k p bound own =>
    rw [goto_here]
    rw [scans] at own
    simp only [cpuStep, slot, flag, if_true, Option.some.injEq, Prod.mk.injEq] at own
    rw [← own.2]
    exact decide_eq_true rfl

theorem overdue_served (some_cpu : 0 < n) (few : n ≤ maxCpus)
    (run : Run step (boot n) (since ++ x :: (upto ++ e :: earlier)) s)
    (fresh : ∀ y ∈ since ++ x :: (upto ++ e :: earlier), NoWrap y.1 y.2)
    (ticks : e.2 = .timer c true) (overdue : Overdue e.1.kernel t) (own : x.2 = .cpu d)
    (scans : x.1.pc d = .rescueScan t r) (flag : x.1.kernel.rescueRequested t = true)
    (done : (s.pc d).rescues t = false ∨ ∃ y ∈ since, (y.1.pc d).rescues t = false) :
    ∃ y ∈ since ++ x :: upto, event y.1 y.2 t = .wake ∨ event y.1 y.2 t = .rescue := by
  by_contra nobody
  push Not at nobody
  obtain ⟨taken_, first, taken, after⟩ := run_at run
  obtain ⟨mid, before, ticked, between⟩ := run_at first
  have freshUpto : ∀ y ∈ upto, NoWrap y.1 y.2 := fun y member => fresh y
    (mem_append_right _ (mem_cons_of_mem _ (mem_append_left _ member)))
  have freshEarlier : ∀ y ∈ earlier, NoWrap y.1 y.2 := fun y member => fresh y
    (mem_append_right _ (mem_cons_of_mem _
      (mem_append_right _ (mem_cons_of_mem _ member))))
  have sound := run_sound some_cpu few before freshEarlier
  obtain ⟨addr, v, nonzero, asleep, _⟩ := overdue_waits overdue
  have newTick : NoWrap e.1 e.2 := fresh e
    (mem_append_right _ (mem_cons_of_mem _ (mem_append_right _ mem_cons_self)))
  have soundMid := step_sound sound newTick ticked
  have asleepMid : waitsOn mid.kernel t = some addr := by
    rw [ticks] at ticked
    rw [waitsOn_timer, tick_timer sound ticked, ← waitsOn_timer]
    exact asleep
  have soundHere := run_sound some_cpu few first (fun y member => fresh y
    (mem_append_right _ (mem_cons_of_mem _ member)))
  have asleepHere := sleeps_on soundMid asleepMid between freshUpto (fun y member =>
    nobody y (mem_append_right _ (mem_cons_of_mem _ member)))
  have newHere : NoWrap x.1 x.2 := fresh x (mem_append_right _ mem_cons_self)
  have soundTaken := step_sound soundHere newHere taken
  have asleepTaken := waits_on soundHere taken asleepHere
    (nobody x (mem_append_right _ mem_cons_self))
  have serving : (taken_.pc d).rescues t = true := by
    obtain ⟨th, get, _⟩ := waitsOn_some asleepHere
    rw [own] at taken
    exact flag_taken (soundHere.record t th get).slot scans flag taken
  rcases done with final | ⟨y, member, passed⟩
  · have still := rescuer_stays nonzero soundTaken asleepTaken serving after
      (fun y member => fresh y (mem_append_left _ member))
      (fun y member => nobody y (mem_append_left _ member))
    rw [final] at still
    cases still
  · obtain ⟨last, start, split⟩ := append_of_mem member
    rw [split] at after
    obtain ⟨_, upToY, _⟩ := run_at after
    have inside : ∀ z ∈ start, z ∈ since := by
      intro z there
      rw [split]
      exact mem_append_right _ (mem_cons_of_mem _ there)
    have still := rescuer_stays nonzero soundTaken asleepTaken serving upToY
      (fun z there => fresh z (mem_append_left _ (inside z there)))
      (fun z there => nobody z (mem_append_left _ (inside z there)))
    rw [passed] at still
    cases still

theorem overdue_returns (some_cpu : 0 < n) (few : n ≤ maxCpus)
    (run : Run step (boot n) (upto ++ e :: earlier) y.1)
    (fresh : ∀ x ∈ upto ++ e :: earlier, NoWrap x.1 x.2) (ticks : e.2 = .timer c true)
    (overdue : Overdue e.1.kernel t) (returns : Returns t rax y)
    (quiet : ∀ x ∈ upto, event x.1 x.2 t = .other ∨ event x.1 x.2 t = .rescue) : rax = -110 := by
  obtain ⟨mid, before, ticked, after⟩ := run_at run
  have sound := run_sound some_cpu few before (fun x member => fresh x
    (mem_append_right _ (mem_cons_of_mem _ member)))
  have newTick : NoWrap e.1 e.2 := fresh e (mem_append_right _ mem_cons_self)
  obtain ⟨addr, v, _, _, get, waits, set, late⟩ := overdue_waits overdue
  have getMid : timer mid.kernel t = some v := by
    rw [ticks] at ticked
    rw [tick_timer sound ticked]
    exact get
  obtain ⟨u, last, expired⟩ := overdue_expires (step_sound sound newTick ticked)
    ⟨v, getMid, rfl, waits⟩ set (Nat.le_trans late (step_now ticked)) after
    (fun x member => fresh x (mem_append_left _ member)) quiet
  obtain ⟨u', get', awake, value⟩ := returns_value (run_sound some_cpu few run fresh) returns
  cases last.symm.trans get'
  rw [expired awake] at value
  exact value

/-- In every run, timeouts are honest for addresses and deadlines other than zero. -/
theorem futex_timeouts_honest (some_cpu : 0 < n) (few : n ≤ maxCpus)
    (run : Run step (boot n) past s) (fresh : ∀ e ∈ past, NoWrap e.1 e.2) : Honest past s := by
  have part : ∀ {first second : List (System × Action)}, past = first ++ second →
      (∀ e ∈ first, NoWrap e.1 e.2) ∧ ∀ e ∈ second, NoWrap e.1 e.2 := by
    rintro first second rfl
    exact ⟨fun e member => fresh e (mem_append_left _ member),
      fun e member => fresh e (mem_append_right _ member)⟩
  constructor
  · rintro later e earlier t rfl returns
    obtain ⟨_, before, _⟩ := run_at run
    exact returns_early some_cpu few before
      (fun x member => (part rfl).2 x (mem_cons_of_mem _ member)) returns
  · rintro later e since w before t rax rfl wakes quiet returns
    obtain ⟨_, first, _⟩ := run_at run
    exact returns_woken some_cpu few first
      (fun x member => (part rfl).2 x (mem_cons_of_mem _ member)) wakes quiet returns
  · rintro later ⟨w, a⟩ earlier c t mid rfl rfl overdue taken
    obtain ⟨_, before, _⟩ := run_at run
    exact tick_flags (run_sound some_cpu few before
      (fun x member => (part rfl).2 x (mem_cons_of_mem _ member))) overdue taken
  · rintro since x upto e earlier c d t r rfl ticks overdue own scans flag done
    exact overdue_served some_cpu few run fresh ticks overdue own scans flag done
  · rintro later y upto e earlier c t rax rfl ticks overdue returns quiet
    obtain ⟨_, first, _⟩ := run_at run
    exact overdue_returns some_cpu few first
      (fun x member => (part rfl).2 x (mem_cons_of_mem _ member)) ticks overdue returns quiet

end Runs

theorem finish_returns (finish : event s (.cpu c) t = .finish)
    (back : (step s (.cpu c)).any (fun s' => (s'.pc c).isUser t rax) = true) :
    Returns t rax (s, .cpu c) := by
  obtain ⟨s', taken, user⟩ := (Option.any_eq_true _ _).mp back
  refine ⟨c, s', rfl, ?_, taken, isUser_place user⟩
  cases place : s.pc c with
  | waitFinish =>
    simp only [event, place, Pc.event] at finish
    split at finish
    · rename_i same
      rw [same]
    · cases finish
  | waitMark | wakeScan | rescueCommit =>
    simp only [event, place, Pc.event] at finish
    split at finish <;> cases finish
  | _ =>
    simp only [event, place, Pc.event] at finish
    cases finish

def undisturbed (s : System) (a : Action) : Bool :=
  noWrap s a && (event s a 0 = .other || event s a 0 = .rescue)

theorem undisturbed_event (test : undisturbed s a = true) :
    NoWrap s a ∧ (event s a 0 = .other ∨ event s a 0 = .rescue) := by
  simp only [undisturbed, Bool.and_eq_true, Bool.or_eq_true, decide_eq_true_eq] at test
  exact ⟨noWrap_sound test.1, test.2⟩

def timedWait (deadline : Nat) : List Action :=
  [.enableBlockingFutex, .clock 1] ++ cloneSteps ++
    callSteps 0 (.futexWaitUntil 4096 0 (some deadline)) 5

def yieldToMain : List Action := callSteps 0 .yieldCurrent 43

theorem wait_times_out : ∃ past s, Run step (boot 1) past s ∧ Returns 0 (-110) (s, .cpu 0) ∧
    Expired 0 past := by
  obtain ⟨past, s, run, tested, ends⟩ := run_of_exec noWrap step (boot 1)
    (timedWait 5 ++ cpuSteps 0 6 ++ [.clock 10, .timer 0 true] ++ yieldToMain)
    (fun s => event s (.cpu 0) 0 = .finish && noWrap s (.cpu 0) &&
      (step s (.cpu 0)).any fun s' => (s'.pc 0).isUser 0 (-110)) (by decide)
  simp only [Bool.and_eq_true, decide_eq_true_eq] at ends
  have returns := finish_returns ends.1.1 ends.2
  obtain ⟨s', taken, _⟩ := (Option.any_eq_true _ _).mp ends.2
  have fresh : ∀ e ∈ (s, .cpu 0) :: past, NoWrap e.1 e.2 := by
    intro e member
    rcases mem_cons.mp member with same | earlier
    · rw [same]
      exact noWrap_sound ends.1.2
    · exact noWrap_sound (tested e earlier)
  have honest := futex_timeouts_honest (n := 1) (by decide) (by decide) (.snoc run taken) fresh
  exact ⟨past, s, run, returns, honest.early [] _ past 0 rfl returns⟩

def oversleeps (k : Kernel) (addr deadline : Nat) : Bool :=
  timer k 0 = some ⟨some addr, deadline, false⟩ && decide (deadline ≤ k.now)

def Pc.beginsRescues : Pc → Bool
  | .rescueScan 0 _ => true
  | _ => false

def Pc.endsRescues : Pc → Bool
  | .yieldQueue _ => true
  | _ => false

theorem deadline_zero_run : ∃ upto e earlier s,
    Run step (boot 1) (upto ++ e :: earlier) s ∧ Slept 0 (some 0) earlier ∧
      waitsOn e.1.kernel 0 = some 4096 ∧ e.2 = .timer 0 true ∧
      (∀ x ∈ upto, event x.1 x.2 0 = .other ∨ event x.1 x.2 0 = .rescue) ∧
      Returns 0 0 (s, .cpu 0) := by
  obtain ⟨since, m, before, w, run, sleeps, _, quiet, ticks⟩ := run_through (fun _ _ => true)
    undisturbed step (boot 1) (timedWait 0) (.cpu 0) (cpuSteps 0 5 ++ [.clock 5000000000])
    (fun m => event m (.cpu 0) 0 = .sleep 4096 (some 0))
    (fun w => waitsOn w.kernel 0 = some 4096 && (step w (.timer 0 true)).any fun mid =>
      (exec undisturbed step mid yieldToMain).any fun s => event s (.cpu 0) 0 = .finish &&
        (step s (.cpu 0)).any fun s' => (s'.pc 0).isUser 0 0) (by decide)
  simp only [Bool.and_eq_true, decide_eq_true_eq] at sleeps ticks
  obtain ⟨upto, s, all, tested, ends⟩ := run_on run ticks.2
  simp only [Bool.and_eq_true, decide_eq_true_eq] at ends
  refine ⟨upto, (w, .timer 0 true), _, s, all, ⟨since, (m, .cpu 0), before, 4096, rfl, sleeps, ?_⟩,
    ticks.1, rfl, fun x member => (undisturbed_event (tested x member)).2,
    finish_returns ends.1 ends.2⟩
  intro x member addr deadline same
  rcases (undisturbed_event (quiet x member)).2 with other | rescue
  · rw [other] at same
    cases same
  · rw [rescue] at same
    cases same

theorem address_zero_run : ∃ upto w earlier s,
    Run step (boot 1) (upto ++ (w, .timer 0 true) :: earlier) s ∧
      oversleeps w.kernel 0 5 = true ∧ (∃ x ∈ upto, (x.1.pc 0).beginsRescues = true) ∧
      (s.pc 0).endsRescues = true ∧ oversleeps s.kernel 0 5 = true := by
  obtain ⟨_, w, earlier, mid, first, sleeps, _, _, rest⟩ := run_through (fun _ _ => true)
    (fun _ _ => true) step (boot 1)
    ([.enableBlockingFutex, .clock 1] ++ cloneSteps ++
      ((List.range 8).map fun i => callSteps 0 (.futexWake (4160 + 64 * i) 1) 37).flatten ++
      callSteps 0 (.futexWaitUntil 0 0 (some 5)) 11 ++ [.clock 10]) (.timer 0 true)
    [.call 0 .yieldCurrent] (fun w => oversleeps w.kernel 0 5)
    (fun mid => (mid.pc 0).beginsRescues && (step mid (.cpu 0)).any fun next =>
      (exec (fun _ _ => true) step next (cpuSteps 0 32)).any fun s =>
        (s.pc 0).endsRescues && oversleeps s.kernel 0 5) (by decide +kernel)
  rw [Bool.and_eq_true] at rest
  obtain ⟨scan, s, run, _, ends⟩ := run_on first rest.2
  rw [Bool.and_eq_true] at ends
  refine ⟨scan ++ (mid, .cpu 0) :: _, w, earlier, s, by simpa using run, sleeps, ?_, ends⟩
  exact ⟨(mid, .cpu 0), mem_append_right _ mem_cons_self, rest.1⟩

/-- A deadline of zero is no deadline, and the address zero is no address. -/
theorem zero_never_times_out :
    (∃ upto e earlier s, Run step (boot 1) (upto ++ e :: earlier) s ∧ Slept 0 (some 0) earlier ∧
      waitsOn e.1.kernel 0 = some 4096 ∧ e.2 = .timer 0 true ∧
      (∀ x ∈ upto, event x.1 x.2 0 = .other ∨ event x.1 x.2 0 = .rescue) ∧
      Returns 0 0 (s, .cpu 0)) ∧
    ∃ upto w earlier s, Run step (boot 1) (upto ++ (w, .timer 0 true) :: earlier) s ∧
      oversleeps w.kernel 0 5 = true ∧ (∃ x ∈ upto, (x.1.pc 0).beginsRescues = true) ∧
      (s.pc 0).endsRescues = true ∧ oversleeps s.kernel 0 5 = true :=
  ⟨deadline_zero_run, address_zero_run⟩

end TynKernel.Sched
