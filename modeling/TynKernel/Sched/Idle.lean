import TynKernel.Sched.Handoff

/-!
Whether a CPU sleeps on work. cpu_idle_loop checks its queue with interrupts off and halts in
the instruction that turns them on. ap_main's loop halts without a check, with interrupts on.
-/
namespace TynKernel.Sched
open Function RunQueues Runs
variable {p p' : Pc} {s s' : System} {c target n : Nat} {k' k : Kernel} {tids : List Nat}
  {a : Action}

def Pc.halted : Pc → Bool
  | .apHalted | .idleHalted | .exitLoop _ => true
  | _ => false

def Pc.dozes : Pc → Bool
  | .apHlt | .apHalted | .idleHlt | .idleHalted => true
  | _ => false

def Pc.announces : Pc → Option Nat
  | .rescueIpi _ _ target _ | .wakeIpi _ _ _ _ _ target | .spawnIpi _ _ target => some target
  | _ => none

def Pc.after : Pc → Option After
  | .release a | .forceUnlock _ a | .unlock _ a | .unlockThreads _ a => some a
  | _ => none

def Awaited (s : System) (a : Action) : Prop :=
  ∀ c, a = .interrupt c → s.pc c = .apHlt → s.kernel.queue c = []

def Noticed (s : System) (c : Nat) : Prop :=
  s.kernel.queue c ≠ [] → s.kernel.ipi c = true ∨ ∃ d, (s.pc d).announces = some c

structure Watched (s : System) : Prop where
  sound : Sound s
  after : ∀ c, (s.pc c).after ≠ some (.back .apMain)
  dozing : ∀ c, (s.pc c).dozes = true → Noticed s c

theorem entry_dozes (entry : p.entry = true) (dozes : p.dozes = true) : p = .apHlt := by
  cases p with
  | apHlt => rfl
  | user | release | idleCli | idleReset | rescueScan | yieldQueue | checkFlag | waitFinish |
    exitLoop => cases dozes
  | _ => cases entry

theorem dozes_view (dozes : p.dozes = true) :
    p.current = none ∧ p.announces = none ∧ p.after = none := by
  cases p with
  | apHlt | apHalted | idleHlt | idleHalted => exact ⟨rfl, rfl, rfl⟩
  | _ => cases dozes

theorem dozing_idle (sound : Sound s) (dozes : (s.pc c).dozes = true) :
    s.kernel.idle c = true := by
  rw [sound.idle c, sound.current c, (dozes_view dozes).1]
  rfl

theorem after_apMain {a : After} (here : a.pc = .apHlt) : a = .back .apMain := by
  cases a with
  | back y =>
    cases y with
    | apMain => rfl
    | user => cases here
  | rescues | yield | idleTop | idleReset | waitFinish => cases here

theorem after_none (a : After) : a.pc.after = none := by
  cases a with
  | back y => cases y <;> rfl
  | rescues | yield | idleTop | idleReset | waitFinish => rfl

theorem caller_after (y : Caller) : y.pc.after = none := by cases y <;> rfl

theorem rescueCaller_after (r : RescueCaller) : r.pc.after = none := by cases r <;> rfl

theorem resume_after {r : Thread} (sane : r.Sane nextTid numCpus t)
    (alive : r.state ≠ .dead) : (r.ctx.pc t).after ≠ some (.back .apMain) := by
  have fits := sane.ctx
  cases ctx : r.ctx with
  | child | waited => exact fun no => nomatch no
  | yielded =>
    rw [ctx] at fits
    obtain ⟨rax, rfl⟩ := fits
    exact fun no => nomatch no
  | exited =>
    rw [ctx] at fits
    exact absurd fits alive

theorem effect_after {s : System} {c : Nat} {p : Pc} {k' : Kernel} {p' : Pc} (watched : Watched s)
    (here : s.pc c = p) (effect : Effect s.kernel c p k' p') :
    p'.after ≠ some (.back .apMain) := by
  have before := watched.after c
  rw [here] at before
  have fresh : p'.after = none → p'.after ≠ some (.back .apMain) := by
    intro none
    rw [none]
    exact fun no => nomatch no
  cases effect with
  | quiet go =>
    cases go with
    | nothingOwed a => exact fresh (after_none a)
    | scanned i r => exact fresh (rescueCaller_after r)
    | yieldNone y empty | switchMissing y cur next missing => exact fresh (caller_after y)
    | _ => exact fun no => nomatch no
  | takeOwed a b owed | unlockThreads b a => exact before
  | forceUnlock b a | unlock b a => exact fresh (after_none a)
  | install next r get =>
    obtain ⟨r', get', _, _, alive, _⟩ :=
      sound_running (c := c) (t := next) watched.sound (by rw [here]; rfl)
    cases get.symm.trans get'
    exact resume_after (watched.sound.record next r get) alive
  | resume y next rest r vacant head get =>
    obtain ⟨r', get', _, _, alive⟩ :=
      sound_queued (c := c) (t := next) watched.sound (by simp [head])
    cases get.symm.trans get'
    exact resume_after (watched.sound.record next r get) alive
  | resumeMissing y => exact fresh (caller_after y)
  | switch y cur next r n get other =>
    have fits := watched.sound.fits c
    rw [here] at fits
    obtain ⟨sane, alive⟩ :=
      saved_sane (c := c) (.yielded y) watched.sound get fits.1 (by rw [here]; rfl) other
    exact resume_after sane alive
  | sleepSwitch tid next r n get other =>
    obtain ⟨sane, alive⟩ :=
      saved_sane (c := c) .waited watched.sound get trivial (by rw [here]; rfl) other
    exact resume_after sane alive
  | sleepIdle tid r get | exitIdle tid r get =>
    cases s.kernel.idleCtx c <;> exact fun no => nomatch no
  | _ => exact fun no => nomatch no

theorem effect_dozes (watched : Watched s) (here : s.pc c = p) (effect : Effect s.kernel c p k' p')
    (dozes : p'.dozes = true) :
    k'.queue c = [] ∨ (p.dozes = true ∧ k' = s.kernel) := by
  have before := watched.after c
  rw [here] at before
  have sound := watched.sound
  cases effect with
  | quiet go =>
    cases go with
    | nothingOwed a =>
      have apMain := after_apMain (entry_dozes (after_entry a) dozes)
      exact absurd (congrArg some apMain) before
    | apHlt | hlt => exact .inr ⟨rfl, rfl⟩
    | noWork empty | yieldNone y empty => exact .inl empty
    | scanned i r => cases r <;> cases dozes
    | switchMissing =>
      have fits := sound.fits c
      rw [here] at fits
      obtain ⟨⟨rax, rfl⟩, _⟩ := fits
      cases dozes
    | _ => cases dozes
  | forceUnlock b a | unlock b a =>
    have apMain := after_apMain (entry_dozes (after_entry a) dozes)
    exact absurd (congrArg some apMain) before
  | install next r get | resume y next rest r vacant head get =>
    cases ctx : r.ctx <;> rw [ctx] at dozes <;> cases dozes
  | resumeMissing y next rest vacant head missing =>
    obtain ⟨r, get, _⟩ := sound_queued (c := c) (t := next) sound (by simp [head])
    cases missing.symm.trans get
  | switch y cur next r n get other | sleepSwitch tid next r n get other =>
    cases ctx : n.ctx <;> rw [ctx] at dozes <;> cases dozes
  | sleepIdle tid r get | exitIdle tid r get =>
    cases ctx : s.kernel.idleCtx c <;> rw [ctx] at dozes <;> cases dozes
  | _ => cases dozes

/-- For another CPU c that is idle: a push to c is announced, an announced push becomes an
    interrupt, and a pending interrupt stays. -/
structure Tells (k : Kernel) (p : Pc) (k' : Kernel) (p' : Pc) (c : Nat) : Prop where
  queue : k'.queue c = k.queue c ∨ p'.announces = some c
  ipi : k.ipi c = true → k'.ipi c = true
  sent : p.announces = some c → k'.ipi c = true

theorem tells_queue (other : c ≠ d) (queue : k'.queue = update k.queue d tids)
    (ipi : k'.ipi = k.ipi) (silent : p.announces = none) : Tells k p k' p' c := by
  refine ⟨.inl ?_, fun set => ?_, fun said => ?_⟩
  · rw [queue, update_of_ne other]
  · rw [ipi]
    exact set
  · rw [silent] at said
    cases said

theorem tells_push (told : p'.announces = some target)
    (queue : k'.queue = update k.queue target tids) (ipi : k'.ipi = k.ipi)
    (silent : p.announces = none) : Tells k p k' p' c := by
  by_cases same : c = target
  · subst same
    refine ⟨.inr told, fun set => ?_, fun said => ?_⟩
    · rw [ipi]
      exact set
    · rw [silent] at said
      cases said
  · exact tells_queue same queue ipi silent

theorem sendIpi_tells (other : c ≠ d) (sent : k.sendIpi d target = { k with ipi := ipi })
    (target_of : p.announces = some target) : Tells k p { k with ipi := ipi } p' c := by
  rw [← sent]
  unfold Kernel.sendIpi
  refine ⟨.inl ?_, ?_, ?_⟩
  · split <;> rfl
  · intro pending
    split
    · simp only [update_apply]
      split
      · rfl
      · exact pending
    · exact pending
  · intro said
    cases target_of.symm.trans said
    rw [if_pos other]
    exact update_self _ _ _

theorem effect_tells (sound : Sound s) (other : c ≠ d) (idle : s.kernel.idle c = true)
    (effect : Effect s.kernel d p k' p') : Tells s.kernel p k' p' c := by
  have quiet : ∀ {q q' : Pc}, q.announces = none → Tells s.kernel q s.kernel q' c := by
    intro q q' silent
    refine ⟨.inl rfl, id, fun said => ?_⟩
    rw [silent] at said
    cases said
  cases effect with
  | quiet go => cases go <;> exact quiet rfl
  | ipiRescue i addr target r ipi sent | ipiWake t addr count i woken target ipi sent =>
    exact sendIpi_tells other sent rfl
  | ipiSpawn t tid best ipi sent =>
    by_cases same : s.kernel.idle best = true
    · rw [if_pos same] at sent
      exact sendIpi_tells other sent rfl
    rw [if_neg same] at sent
    rw [← sent]
    refine ⟨.inl rfl, id, fun said => ?_⟩
    cases said
    exact absurd idle same
  | rescue i addr r th get blocked threads queue rescued =>
    rw [← rescued, rescue_pushes sound get blocked]
    exact tells_push rfl rfl rfl rfl
  | wake t addr count i woken th get blocked same room | push t tid best =>
    exact tells_push rfl rfl rfl rfl
  | pop next rest head | resume y next rest r vacant head get
  | resumeMissing y next rest vacant head missing | rotate y cur next rest busy head
  | sleepNext => exact tells_queue other rfl rfl rfl
  | _ => exact ⟨.inl rfl, id, fun said => nomatch said⟩

theorem noticed_goto (noticed : Noticed s c) (tells : Tells s.kernel (s.pc d) k' p' c) :
    Noticed (s.goto d k' p') c := by
  intro work
  rcases tells.queue with same | told
  · rw [show (s.goto d k' p').kernel.queue c = k'.queue c from rfl, same] at work
    rcases noticed work with pending | ⟨e, said⟩
    · exact .inl (tells.ipi pending)
    by_cases mine : e = d
    · subst mine
      exact .inl (tells.sent said)
    · refine .inr ⟨e, ?_⟩
      rw [goto_other s k' p' mine]
      exact said
  · refine .inr ⟨d, ?_⟩
    rw [goto_here]
    exact told

theorem awake_dozes (dozes : p.awake.dozes = true) (unmasked : p.masked = false) :
    p = .apHlt := by
  cases p with
  | apHlt => rfl
  | idleHlt => cases unmasked
  | _ => cases dozes

theorem awake_silent (p : Pc) : p.awake.announces = p.announces ∧ p.awake.after = p.after := by
  cases p <;> exact ⟨rfl, rfl⟩

theorem enter_silent (t : Nat) (rax : Int) (f : Call) :
    (f.enter t rax).dozes = false ∧ (f.enter t rax).after = none := by
  cases f <;> exact ⟨rfl, rfl⟩

theorem step_after (watched : Watched s) (taken : step s a = some s') (c : Nat) :
    (s'.pc c).after ≠ some (.back .apMain) := by
  by_cases own : a = .cpu c
  · subst own
    obtain ⟨k, p, rfl, effect⟩ := step_own taken
    rw [goto_here]
    exact effect_after watched rfl effect
  · intro now
    exact watched.after c (step_keeps Pc.after (fun p => (awake_silent p).2)
      (fun t rax f => (enter_silent t rax f).2) taken own now)

theorem noticed_calm (noticed : Noticed s c) (queue : k'.queue = s.kernel.queue)
    (ipi : s.kernel.ipi c = true → k'.ipi c = true) (said : p'.announces = (s.pc d).announces) :
    Noticed (s.goto d k' p') c := by
  intro work
  rw [show (s.goto d k' p').kernel.queue c = k'.queue c from rfl, queue] at work
  rcases noticed work with pending | ⟨e, told⟩
  · exact .inl (ipi pending)
  refine .inr ⟨e, ?_⟩
  by_cases same : e = d
  · subst same
    rw [goto_here, said]
    exact told
  · rw [goto_other s k' p' same]
    exact told

theorem step_dozing (watched : Watched s) (awaited : Awaited s a) (taken : step s a = some s')
    (c : Nat) (dozes : (s'.pc c).dozes = true) : Noticed s' c := by
  cases step_cases taken with
  | @cpu d k p bound own =>
    have effect := cpuStep_effect own
    by_cases same : c = d
    · subst same
      rw [goto_here] at dozes
      rcases effect_dozes watched rfl effect dozes with empty | ⟨before, rfl⟩
      · exact fun work => absurd empty work
      · refine noticed_calm (watched.dozing c before) rfl id ?_
        rw [(dozes_view dozes).2.1, (dozes_view before).2.1]
    · rw [goto_other s k p same] at dozes
      exact noticed_goto (watched.dozing c dozes)
        (effect_tells watched.sound same (dozing_idle watched.sound dozes) effect)
  | @call d t rax f bound here =>
    by_cases same : c = d
    · subst same
      rw [goto_here, (enter_silent t rax f).1] at dozes
      cases dozes
    · rw [goto_other _ _ _ same] at dozes
      refine noticed_calm (watched.dozing c dozes) rfl id ?_
      rw [here]
      cases f <;> rfl
  | @interrupt d bound pending open_ =>
    by_cases same : c = d
    · subst same
      rw [goto_here] at dozes
      have here := awake_dozes dozes open_
      exact fun work => absurd (awaited c rfl here) work
    · rw [goto_other _ _ _ same] at dozes
      refine noticed_calm (watched.dozing c dozes) rfl (fun set => ?_) (awake_silent _).1
      exact (update_of_ne same _ _).trans set
  | @timer d watchdog bound open_ resched rescues blocking kernel =>
    rw [kernel] at dozes ⊢
    by_cases same : c = d
    · subst same
      rw [goto_here] at dozes
      have here := awake_dozes dozes open_
      refine noticed_calm (watched.dozing c ?_) rfl id (awake_silent _).1
      rw [here]
      rfl
    · rw [goto_other _ _ _ same] at dozes
      exact noticed_calm (watched.dozing c dozes) rfl id (awake_silent _).1
  | ambient => exact watched.dozing c dozes

theorem step_watched (watched : Watched s) (fresh : NoWrap s a) (awaited : Awaited s a)
    (taken : step s a = some s') : Watched s' :=
  ⟨step_sound watched.sound fresh taken, step_after watched taken,
    step_dozing watched awaited taken⟩

theorem watched_boot (some_cpu : 0 < n) (few : n ≤ maxCpus) : Watched (boot n) := by
  refine ⟨sound_boot some_cpu few, ?_, fun c _ work => absurd rfl work⟩
  intro c back
  have none : ((boot n).pc c).after = none := boot_place (P := fun p => p.after = none) rfl rfl n c
  cases none.symm.trans back

theorem run_watched (some_cpu : 0 < n) (few : n ≤ maxCpus) (run : Run step (boot n) past s)
    (fresh : ∀ e ∈ past, NoWrap e.1 e.2) (awaited : ∀ e ∈ past, Awaited e.1 e.2) : Watched s :=
  run_invariant_of (fun s a => NoWrap s a ∧ Awaited s a) Watched (watched_boot some_cpu few)
    (fun _ _ _ watched ok taken => step_watched watched ok.1 ok.2 taken) run
    (fun e member => ⟨fresh e member, awaited e member⟩)

/-- A CPU that is halted with work in its queue has a wake interrupt pending, or a producer is
    between its push to that queue and the interrupt. -/
theorem no_cpu_sleeps_on_work {n : Nat} {past : List (System × Action)} {s : System} {c : Nat}
    (some_cpu : 0 < n) (few : n ≤ maxCpus) (run : Run step (boot n) past s)
    (fresh : ∀ e ∈ past, NoWrap e.1 e.2) (awaited : ∀ e ∈ past, Awaited e.1 e.2)
    (halted : (s.pc c).halted = true) (work : s.kernel.queue c ≠ []) :
    s.kernel.ipi c = true ∨ ∃ d, (s.pc d).announces = some c := by
  have watched := run_watched some_cpu few run fresh awaited
  refine watched.dozing c ?_ work
  cases here : s.pc c with
  | apHalted | idleHalted => rfl
  | exitLoop =>
    have fits := watched.sound.fits c
    rw [here] at fits
    exact fits.elim
  | _ =>
    rw [here] at halted
    cases halted

def awaited (s : System) : Action → Bool
  | .interrupt c =>
    match s.pc c with
    | .apHlt => (s.kernel.queue c).isEmpty
    | _ => true
  | _ => true

theorem awaited_sound (test : awaited s a = true) : Awaited s a := by
  intro c same here
  subst same
  simp only [awaited, here, List.isEmpty_iff] at test
  exact test

theorem halted_cpu_has_interrupt :
    ∃ past s, Run step (boot 2) past s ∧ s.kernel.queue 1 = [1] ∧
      (s.kernel.ipi 1 = true ∨ ∃ d, (s.pc d).announces = some 1) := by
  obtain ⟨past, s, run, tests, asleep⟩ := run_of_exec (fun s a => noWrap s a && awaited s a) step
    (boot 2) (cpuSteps 1 1 ++ callSteps 0 (.spawn plainClone) 9)
    (fun s => decide ((s.pc 1).halted = true ∧ s.kernel.queue 1 = [1])) (by decide)
  obtain ⟨halted, work⟩ := of_decide_eq_true asleep
  simp only [Bool.and_eq_true] at tests
  refine ⟨past, s, run, work, no_cpu_sleeps_on_work (n := 2) (by decide) (by decide) run
    (fun e member => noWrap_sound (tests e member).1)
    (fun e member => awaited_sound (tests e member).2) halted ?_⟩
  rw [work]
  exact List.cons_ne_nil _ _

/-- Main creates a thread for CPU 1, the interrupt comes just before CPU 1 executes hlt. -/
theorem interrupt_lost_before_hlt :
    ∃ past s, Run step (boot 2) past s ∧ (s.pc 1).halted = true ∧ s.kernel.queue 1 = [1] ∧
      s.kernel.ipi 1 = false ∧ ∀ d, (s.pc d).announces ≠ some 1 := by
  obtain ⟨past, s, run, _, asleep⟩ := run_of_exec (fun _ _ => true) step (boot 2)
    (callSteps 0 (.spawn plainClone) 9 ++ interruptSteps 1 1)
    (fun s => decide ((s.pc 1).halted = true ∧ s.kernel.queue 1 = [1] ∧ s.kernel.ipi 1 = false ∧
      (s.pc 0).announces = none ∧ (s.pc 1).announces = none)) (by decide)
  obtain ⟨halted, work, none, main, other⟩ := of_decide_eq_true asleep
  refine ⟨past, s, run, halted, work, none, fun d said => ?_⟩
  have online := run_online (by decide) run
  match d with
  | 0 => cases main.symm.trans said
  | 1 => cases other.symm.trans said
  | d + 2 =>
    rw [online.offline (d + 2) (by omega)] at said
    cases said

end TynKernel.Sched
