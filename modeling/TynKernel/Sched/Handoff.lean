import TynKernel.Sched.Locks
import TynKernel.Sched.Placement

/-!
The bucket lock of a wait that blocks. The waiter switches away with the lock held, and
whatever runs next on its CPU drops it.
-/
namespace TynKernel.Sched
open List Ownership RunQueues Runs

def HandsOver (c b : Nat) (s : System) (a : Action) : Prop :=
  a = .cpu c ∧ ∃ t addr next, s.pc c = .waitHandoff t addr next ∧ futexBucket addr = b

def placesOf (c : Nat) : List (System × Action) → List Pc
  | [] => []
  | (s, a) :: past => if a = .cpu c then placesOf c past ++ [s.pc c] else placesOf c past

inductive Handed (c b : Nat) (s : System) : List Pc → Prop where
  | leaving (t : Nat) (next : Option Nat) (here : s.pc c = .waitSwitch t next)
      (owed : s.kernel.pendingUnlock c = some b) : Handed c b s []
  | arrived (t : Nat) (next : Option Nat) (a : After) (here : s.pc c = .release a)
      (owed : s.kernel.pendingUnlock c = some b) : Handed c b s [.waitSwitch t next]
  | taken (t : Nat) (next : Option Nat) (a : After) (here : s.pc c = .forceUnlock b a) :
      Handed c b s [.waitSwitch t next, .release a]
  | dropped (t : Nat) (next : Option Nat) (a : After) (more : List Pc) :
      Handed c b s ([.waitSwitch t next, .release a, .forceUnlock b a] ++ more)

variable {t c b : Nat} {s s' : System} {a : Action} {l : List Pc}

theorem resume_releases {r : Thread} (sane : r.Sane nextTid numCpus t)
    (alive : r.state ≠ .dead) : ∃ a, r.ctx.pc t = .release a := by
  have fits := sane.ctx
  cases ctx : r.ctx with
  | child | yielded y | waited => exact ⟨_, rfl⟩
  | exited =>
    rw [ctx] at fits
    exact absurd fits alive

theorem idleResume_releases (x : IdleResume) : ∃ a, x.pc = .release a := by
  cases x <;> exact ⟨_, rfl⟩

theorem switch_arrives {next : Option Nat} {k' : Kernel} {p' : Pc} (sound : Sound s)
    (here : s.pc c = .waitSwitch t next) (effect : Effect s.kernel c (.waitSwitch t next) k' p') :
    (∃ a, p' = .release a) ∧ k'.pendingUnlock = s.kernel.pendingUnlock := by
  cases effect with
  | quiet go =>
    cases go with
    | sleepMissing => exact ⟨⟨_, rfl⟩, rfl⟩
  | sleepSwitch _ next r n get other =>
    obtain ⟨sane, alive⟩ := saved_sane (c := c) .waited sound get trivial (by rw [here]; rfl) other
    exact ⟨resume_releases sane alive, rfl⟩
  | sleepIdle => exact ⟨idleResume_releases _, rfl⟩

theorem handed_elsewhere (locked : Locked s) (handed : Handed c b s l) (taken : step s a = some s')
    (elsewhere : a ≠ .cpu c) :
    Handed c b s' l := by
  have slot := slot_stays locked taken elsewhere
  have stays : (s.pc c).Steady → s'.pc c = s.pc c :=
    fun steady => steady_stays steady taken elsewhere
  cases handed with
  | leaving t next here owed =>
    refine .leaving t next ((stays ?_).trans here) (slot.trans owed)
    rw [here]
    exact ⟨rfl, fun _ _ h => nomatch h⟩
  | arrived t next x here owed =>
    refine .arrived t next x ((stays ?_).trans here) (slot.trans owed)
    rw [here]
    exact ⟨rfl, fun _ _ h => nomatch h⟩
  | taken t next x here =>
    refine .taken t next x ((stays ?_).trans here)
    rw [here]
    exact ⟨rfl, fun _ _ h => nomatch h⟩
  | dropped t next x more => exact .dropped t next x more

theorem handed_own (sound : Sound s) (handed : Handed c b s l) (taken : step s (.cpu c) = some s') :
    Handed c b s' (l ++ [s.pc c]) := by
  obtain ⟨k, p, rfl, effect⟩ := step_own taken
  cases handed with
  | leaving t next here owed =>
    rw [here] at effect
    obtain ⟨⟨x, rfl⟩, slots⟩ := switch_arrives sound here effect
    rw [here]
    exact .arrived t next x (goto_here ..) ((congrFun slots c).trans owed)
  | arrived t next x here owed =>
    rw [here] at effect
    rw [here]
    cases effect with
    | quiet go =>
      cases go with
      | nothingOwed _ empty => cases empty.symm.trans owed
    | takeOwed _ b' owed' =>
      cases owed'.symm.trans owed
      exact .taken t next x (goto_here ..)
  | taken t next x here =>
    rw [here]
    exact .dropped t next x []
  | dropped t next x =>
    exact .dropped t next x _

theorem run_handed (sound : Sound start) (locked : Locked start) (handed : Handed c b start [])
    (run : Run step start later s) (fresh : ∀ e ∈ later, NoWrap e.1 e.2) :
    Handed c b s (placesOf c later) := by
  induction run with
  | nil => exact handed
  | @snoc past s s' a before taken ih =>
    have freshBefore : ∀ e ∈ past, NoWrap e.1 e.2 :=
      fun e member => fresh e (mem_cons_of_mem _ member)
    have soundHere : Sound s :=
      run_invariant_of NoWrap Sound sound (fun _ _ _ i ok t => step_sound i ok t) before freshBefore
    have lockedHere : Locked s :=
      run_invariant Locked locked (fun _ _ _ i t => step_locked i t) before
    simp only [placesOf]
    split
    · rename_i own
      subst own
      exact handed_own soundHere (ih freshBefore) taken
    · rename_i elsewhere
      exact handed_elsewhere lockedHere (ih freshBefore) taken elsewhere

theorem handed_prefix (handed : Handed c b s l) :
    ∃ t next a, l.take 3 <+: [.waitSwitch t next, .release a, .forceUnlock b a] := by
  cases handed with
  | leaving t next => exact ⟨t, next, .idleTop, nil_prefix⟩
  | arrived t next a => exact ⟨t, next, a, [.release a, .forceUnlock b a], rfl⟩
  | taken t next a => exact ⟨t, next, a, [.forceUnlock b a], rfl⟩
  | dropped t next a => exact ⟨t, next, a, prefix_rfl⟩

theorem handsOver_begins (hands : HandsOver c b s a) (taken : step s a = some s') :
    Handed c b s' [] := by
  obtain ⟨rfl, t, addr, next, here, rfl⟩ := hands
  obtain ⟨k, p, rfl, effect⟩ := step_own taken
  rw [here] at effect
  cases effect with
  | quiet go => cases go
  | handoff => exact .leaving t next (goto_here ..) (Function.update_self _ _ _)

theorem owed_progress (sound : Sound s) (locked : Locked s)
    (owed : s.kernel.pendingUnlock c = some b) :
    (cpuStep s.kernel c (s.pc c)).isSome = true ∧
      ((∃ t next, s.pc c = .waitSwitch t next) ∨ ∃ a, s.pc c = .release a) := by
  have may : (s.pc c).mayOwe = true := by
    cases debt : (s.pc c).mayOwe with
    | true => rfl
    | false => cases (locked.clean c debt).symm.trans owed
  have fits := sound.fits c
  cases here : s.pc c with
  | waitSwitch t next =>
    refine ⟨?_, .inl ⟨t, next, rfl⟩⟩
    cases next with
    | none =>
      simp only [cpuStep]
      split <;> rfl
    | some next =>
      simp only [cpuStep, Kernel.switchTo, Kernel.setThread]
      split
      · rename_i r n get other
        by_cases same : next = t
        · subst same
          simp
        · simp [Function.update_of_ne same, other]
      · rfl
  | release a =>
    refine ⟨?_, .inr ⟨a, rfl⟩⟩
    simp only [cpuStep]
    split <;> rfl
  | exitLoop =>
    rw [here] at fits
    exact fits.elim
  | _ =>
    rw [here] at may
    cases may

/-- Every held bucket lock has exactly one owner. After CPU c hands over bucket b, its next
    three steps are the switch, the release of its slot and force_unlock of b. A CPU with a
    filled slot is on this way and can go on. And a lock that is being released is held by
    nobody else. -/
theorem bucket_locks_handed_over_exactly {n : Nat} {past : List (System × Action)} {s : System}
    (some_cpu : 0 < n) (few : n ≤ maxCpus) (run : Run step (boot n) past s)
    (fresh : ∀ e ∈ past, NoWrap e.1 e.2) :
    (∀ b, s.kernel.futexLock b = true ↔ ∃! o, owns s.buckets s.kernel.pendingUnlock o = some b) ∧
      (∀ c b later e earlier, past = later ++ e :: earlier → HandsOver c b e.1 e.2 →
        ∃ t next a, (placesOf c later).take 3 <+: [.waitSwitch t next, .release a, .forceUnlock b a]) ∧
      (∀ c b, s.kernel.pendingUnlock c = some b → (cpuStep s.kernel c (s.pc c)).isSome = true ∧
        ((∃ t next, s.pc c = .waitSwitch t next) ∨ ∃ a, s.pc c = .release a)) ∧
      ∀ c b a, s.pc c = .forceUnlock b a ∨ (s.pc c = .release a ∧ s.kernel.pendingUnlock c = some b) →
        s.kernel.futexLock b = true ∧
          ∀ d, d ≠ c → (s.pc d).bucket ≠ some b ∧ s.kernel.pendingUnlock d ≠ some b := by
  have locked := run_locked run
  have sound := run_sound some_cpu few run fresh
  refine ⟨?_, ?_, fun c b owed => owed_progress sound locked owed, ?_⟩
  · intro b
    constructor
    · intro held
      obtain ⟨o, own⟩ := (locked.buckets.held_iff b).mp held
      exact ⟨o, own, fun o' own' => locked.buckets.unique o' o b own' own⟩
    · rintro ⟨o, own, _⟩
      exact (locked.buckets.held_iff b).mpr ⟨o, own⟩
  · intro c b later e earlier split hands
    subst split
    obtain ⟨mid, before, taken, after⟩ := run_at run
    have freshEarlier : ∀ x ∈ earlier, NoWrap x.1 x.2 :=
      fun x member => fresh x (mem_append_right _ (mem_cons_of_mem _ member))
    have soundMid := step_sound (run_sound some_cpu few before freshEarlier)
      (fresh e (mem_append_right _ mem_cons_self)) taken
    have lockedMid := step_locked (run_locked before) taken
    exact handed_prefix (run_handed soundMid lockedMid (handsOver_begins hands taken) after
      (fun x member => fresh x (mem_append_left _ member)))
  · intro c b a releasing
    obtain ⟨o, own, mine⟩ : ∃ o, owns s.buckets s.kernel.pendingUnlock o = some b ∧
        (o = .sect c ∨ o = .slot c) := by
      rcases releasing with here | ⟨here, owed⟩
      · exact ⟨.sect c, congrArg Pc.bucket here, .inl rfl⟩
      · exact ⟨.slot c, owed, .inr rfl⟩
    refine ⟨(locked.buckets.held_iff b).mpr ⟨o, own⟩, fun d other => ⟨?_, ?_⟩⟩
    · intro inside
      have same := locked.buckets.unique o (.sect d) b own inside
      rcases mine with rfl | rfl
      · cases same
        exact other rfl
      · cases same
    · intro owed
      have same := locked.buckets.unique o (.slot d) b own owed
      rcases mine with rfl | rfl
      · cases same
      · cases same
        exact other rfl

def waitSteps (c : Nat) : List Action := callSteps c (.futexWaitUntil 4096 0 none) 11

def blockOnce : List Action :=
  .enableBlockingFutex :: cloneSteps ++ (waitSteps 0).take 10

theorem blocked_main_hands_over :
    ∃ past s, Run step (boot 1) past s ∧ s.kernel.pendingUnlock 0 = some 0 ∧
      s.kernel.futexLock 0 = true ∧ (∃! o, owns s.buckets s.kernel.pendingUnlock o = some 0) ∧
      (cpuStep s.kernel 0 (s.pc 0)).isSome = true := by
  obtain ⟨past, s, run, fresh, owed⟩ := run_of_exec noWrap step (boot 1) blockOnce
    (fun s => decide (s.kernel.pendingUnlock 0 = some 0 ∧ s.kernel.futexLock 0 = true))
    (by decide)
  obtain ⟨owed, held⟩ := of_decide_eq_true owed
  obtain ⟨owner, _, debt, _⟩ := bucket_locks_handed_over_exactly (n := 1) (by decide) (by decide) run
    (fun e member => noWrap_sound (fresh e member))
  exact ⟨past, s, run, owed, held, (owner 0).mp held, (debt 0 0 owed).1⟩

/-- After the counter has wrapped around, thread 0 is created again while main runs, and main
    exits: the dead thread 0 is in the queue. The 31 others block one after the other. -/
def resumeDead : List Action :=
  cloneSteps ++ cloneSteps ++ callSteps 0 .threadExit 42 ++
    (List.replicate 30 (waitSteps 0)).flatten ++ (waitSteps 0).take 10

/-- The lock of the last one is handed to a context that never releases it. -/
theorem lock_handed_to_dead_thread :
    ∃ past s, Run step (boot 1) past s ∧ s.kernel.pendingUnlock 0 = some 0 ∧
      s.kernel.futexLock 0 = true ∧ s.pc 0 = .exitLoop 0 := by
  obtain ⟨past, s, run, stuck⟩ := run_across_wrap 1 0 (.enableBlockingFutex :: fillTable) resumeDead
    (fun s => decide (s.kernel.pendingUnlock 0 = some 0 ∧ s.kernel.futexLock 0 = true) &&
      match s.pc 0 with
      | .exitLoop 0 => true
      | _ => false) (by decide +kernel)
  simp only [Bool.and_eq_true, decide_eq_true_eq] at stuck
  refine ⟨past, s, run, stuck.1.1, stuck.1.2, ?_⟩
  have here := stuck.2
  split at here
  · assumption
  · cases here

def Pc.rests : Pc → Bool
  | .user _ _ | .apHalted | .idleHalted => true
  | _ => false

def Pc.wantsBucket : Pc → Option Nat
  | .rescueLock _ addr _ | .waitLock _ addr _ _ | .wakeLock _ addr _ => some (futexBucket addr)
  | _ => none

def Pc.wantsThreads : Pc → Bool
  | .rescueThreadLock _ _ _ | .wakeThreadLock _ _ _ | .spawnInsert _ _ _ => true
  | _ => false

/-- CPU c is about to take a lock that CPU d holds, in a section or in its slot. -/
def System.WaitsFor (s : System) (c d : Nat) : Prop :=
  (∃ b, (s.pc c).wantsBucket = some b ∧
    ((s.pc d).bucket = some b ∨ s.kernel.pendingUnlock d = some b)) ∨
  (s.pc c).wantsThreads = true ∧ (s.pc d).threadSection = some ()

/-- A CPU can take its next step, or waits for one of which this is true. -/
inductive System.GoesOn (s : System) : Nat → Prop where
  | now {c : Nat} (goes : (step s (.cpu c)).isSome = true) : GoesOn s c
  | later {c d : Nat} (waits : s.WaitsFor c d) (goes : GoesOn s d) : GoesOn s c

variable {k : Kernel} {p : Pc}

theorem switchTo_isSome (t : Nat) (r : Thread) (ctx : Resume) {next : Nat} {n : Thread}
    (get : k.threads next = some n) : (k.switchTo t r ctx next).isSome = true := by
  simp only [Kernel.switchTo, Kernel.setThread, Option.isSome_map]
  by_cases same : next = t
  · simp [same]
  · simp [Function.update_of_ne same, get]

theorem cpuStep_progress (fits : p.Fits k) (works : p.rests = false) :
    (cpuStep k c p).isSome = true ∨ (∃ b, p.wantsBucket = some b ∧ k.futexLock b = true) ∨
      p.wantsThreads = true ∧ k.threadLock = true := by
  cases p with
  | user | apHalted | idleHalted => cases works
  | exitLoop => exact fits.elim
  | exitSwitch t =>
    obtain ⟨r, get, _⟩ := fits
    exact .inl (by simp [cpuStep, get])
  | rescueLock | waitLock | wakeLock =>
    simp only [cpuStep]
    split
    · exact .inr (.inl ⟨_, rfl, ‹_›⟩)
    · exact .inl rfl
  | rescueThreadLock | wakeThreadLock | spawnInsert =>
    simp only [cpuStep]
    split
    · exact .inr (.inr ⟨rfl, ‹_›⟩)
    · exact .inl rfl
  | yieldSwitch y cur next =>
    simp only [cpuStep]
    split
    · exact .inl (switchTo_isSome _ _ _ ‹_›)
    · exact .inl rfl
  | waitSwitch t next =>
    cases next <;> simp only [cpuStep] <;> split
    · exact .inl rfl
    · exact .inl rfl
    · exact .inl (switchTo_isSome _ _ _ ‹_›)
    · exact .inl rfl
  | _ =>
    simp only [cpuStep]
    refine .inl ?_
    repeat' split
    all_goals rfl

theorem threadSection_order (inside : p.threadSection = some ()) :
    p.rests = false ∧ p.wantsBucket = none ∧ p.wantsThreads = false := by
  cases p <;> cases inside <;> exact ⟨rfl, rfl, rfl⟩

theorem bucket_order (inside : p.bucket = some b) : p.rests = false ∧ p.wantsBucket = none := by
  cases p <;> cases inside <;> exact ⟨rfl, rfl⟩

section Progress
variable {n : Nat} (locked : Locked s) (online : Online n s)
include locked online

theorem waits_goesOn (waits : s.WaitsFor c d)
    (next : (cpuStep s.kernel d (s.pc d)).isSome = true ∨ s.GoesOn d) : s.GoesOn c := by
  refine .later waits (next.elim (fun goes => .now ?_) id)
  have bound : d < s.kernel.numCpus := by
    rw [online.numCpus]
    by_contra beyond
    have here := online.offline d (Nat.le_of_not_lt beyond)
    have nothing := locked.clean d (by rw [here]; rfl)
    rw [System.WaitsFor, here, nothing] at waits
    simp [Pc.bucket, Pc.threadSection] at waits
  simpa [step, bound] using goes

variable (sound : Sound s)
include sound

theorem threadLock_goesOn (wants : (s.pc c).wantsThreads = true)
    (held : s.kernel.threadLock = true) : s.GoesOn c := by
  obtain ⟨d | d, own⟩ := (locked.threads.held_iff ()).mp held
  · obtain ⟨works, noBucket, noThreads⟩ := threadSection_order own
    refine waits_goesOn locked online (.inr ⟨wants, own⟩) (.inl ?_)
    simpa [noBucket, noThreads] using cpuStep_progress (c := d) (sound.fits d) works
  · cases own

theorem bucket_goesOn (wants : (s.pc c).wantsBucket = some b)
    (held : s.kernel.futexLock b = true) : s.GoesOn c := by
  obtain ⟨d | d, own⟩ := (locked.buckets.held_iff b).mp held
  · obtain ⟨works, noBucket⟩ := bucket_order own
    refine waits_goesOn locked online (.inl ⟨b, wants, .inl own⟩) ?_
    rcases cpuStep_progress (c := d) (sound.fits d) works with goes | ⟨_, other, _⟩ | ⟨again, taken⟩
    · exact .inl goes
    · cases noBucket.symm.trans other
    · exact .inr (threadLock_goesOn locked online sound again taken)
  · exact waits_goesOn locked online (.inl ⟨b, wants, .inr own⟩)
      (.inl (owed_progress sound locked own).1)

end Progress

/-- The scheduler's locks never deadlock: in every reachable state a CPU at work in the
    scheduler can take its next step, or a chain of waits leads from it to one that can. -/
theorem lock_waits_end {n : Nat} {past : List (System × Action)} (few : n ≤ maxCpus)
    (run : Run step (boot n) past s) (fresh : ∀ e ∈ past, NoWrap e.1 e.2) (bound : c < n)
    (works : (s.pc c).rests = false) : s.GoesOn c := by
  have some_cpu : 0 < n := Nat.zero_lt_of_lt bound
  have sound := run_sound some_cpu few run fresh
  have locked := run_locked run
  have online := run_online some_cpu run
  rcases cpuStep_progress (c := c) (sound.fits c) works with goes | ⟨b, wants, held⟩ | ⟨wants, held⟩
  · rw [← online.numCpus] at bound
    exact .now (by simpa [step, bound] using goes)
  · exact bucket_goesOn locked online sound wants held
  · exact threadLock_goesOn locked online sound wants held

theorem second_waker_waits :
    ∃ past s, Run step (boot 2) past s ∧ step s (.cpu 1) = none ∧ ∃ d, s.WaitsFor 1 d := by
  obtain ⟨past, s, run, fresh, there⟩ := run_of_exec noWrap step (boot 2)
    (callSteps 0 (.spawn plainClone) 9 ++ cpuSteps 1 1 ++ interruptSteps 1 35 ++
      callSteps 0 (.futexWake 4096 1) 1 ++ [.call 1 (.futexWake 4096 1)])
    (fun s => (step s (.cpu 1)).isNone && !(s.pc 1).rests) (by decide +kernel)
  simp only [Bool.and_eq_true, Option.isNone_iff_eq_none, Bool.not_eq_true'] at there
  obtain ⟨stuck, works⟩ := there
  cases lock_waits_end (n := 2) (by decide) run (fun e member => noWrap_sound (fresh e member))
    (by decide) works with
  | now goes =>
    rw [stuck] at goes
    cases goes
  | later waits => exact ⟨past, s, run, stuck, _, waits⟩

end TynKernel.Sched
