import TynKernel.Lib.Ownership
import TynKernel.Sched.Effect

/-!
Who holds which lock. A CPU holds a futex bucket lock by its place in the code or, across a
context switch, by its slot of PENDING_UNLOCK_BUCKET.
-/
namespace TynKernel.Sched
open Function Ownership Runs

def Pc.bucket : Pc → Option Nat
  | .forceUnlock b _ | .unlock b _ | .unlockThreads b _ => some b
  | .rescueThreadLock _ addr _ | .rescueCommit _ addr _ | .rescueIpi _ addr _ _ =>
    some (futexBucket addr)
  | .waitConsume _ addr _ _ | .waitLoad _ addr _ _ | .waitValve _ addr _ _ |
    .waitMark _ addr _ _ | .waitQueue _ addr | .waitHandoff _ addr _ => some (futexBucket addr)
  | .wakeThreadLock _ addr _ | .wakeScan _ addr _ _ _ | .wakeIpi _ addr _ _ _ _ =>
    some (futexBucket addr)
  | _ => none

def Pc.threadSection : Pc → Option Unit
  | .unlockThreads _ _ | .rescueCommit _ _ _ | .rescueIpi _ _ _ _ => some ()
  | .wakeScan _ _ _ _ _ | .wakeIpi _ _ _ _ _ _ => some ()
  | .spawnScan _ _ _ _ _ _ _ | .spawnHome _ _ _ _ | .spawnPush _ _ _ | .spawnIpi _ _ _ |
    .spawnUnlock _ _ => some ()
  | _ => none

/-- Places at which a slot of PENDING_UNLOCK_BUCKET may be filled. A dead thread's context
    is one of them, since it would never look at the slot. -/
def Pc.mayOwe : Pc → Bool
  | .waitSwitch _ _ | .release _ | .exitLoop _ => true
  | _ => false

structure Pc.Clear (p : Pc) : Prop where
  bucket : p.bucket = none
  threads : p.threadSection = none

variable {k k' : Kernel} {c d b : Nat} {p p' : Pc} {s s' : System} {a : Action}

theorem caller_clear (y : Caller) : y.pc.Clear := by cases y <;> exact ⟨rfl, rfl⟩

theorem rescueCaller_clear (r : RescueCaller) : r.pc.Clear := by cases r <;> exact ⟨rfl, rfl⟩

theorem after_clear (a : After) : a.pc.Clear := by
  cases a with
  | back y => exact caller_clear y
  | rescues | yield | idleTop | idleReset | waitFinish => exact ⟨rfl, rfl⟩

theorem resume_clear (t : Nat) (x : Resume) : (x.pc t).Clear ∧ (x.pc t).mayOwe = true := by
  cases x <;> exact ⟨⟨rfl, rfl⟩, rfl⟩

theorem idleResume_clear (x : IdleResume) : x.pc.Clear ∧ x.pc.mayOwe = true := by
  cases x <;> exact ⟨⟨rfl, rfl⟩, rfl⟩

theorem enter_clear (t : Nat) (rax : Int) (f : Call) : (f.enter t rax).Clear := by
  cases f <;> exact ⟨rfl, rfl⟩

theorem quiet_sections (go : Quiet k c p p') :
    p'.bucket = p.bucket ∧ p'.threadSection = p.threadSection := by
  cases go with
  | nothingOwed a => exact ⟨(after_clear a).bucket, (after_clear a).threads⟩
  | scanned i r => exact ⟨(rescueCaller_clear r).bucket, (rescueCaller_clear r).threads⟩
  | yieldNone y empty | switchMissing y cur next missing =>
    exact ⟨(caller_clear y).bucket, (caller_clear y).threads⟩
  | _ => exact ⟨rfl, rfl⟩

structure LockChange (k : Kernel) (c : Nat) (p : Pc) (k' : Kernel) (p' : Pc) : Prop where
  bucket : Change k.futexLock k.pendingUnlock c p.bucket k'.futexLock k'.pendingUnlock p'.bucket
  threads : Change (fun _ : Unit => k.threadLock) (fun _ => none) c p.threadSection
    (fun _ => k'.threadLock) (fun _ => none) p'.threadSection

theorem lockChange_keep (locks : k'.futexLock = k.futexLock ∧ k'.pendingUnlock = k.pendingUnlock ∧
      k'.threadLock = k.threadLock)
    (sections : p'.bucket = p.bucket ∧ p'.threadSection = p.threadSection) :
    LockChange k c p k' p' := by
  constructor
  · rw [locks.1, locks.2.1, sections.1]
    exact .keep _
  · rw [locks.2.2, sections.2]
    exact .keep _

theorem lockChange_clear (locks : k'.futexLock = k.futexLock ∧ k'.pendingUnlock = k.pendingUnlock ∧
      k'.threadLock = k.threadLock) (before : p.Clear) (after : p'.Clear) :
    LockChange k c p k' p' :=
  lockChange_keep locks
    ⟨after.bucket.trans before.bucket.symm, after.threads.trans before.threads.symm⟩

theorem acquire_threadLock (free : k.threadLock = false) :
    Change (fun _ : Unit => k.threadLock) (fun _ => none) c none (fun _ => true) (fun _ => none)
      (some ()) := by
  have held : update (fun _ : Unit => k.threadLock) () true = fun _ => true := rfl
  exact .acquire () free

theorem release_threadLock (k : Kernel) (c : Nat) :
    Change (fun _ : Unit => k.threadLock) (fun _ => none) c (some ()) (fun _ => false)
      (fun _ => none) none := by
  have held : update (fun _ : Unit => k.threadLock) () false = fun _ => false := rfl
  exact .release ()

theorem effect_locks (clean : p.mayOwe = false → k.pendingUnlock c = none)
    (effect : Effect k c p k' p') :
    LockChange k c p k' p' := by
  cases effect with
  | quiet go => exact lockChange_keep ⟨rfl, rfl, rfl⟩ (quiet_sections go)
  | takeOwed a b owed => exact ⟨.take b owed, .keep _⟩
  | forceUnlock b a | unlock b a =>
    constructor
    · rw [(after_clear a).bucket]
      exact .release b
    · rw [(after_clear a).threads]
      exact .keep _
  | unlockThreads b a | unlockSpawn t tid => exact ⟨.keep _, release_threadLock k c⟩
  | lockRescue i addr r free | lockWait t addr val deadline free | lockWake t addr count free =>
    exact ⟨.acquire _ free, .keep _⟩
  | lockRescueThreads i addr r free | lockWakeThreads t addr count free | insert t tid req free =>
    exact ⟨.keep _, acquire_threadLock free⟩
  | handoff => exact ⟨.handoff _ (clean rfl), .keep _⟩
  | install next r get | resume y next rest r vacant head get =>
    exact lockChange_clear ⟨rfl, rfl, rfl⟩ ⟨rfl, rfl⟩ (resume_clear next r.ctx).1
  | resumeMissing y =>
    exact lockChange_clear ⟨rfl, rfl, rfl⟩ ⟨rfl, rfl⟩ (caller_clear y)
  | switch y cur next r n get other | sleepSwitch tid next r n get other =>
    exact lockChange_clear ⟨rfl, rfl, rfl⟩ ⟨rfl, rfl⟩ (resume_clear next n.ctx).1
  | sleepIdle tid r get | exitIdle tid r get =>
    exact lockChange_clear ⟨rfl, rfl, rfl⟩ ⟨rfl, rfl⟩ (idleResume_clear (k.idleCtx c)).1
  | _ => exact lockChange_keep ⟨rfl, rfl, rfl⟩ ⟨rfl, rfl⟩

theorem effect_owed (clean : p.mayOwe = false → k.pendingUnlock c = none)
    (effect : Effect k c p k' p') :
    (p'.mayOwe = false → k'.pendingUnlock c = none) ∧
      ∀ d, d ≠ c → k'.pendingUnlock d = k.pendingUnlock d := by
  cases effect with
  | quiet go =>
    refine ⟨?_, fun _ _ => rfl⟩
    cases go with
    | nothingOwed a empty => exact fun _ => empty
    | sleepMissing => exact fun no => nomatch no
    | _ => exact fun _ => clean rfl
  | takeOwed =>
    exact ⟨fun _ => update_self c _ _, fun d other => update_of_ne other _ _⟩
  | handoff =>
    exact ⟨(fun no => nomatch no), fun d other => update_of_ne other _ _⟩
  | sleepSwitch tid next r n =>
    refine ⟨fun no => ?_, fun _ _ => rfl⟩
    rw [(resume_clear next n.ctx).2] at no
    cases no
  | sleepIdle =>
    refine ⟨fun no => ?_, fun _ _ => rfl⟩
    rw [(idleResume_clear (k.idleCtx c)).2] at no
    cases no
  | _ => exact ⟨fun _ => clean rfl, fun _ _ => rfl⟩

def System.buckets (s : System) (c : Nat) : Option Nat := (s.pc c).bucket
def System.threadSections (s : System) (c : Nat) : Option Unit := (s.pc c).threadSection

/-- All locks are accounted for, and a slot is filled only between the end of a wait and the
    first action of the context that runs next. -/
structure Locked (s : System) : Prop where
  buckets : Exact s.kernel.futexLock (owns s.buckets s.kernel.pendingUnlock)
  threads : Exact (fun _ : Unit => s.kernel.threadLock) (owns s.threadSections (fun _ => none))
  clean : ∀ c, (s.pc c).mayOwe = false → s.kernel.pendingUnlock c = none

theorem locked_boot (n : Nat) : Locked (boot n) := by
  have noBucket : ∀ c, (boot n).buckets c = none :=
    boot_place (P := fun p => p.bucket = none) rfl rfl n
  have noThreads : ∀ c, (boot n).threadSections c = none :=
    boot_place (P := fun p => p.threadSection = none) rfl rfl n
  refine ⟨⟨?_, ?_⟩, ⟨?_, ?_⟩, fun _ _ => rfl⟩
  · intro b
    simp only [boot, Bool.false_eq_true, false_iff]
    rintro ⟨c | c, own⟩
    · cases (noBucket c).symm.trans own
    · cases own
  · rintro (c | c) o b own
    · cases (noBucket c).symm.trans own
    · cases own
  · intro b
    simp only [boot, Bool.false_eq_true, false_iff]
    rintro ⟨c | c, own⟩
    · cases (noThreads c).symm.trans own
    · cases own
  · rintro (c | c) o b own
    · cases (noThreads c).symm.trans own
    · cases own

theorem locked_goto (locked : Locked s) (change : LockChange s.kernel c (s.pc c) k' p')
    (own : p'.mayOwe = false → k'.pendingUnlock c = none)
    (others : ∀ d, d ≠ c → k'.pendingUnlock d = s.kernel.pendingUnlock d) :
    Locked (s.goto c k' p') := by
  have sections : (s.goto c k' p').buckets = update s.buckets c p'.bucket := by
    funext d
    simp only [System.buckets, System.goto, update_apply]
    split <;> rfl
  have threadSections :
      (s.goto c k' p').threadSections = update s.threadSections c p'.threadSection := by
    funext d
    simp only [System.threadSections, System.goto, update_apply]
    split <;> rfl
  refine ⟨?_, ?_, ?_⟩
  · rw [sections]
    exact exact_change locked.buckets rfl change.bucket
  · rw [threadSections]
    exact exact_change locked.threads rfl change.threads
  intro d noDebt
  simp only [System.goto, update_apply] at noDebt ⊢
  split at noDebt
  · rename_i same
    subst same
    exact own noDebt
  · rename_i other
    rw [others d other]
    exact locked.clean d noDebt

theorem awake_sections (p : Pc) :
    (p.awake.bucket = p.bucket ∧ p.awake.threadSection = p.threadSection) ∧
      p.awake.mayOwe = p.mayOwe := by
  cases p <;> exact ⟨⟨rfl, rfl⟩, rfl⟩

theorem step_locked (locked : Locked s) (taken : step s a = some s') :
    Locked s' := by
  cases step_cases taken with
  | @cpu c k p bound own =>
    have effect := cpuStep_effect own
    have owed := effect_owed (locked.clean c) effect
    exact locked_goto locked (effect_locks (locked.clean c) effect) owed.1 owed.2
  | @call c t rax f bound here =>
    refine locked_goto locked ?_ (fun _ => locked.clean c (by rw [here]; rfl)) (fun _ _ => rfl)
    rw [here]
    exact lockChange_clear ⟨rfl, rfl, rfl⟩ ⟨rfl, rfl⟩ (enter_clear t rax f)
  | @interrupt c =>
    have same := awake_sections (s.pc c)
    refine locked_goto locked (lockChange_keep ⟨rfl, rfl, rfl⟩ same.1) ?_ (fun _ _ => rfl)
    rw [same.2]
    exact locked.clean c
  | @timer c watchdog bound open_ resched rescues blocking kernel =>
    have same := awake_sections (s.pc c)
    rw [kernel]
    refine locked_goto locked (lockChange_keep ⟨rfl, rfl, rfl⟩ same.1) ?_ (fun _ _ => rfl)
    rw [same.2]
    exact locked.clean c
  | ambient => exact ⟨locked.buckets, locked.threads, locked.clean⟩

theorem slot_stays (locked : Locked s) (taken : step s a = some s') (elsewhere : a ≠ .cpu c) :
    s'.kernel.pendingUnlock c = s.kernel.pendingUnlock c := by
  cases step_cases taken with
  | @cpu d k p bound own =>
    have other : c ≠ d := fun same => elsewhere (by rw [same])
    exact (effect_owed (locked.clean d) (cpuStep_effect own)).2 c other
  | call f bound here | interrupt bound pending open_ | ambient mem now blocking notCpu => rfl
  | timer bound open_ resched rescues blocking kernel =>
    show (s.kernel.timerTick _ _).pendingUnlock c = _
    rw [kernel]

theorem run_locked (run : Run step (boot n) past s) : Locked s :=
  run_invariant Locked (locked_boot n) (fun _ _ _ locked taken => step_locked locked taken) run

theorem bucket_exclusive (locked : Locked s) (here : (s.pc c).bucket = some b)
    (there : (s.pc d).bucket = some b) : c = d := by
  have same := locked.buckets.unique (.sect c) (.sect d) b here there
  cases same
  rfl

theorem bucket_not_owed (locked : Locked s) (here : (s.pc c).bucket = some b) :
    s.kernel.pendingUnlock d ≠ some b := by
  intro owed
  cases locked.buckets.unique (.sect c) (.slot d) b here owed

theorem threadSection_exclusive (locked : Locked s) (here : (s.pc c).threadSection = some ())
    (there : (s.pc d).threadSection = some ()) :
    c = d := by
  have same := locked.threads.unique (.sect c) (.sect d) () here there
  cases same
  rfl

end TynKernel.Sched
