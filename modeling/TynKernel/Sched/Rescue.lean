import TynKernel.Sched.Handoff
import TynKernel.Sched.Waiters

/-!
Which lock a waiter is made ready under. process_rescues holds the bucket of an address that
it has read before, without a lock.
-/
namespace TynKernel.Sched
open Runs RunQueues
variable {p p' : Pc} {s s' : System} {c d i addr t n : Nat} {k' : Kernel} {a : Action}
  {past : List (System × Action)}

def Pc.rescuing : Pc → Option (Nat × Nat)
  | .rescueLock i addr _ | .rescueThreadLock i addr _ | .rescueCommit i addr _ => some (i, addr)
  | _ => none

def Pc.parks : Pc → Option Nat
  | .waitQueue t _ | .waitHandoff t _ _ | .waitSwitch t _ => some t
  | _ => none

theorem entry_idle (entry : p.entry = true) : p.rescuing = none ∧ p.parks = none := by
  cases p with
  | user | release | apHlt | idleCli | idleReset | rescueScan | yieldQueue | checkFlag |
    waitFinish | exitLoop => exact ⟨rfl, rfl⟩
  | _ => cases entry

/-- A thread goes to sleep only while every CPU that is about to rescue it has read an address
    of the same bucket. -/
def Settled (s : System) (a : Action) : Prop :=
  ∀ c t addr val deadline, a = .cpu c → s.pc c = .waitMark t addr val deadline →
    ∀ d read, (s.pc d).rescuing = some (t, read) → futexBucket read = futexBucket addr

def Holds (s : System) (c b : Nat) : Prop :=
  (s.pc c).bucket = some b ∨ s.kernel.pendingUnlock c = some b

/-- What rescuers have read is right up to the bucket, and a thread with an unsaved context is
    blocked under a lock that its own CPU holds. -/
structure Covered (s : System) : Prop where
  sound : Sound s
  locked : Locked s
  read : ∀ d i addr x, (s.pc d).rescuing = some (i, addr) → waitsOn s.kernel i = some x →
    futexBucket x = futexBucket addr
  parked : ∀ c t, (s.pc c).parks = some t →
    ∃ x, waitsOn s.kernel t = some x ∧ Holds s c (futexBucket x)

theorem holds_excludes (locked : Locked s) (holds : Holds s c b)
    (inside : (s.pc d).bucket = some b) : c = d := by
  rcases holds with here | owed
  · exact bucket_exclusive locked here inside
  · exact absurd owed (bucket_not_owed locked inside)

theorem effect_rescuing (effect : Effect k c p k' p') (now : p'.rescuing = some (i, addr)) :
    p.rescuing = some (i, addr) ∨ (waitsOn k i = some addr ∧ k' = k) := by
  have never : p'.entry = true → False := by
    intro entry
    rw [(entry_idle entry).1] at now
    cases now
  cases effect with
  | quiet go =>
    cases go with
    | readAddr i r th get blocked =>
      cases now
      exact .inr ⟨by rw [waitsOn_of get, waiting_blocked blocked], rfl⟩
    | _ => first | cases now | exact (never (by simp)).elim
  | lockRescue i addr r free | lockRescueThreads i addr r free => exact .inl now
  | _ => first | cases now | exact (never (by simp)).elim

theorem effect_parks (covered : Covered s) (here : s.pc c = p) (effect : Effect s.kernel c p k' p')
    (now : p'.parks = some t) :
    ∃ x, waitsOn k' t = some x ∧
      (p'.bucket = some (futexBucket x) ∨ k'.pendingUnlock c = some (futexBucket x)) := by
  have never : p'.entry = true → False := by
    intro entry
    rw [(entry_idle entry).2] at now
    cases now
  have before : p.parks = some t → ∃ x, waitsOn s.kernel t = some x ∧
      (p.bucket = some (futexBucket x) ∨ s.kernel.pendingUnlock c = some (futexBucket x)) := by
    intro parks
    obtain ⟨x, waits, holds⟩ := covered.parked c t (by rw [here]; exact parks)
    unfold Holds at holds
    rw [here] at holds
    exact ⟨x, waits, holds⟩
  cases effect with
  | quiet go =>
    cases go with
    | markMissing u addr val deadline tid cur missing =>
      have same : u = tid := sound_current covered.sound (by rw [here]; rfl) cur
      subst same
      obtain ⟨r, get, _⟩ := sound_running (c := c) (t := u) covered.sound (by rw [here]; rfl)
      cases missing.symm.trans get
    | _ => first | cases now | exact (never (by simp)).elim
  | mark u addr =>
    cases now
    refine ⟨addr, ?_, .inl rfl⟩
    unfold Kernel.markBlocked
    rw [waitsOn_setThread, Function.update_self]
    rfl
  | sleepAlone tid addr empty | sleepNext tid addr next rest head =>
    obtain ⟨x, waits, holds⟩ := before now
    exact ⟨x, waits, holds⟩
  | handoff =>
    obtain ⟨x, waits, holds⟩ := before now
    rcases holds with inside | owed
    · refine ⟨x, waits, .inr ?_⟩
      rw [← inside]
      exact Function.update_self _ _ _
    · have clean := covered.locked.clean c (by rw [here]; rfl)
      cases clean.symm.trans owed
  | _ => first | cases now | exact (never (by simp)).elim

theorem enter_idle (t : Nat) (rax : Int) (f : Call) :
    (f.enter t rax).rescuing = none ∧ (f.enter t rax).parks = none := by
  cases f <;> exact ⟨rfl, rfl⟩

theorem awake_rescuing (p : Pc) : p.awake.rescuing = p.rescuing := by cases p <;> rfl

theorem awake_parks (parks : p.awake.parks = some t) : p.awake = p := by
  cases p with
  | apHalted | idleHalted => cases parks
  | _ => rfl

theorem step_rescuing (taken : step s a = some s') (now : (s'.pc d).rescuing = some (i, addr)) :
    (s.pc d).rescuing = some (i, addr) ∨
      (waitsOn s.kernel i = some addr ∧ waitsOn s'.kernel = waitsOn s.kernel) := by
  by_cases own : a = .cpu d
  · subst own
    obtain ⟨k, p, rfl, effect⟩ := step_own taken
    rw [goto_here] at now
    rcases effect_rescuing effect now with before | ⟨waits, rfl⟩
    · exact .inl before
    · exact .inr ⟨waits, rfl⟩
  · exact .inl (step_keeps Pc.rescuing awake_rescuing (fun t rax f => (enter_idle t rax f).1)
      taken own now)

theorem step_parks (taken : step s a = some s') (elsewhere : a ≠ .cpu c)
    (now : (s'.pc c).parks = some t) : s'.pc c = s.pc c := by
  rcases step_other taken elsewhere with same | awake | ⟨u, rax, f, enter⟩
  · exact same
  · rw [awake] at now ⊢
    exact awake_parks now
  · rw [enter, (enter_idle u rax f).2] at now
    cases now

theorem leaves_locked (covered : Covered s) (taken : step s a = some s')
    (waits : waitsOn s.kernel t = some addr) (left : waitsOn s'.kernel t ≠ some addr) :
    ∃ d, a = .cpu d ∧ (s.pc d).bucket = some (futexBucket addr) ∧ (s.pc d).parks = none := by
  obtain ⟨d, rfl, place⟩ := leaves_by_wake_or_rescue covered.sound taken waits left
  refine ⟨d, rfl, ?_⟩
  rcases place with ⟨u, count, woken, here⟩ | ⟨read, r, here⟩
  · rw [here]
    exact ⟨rfl, rfl⟩
  · have bucket := covered.read d t read addr (by rw [here]; rfl) waits
    rw [here]
    exact ⟨congrArg some bucket.symm, rfl⟩

theorem not_parked (covered : Covered s) (waits : waitsOn s.kernel t = some addr)
    (inside : (s.pc d).bucket = some (futexBucket addr)) (elsewhere : (s.pc d).parks = none) :
    (s.pc c).parks ≠ some t := by
  intro parks
  obtain ⟨x, waits', holds⟩ := covered.parked c t parks
  cases waits.symm.trans waits'
  cases holds_excludes covered.locked holds inside
  cases elsewhere.symm.trans parks

theorem step_covered (covered : Covered s) (fresh : NoWrap s a) (settled : Settled s a)
    (taken : step s a = some s') : Covered s' := by
  refine ⟨step_sound covered.sound fresh taken, step_locked covered.locked taken, ?_, ?_⟩
  · intro d i addr x rescues waits
    rcases step_rescuing taken rescues with before | ⟨read, same⟩
    · by_cases old : waitsOn s.kernel i = some x
      · exact covered.read d i addr x before old
      · -- the thread goes to sleep in this step, in the bucket that was read
        obtain ⟨c, val, deadline, rfl, here⟩ := begins_waiting covered.sound taken old waits
        exact (settled c i x val deadline rfl here d addr before).symm
    · rw [same, read] at waits
      cases waits
      rfl
  · intro c t parks
    by_cases own : a = .cpu c
    · subst own
      obtain ⟨k, p, rfl, effect⟩ := step_own taken
      rw [goto_here] at parks
      obtain ⟨x, waits, holds⟩ := effect_parks covered rfl effect parks
      refine ⟨x, waits, ?_⟩
      unfold Holds
      rw [goto_here]
      exact holds
    · have place := step_parks taken own parks
      rw [place] at parks
      obtain ⟨x, waits, holds⟩ := covered.parked c t parks
      refine ⟨x, ?_, ?_⟩
      · by_contra left
        obtain ⟨d, rfl, inside, elsewhere⟩ := leaves_locked covered taken waits left
        exact not_parked covered waits inside elsewhere parks
      · unfold Holds
        rw [place, slot_stays covered.locked taken own]
        exact holds

theorem covered_boot (some_cpu : 0 < n) (few : n ≤ maxCpus) : Covered (boot n) := by
  refine ⟨sound_boot some_cpu few, locked_boot n, ?_, ?_⟩
  · intro d i addr x rescues
    have idle : ((boot n).pc d).rescuing = none :=
      boot_place (P := fun p => p.rescuing = none) rfl rfl n d
    cases idle.symm.trans rescues
  · intro c t parks
    have idle : ((boot n).pc c).parks = none :=
      boot_place (P := fun p => p.parks = none) rfl rfl n c
    cases idle.symm.trans parks

theorem run_covered (some_cpu : 0 < n) (few : n ≤ maxCpus) (run : Run step (boot n) past s)
    (fresh : ∀ e ∈ past, NoWrap e.1 e.2) (settled : ∀ e ∈ past, Settled e.1 e.2) : Covered s :=
  run_invariant_of (fun s a => NoWrap s a ∧ Settled s a) Covered (covered_boot some_cpu few)
    (fun _ _ _ covered ok taken => step_covered covered ok.1 ok.2 taken) run
    (fun e member => ⟨fresh e member, settled e member⟩)

/-- A thread leaves an address on which it is blocked only by a step of a CPU that holds the
    lock of that address' bucket, and never while its own CPU still has to save its context. -/
theorem unblocked_under_bucket_lock {n : Nat} {past : List (System × Action)} {s s' : System}
    {a : Action} {t addr : Nat} (some_cpu : 0 < n) (few : n ≤ maxCpus)
    (run : Run step (boot n) past s) (fresh : ∀ e ∈ past, NoWrap e.1 e.2)
    (settled : ∀ e ∈ past, Settled e.1 e.2) (taken : step s a = some s')
    (waits : waitsOn s.kernel t = some addr) (left : waitsOn s'.kernel t ≠ some addr) :
    ∃ d, a = .cpu d ∧ (s.pc d).bucket = some (futexBucket addr) ∧
      s.kernel.futexLock (futexBucket addr) = true ∧ ∀ c, (s.pc c).parks ≠ some t := by
  have covered := run_covered some_cpu few run fresh settled
  obtain ⟨d, own, inside, elsewhere⟩ := leaves_locked covered taken waits left
  have held := (covered.locked.buckets.held_iff (futexBucket addr)).mpr ⟨.sect d, inside⟩
  exact ⟨d, own, inside, held, fun c => not_parked covered waits inside elsewhere⟩

def settled (s : System) : Action → Bool
  | .cpu c =>
    match s.pc c with
    | .waitMark t addr _ _ => (List.range s.kernel.numCpus).all fun d =>
      match (s.pc d).rescuing with
      | some (i, read) => decide (i = t → futexBucket read = futexBucket addr)
      | none => true
    | _ => true
  | _ => true

theorem settled_sound (online : Online n s) (test : settled s a = true) : Settled s a := by
  intro c t addr val deadline same here d read rescues
  subst same
  have bound : d < s.kernel.numCpus := by
    by_contra beyond
    rw [online.offline d (by rw [← online.numCpus]; omega)] at rescues
    cases rescues
  simp only [settled, here, List.all_eq_true, List.mem_range] at test
  have this := test d bound
  rw [rescues] at this
  simpa using this

theorem run_settled (some_cpu : 0 < n) (run : Run step (boot n) past s)
    (test : ∀ e ∈ past, settled e.1 e.2 = true) :
    ∀ e ∈ past, Settled e.1 e.2 := by
  intro e member
  obtain ⟨earlier, before⟩ := run_reaches run member
  exact settled_sound (run_online some_cpu before) (test e member)

def blockThenWake : List Action :=
  .enableBlockingFutex :: cloneSteps ++ waitSteps 0 ++ callSteps 0 (.futexWake 4096 1) 2

theorem main_unblocked_by_wake :
    ∃ past s s', Run step (boot 1) past s ∧ step s (.cpu 0) = some s' ∧
      waitsOn s.kernel 0 = some 4096 ∧ waitsOn s'.kernel 0 = none ∧
      s.kernel.futexLock (futexBucket 4096) = true ∧ ∀ c, (s.pc c).parks ≠ some 0 := by
  obtain ⟨past, s, run, tests, woken⟩ := run_of_exec (fun s a => noWrap s a && settled s a) step
    (boot 1) blockThenWake
    (fun s => (step s (.cpu 0)).any fun s' : System =>
      decide (waitsOn s.kernel 0 = some 4096 ∧ waitsOn s'.kernel 0 = none))
    (by decide)
  obtain ⟨s', taken, found⟩ := (Option.any_eq_true _ _).mp woken
  obtain ⟨waits, left⟩ := of_decide_eq_true found
  simp only [Bool.and_eq_true] at tests
  obtain ⟨_, _, _, held, unparked⟩ := unblocked_under_bucket_lock (n := 1) (by decide) (by decide) run
    (fun e member => noWrap_sound (tests e member).1)
    (run_settled (by decide) run (fun e member => (tests e member).2)) taken waits
    (by rw [left]; exact fun no => nomatch no)
  exact ⟨past, s, s', run, taken, waits, left, held, unparked⟩

/-- Thread 1 on CPU 1 reads that main waits on word 4096 in order to rescue it. Thread 2 wakes
    main, main goes to sleep on word 8, in another bucket, and the rescuer takes its locks. -/
def staleRescue : List Action :=
  .enableBlockingFutex :: callSteps 0 (.spawn plainClone) 9 ++ cpuSteps 1 1 ++
    interruptSteps 1 35 ++ callSteps 0 (.spawn plainClone) 9 ++ waitSteps 0 ++
    .write 4096 1 :: .timer 0 true :: callSteps 1 .yieldCurrent 2 ++
    callSteps 0 (.futexWake 4096 1) 7 ++ callSteps 0 .yieldCurrent 37 ++
    callSteps 0 (.futexWaitUntil 8 0 none) 6 ++ cpuSteps 1 2

theorem rescued_under_stale_bucket :
    ∃ past s s', Run step (boot 2) past s ∧ step s (.cpu 1) = some s' ∧
      waitsOn s.kernel 0 = some 8 ∧ waitsOn s'.kernel 0 = none ∧ 0 ∈ s'.kernel.queue 0 ∧
      (s.pc 1).bucket ≠ some (futexBucket 8) ∧ s.kernel.futexLock (futexBucket 8) = true ∧
      (s.pc 0).parks = some 0 ∧ s'.kernel.current 0 = some 0 := by
  obtain ⟨past, s, run, _, rescued⟩ := run_of_exec (fun _ _ => true) step (boot 2) staleRescue
    (fun s => (step s (.cpu 1)).any fun s' : System => decide (waitsOn s.kernel 0 = some 8 ∧
      waitsOn s'.kernel 0 = none ∧ 0 ∈ s'.kernel.queue 0 ∧
      (s.pc 1).bucket ≠ some (futexBucket 8) ∧ s.kernel.futexLock (futexBucket 8) = true ∧
      (s.pc 0).parks = some 0 ∧ s'.kernel.current 0 = some 0)) (by decide +kernel)
  obtain ⟨s', taken, found⟩ := (Option.any_eq_true _ _).mp rescued
  exact ⟨past, s, s', run, taken, of_decide_eq_true found⟩

end TynKernel.Sched
