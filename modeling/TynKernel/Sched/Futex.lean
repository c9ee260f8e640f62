import TynKernel.Sched.Handoff
import TynKernel.Sched.Waiters

/-!
The futex calls against what they are for: which waits go to sleep, and which waiters a wake
lets go.
-/
namespace TynKernel.Sched
open Function List RunQueues Runs
variable {p p' : Pc} {addr t val c n i count woken : Nat} {deadline : Option Nat}
  {k k' start : Kernel} {s s' : System} {a : Action} {past : List (System × Action)} {rax : Int}
  {done : List Nat}

def Pc.decided : Pc → Option (Nat × Nat × Nat × Option Nat)
  | .waitValve t addr val deadline | .waitMark t addr val deadline => some (t, addr, val, deadline)
  | _ => none

def Pc.returning : Pc → Option (Nat × Int)
  | .unlock _ (.back (.user t rax)) | .unlockThreads _ (.back (.user t rax)) => some (t, rax)
  | _ => none

def Pc.wakes : Pc → Option Nat
  | .wakeThreadLock _ addr _ | .wakeScan _ addr _ _ _ | .wakeIpi _ addr _ _ _ _ => some addr
  | _ => none

def Pc.scans : Pc → Bool
  | .wakeScan _ _ _ _ _ | .wakeIpi _ _ _ _ _ _ => true
  | _ => false

def Pc.inFutex : Pc → Bool
  | .waitEnter _ _ _ _ | .waitLock _ _ _ _ | .waitConsume _ _ _ _ | .waitLoad _ _ _ _ |
    .waitValve _ _ _ _ | .waitMark _ _ _ _ | .waitQueue _ _ | .waitHandoff _ _ _ |
    .waitSwitch _ _ | .waitFinish _ => true
  | .wakeLock _ _ _ | .wakeThreadLock _ _ _ | .wakeScan _ _ _ _ _ | .wakeIpi _ _ _ _ _ _ => true
  | .unlock _ (.back _) | .unlockThreads _ (.back _) => true
  | _ => false

theorem entry_outside (entry : p.entry = true) :
    p.decided = none ∧ p.returning = none ∧ p.wakes = none := by
  cases p with
  | user | release | apHlt | idleCli | idleReset | rescueScan | yieldQueue | checkFlag |
    waitFinish | exitLoop => exact ⟨rfl, rfl, rfl⟩
  | _ => cases entry

def Loads (c t addr val : Nat) (deadline : Option Nat) (s : System) (a : Action) : Prop :=
  a = .cpu c ∧ s.pc c = .waitLoad t addr val deadline ∧ s.kernel.mem addr = val

def WakesOn (addr : Nat) (s : System) (a : Action) : Prop :=
  ∃ d, a = .cpu d ∧ (s.pc d).wakes = some addr

theorem wakes_bucket (wakes : p.wakes = some addr) :
    p.bucket = some (futexBucket addr) := by
  cases p with
  | wakeThreadLock | wakeScan | wakeIpi =>
    cases wakes
    rfl
  | _ => cases wakes

theorem decided_bucket (decided : p.decided = some (t, addr, val, deadline)) :
    p.bucket = some (futexBucket addr) ∧ p.wakes = none ∧ p.Steady := by
  cases p with
  | waitValve | waitMark =>
    cases decided
    exact ⟨rfl, rfl, rfl, fun _ _ no => nomatch no⟩
  | _ => cases decided

theorem effect_decided (effect : Effect k c p k' p')
    (now : p'.decided = some (t, addr, val, deadline)) :
    (p = .waitLoad t addr val deadline ∧ k.mem addr = val) ∨
      p.decided = some (t, addr, val, deadline) := by
  have never : p'.entry = true → False := by
    intro entry
    rw [(entry_outside entry).1] at now
    cases now
  cases effect with
  | quiet go =>
    cases go with
    | loadSame t addr val deadline same =>
      cases now
      exact .inl ⟨rfl, same⟩
    | valve => exact .inr now
    | _ => first | cases now | exact (never (by simp)).elim
  | _ => first | cases now | exact (never (by simp)).elim

theorem enter_outside (t : Nat) (rax : Int) (f : Call) :
    (f.enter t rax).decided = none ∧ (f.enter t rax).returning = none := by
  cases f <;> exact ⟨rfl, rfl⟩

theorem awake_outside (p : Pc) : p.awake.decided = p.decided ∧ p.awake.returning = p.returning := by
  cases p <;> exact ⟨rfl, rfl⟩

structure Steady (s : System) : Prop where
  sound : Sound s
  locked : Locked s

theorem steady_boot (some_cpu : 0 < n) (few : n ≤ maxCpus) : Steady (boot n) :=
  ⟨sound_boot some_cpu few, locked_boot n⟩

theorem step_steady (steady : Steady s) (fresh : NoWrap s a) (taken : step s a = some s') :
    Steady s' :=
  ⟨step_sound steady.sound fresh taken, step_locked steady.locked taken⟩

theorem load_before_sleep (some_cpu : 0 < n) (few : n ≤ maxCpus) (run : Run step (boot n) past s)
    (fresh : ∀ e ∈ past, NoWrap e.1 e.2)
    (decided : (s.pc c).decided = some (t, addr, val, deadline)) :
    Since (Loads c t addr val deadline) (WakesOn addr) past := by
  refine run_since NoWrap Steady (fun s => (s.pc c).decided = some (t, addr, val, deadline)) _ _
    (steady_boot some_cpu few) ?_ (fun _ _ _ i ok taken => step_steady i ok taken) ?_ run fresh
    decided
  · intro now
    have outside : ((boot n).pc c).decided = none :=
      boot_place (P := fun p => p.decided = none) rfl rfl n c
    cases outside.symm.trans now
  · intro s a s' steady _ taken now
    have quiet : (s.pc c).decided = some (t, addr, val, deadline) → ¬ WakesOn addr s a := by
      rintro before ⟨d, _, wakes⟩
      obtain ⟨bucket, notWake, _⟩ := decided_bucket before
      have same := bucket_exclusive steady.locked bucket (wakes_bucket wakes)
      subst same
      cases notWake.symm.trans wakes
    by_cases own : a = .cpu c
    · subst own
      obtain ⟨k, p, rfl, effect⟩ := step_own taken
      rw [goto_here] at now
      rcases effect_decided effect now with ⟨here, same⟩ | before
      · exact .inl ⟨rfl, here, same⟩
      · exact .inr ⟨before, quiet before⟩
    · have before := step_keeps Pc.decided (fun p => (awake_outside p).1)
        (fun t rax f => (enter_outside t rax f).1) taken own now
      exact .inr ⟨before, quiet before⟩

def Differs (c t addr val : Nat) (s : System) (a : Action) : Prop :=
  a = .cpu c ∧ (∃ deadline, s.pc c = .waitLoad t addr val deadline) ∧ s.kernel.mem addr ≠ val

def Elsewhere (c : Nat) (s : System) (a : Action) : Prop :=
  a = .cpu c ∧ (s.pc c).returning = none

theorem effect_returning (effect : Effect k c p k' p') (now : p'.returning = some (t, rax))
    (negative : rax < 0) :
    (∃ addr val deadline, p = .waitLoad t addr val deadline ∧ k.mem addr ≠ val) ∨
      p.returning = some (t, rax) := by
  have never : p'.entry = true → False := by
    intro entry
    rw [(entry_outside entry).2.1] at now
    cases now
  cases effect with
  | quiet go =>
    cases go with
    | loadDiffers t addr val deadline differs =>
      cases now
      exact .inl ⟨addr, val, deadline, rfl, differs⟩
    | markNone t addr val deadline vacant | wakeDone t addr count i woken stop any =>
      cases now
      omega
    | _ => first | cases now | exact (never (by simp)).elim
  | consume t addr val deadline present | pend t addr count i stop =>
    cases now
    omega
  | unlockThreads b a =>
    cases a with
    | back y =>
      cases y with
      | user => exact .inr now
      | apMain => cases now
    | _ => cases now
  | _ => first | cases now | exact (never (by simp)).elim

theorem differs_before_return (run : Run step (boot n) past s) (negative : rax < 0)
    (returning : (s.pc c).returning = some (t, rax)) :
    Since (fun s a => ∃ addr val, Differs c t addr val s a) (Elsewhere c) past := by
  refine run_since (fun _ _ => True) (fun _ => True)
    (fun s => (s.pc c).returning = some (t, rax)) _ _ trivial ?_ (fun _ _ _ _ _ _ => trivial) ?_ run
    (fun _ _ => trivial) returning
  · intro now
    have outside : ((boot n).pc c).returning = none :=
      boot_place (P := fun p => p.returning = none) rfl rfl n c
    cases outside.symm.trans now
  · intro s a s' _ _ taken now
    have quiet : (s.pc c).returning = some (t, rax) → ¬ Elsewhere c s a := by
      rintro before ⟨_, none⟩
      cases none.symm.trans before
    by_cases own : a = .cpu c
    · subst own
      obtain ⟨k, p, rfl, effect⟩ := step_own taken
      rw [goto_here] at now
      rcases effect_returning effect now negative with ⟨addr, val, deadline, here, differs⟩ | before
      · exact .inl ⟨addr, val, rfl, ⟨deadline, here⟩, differs⟩
      · exact .inr ⟨before, quiet before⟩
    · have before := step_keeps Pc.returning (fun p => (awake_outside p).2)
        (fun t rax f => (enter_outside t rax f).2) taken own now
      exact .inr ⟨before, quiet before⟩

theorem eagain_returning (effect : Effect k c p k' (.user t (-11))) (inside : p.inFutex = true) :
    p.returning = some (t, -11) := by
  generalize after : Pc.user t (-11) = p' at effect
  cases effect with
  | quiet go =>
    cases go with
    | finishMissing => cases after
    | checkNone => cases inside
    | _ => first | cases after | cases inside
  | unlock b a =>
    cases a with
    | back y =>
      cases y with
      | user =>
        cases after
        rfl
      | apMain => cases after
    | _ => cases inside
  | finish =>
    injection after with _ result
    split at result <;> cases result
  | sleepSwitch tid next r n =>
    have entry := resume_clear next n.ctx
    rw [← after] at entry
    cases entry.2
  | sleepIdle =>
    have entry := idleResume_clear (k.idleCtx c)
    rw [← after] at entry
    cases entry.2
  | _ => first | cases after | cases inside

def firstWaiters (k : Kernel) (addr i : Nat) : List Nat :=
  (List.range i).filter fun t => decide (waitsOn k t = some addr)

def waiters (k : Kernel) (addr : Nat) : List Nat := firstWaiters k addr maxThreads

def Kernel.isReady (k : Kernel) (t : Nat) : Bool :=
  match k.threads t with
  | some r => decide (r.state = .ready)
  | none => false

def unblocks (s : System) (a : Action) : List Nat :=
  match step s a with
  | some s' =>
    (List.range maxThreads).filter fun t => (waitsOn s.kernel t).isSome && s'.kernel.isReady t
  | none => []

def unblockedBy (c : Nat) : List (System × Action) → List Nat
  | [] => []
  | (s, a) :: past =>
    if a = .cpu c then unblockedBy c past ++ unblocks s a else unblockedBy c past

theorem waiting_not_ready (waits : waitsOn k t = some addr) :
    k.isReady t = false := by
  obtain ⟨r, get, blocked, _⟩ := waitsOn_some waits
  simp [Kernel.isReady, get, blocked]

theorem unblocks_nil (taken : step s a = some s') (same : waitsOn s'.kernel = waitsOn s.kernel) :
    unblocks s a = [] := by
  simp only [unblocks, taken, filter_eq_nil_iff]
  intro t _ both
  simp only [Bool.and_eq_true] at both
  obtain ⟨addr, waits⟩ := Option.isSome_iff_exists.mp both.1
  rw [← same] at waits
  rw [waiting_not_ready waits] at both
  cases both.2

theorem unblocks_one (taken : step s a = some s') (waits : waitsOn s.kernel i = some addr)
    (bound : i < maxThreads) (gone : waitsOn s'.kernel = update (waitsOn s.kernel) i none)
    (ready : s'.kernel.isReady i = true) : unblocks s a = [i] := by
  have only : ∀ t, ((waitsOn s.kernel t).isSome && s'.kernel.isReady t) = decide (t = i) := by
    intro t
    by_cases same : t = i
    · subst same
      simp [waits, ready]
    simp only [same, decide_false, Bool.and_eq_false_iff]
    cases other : waitsOn s.kernel t with
    | none => exact .inl rfl
    | some x =>
      right
      have still : waitsOn s'.kernel t = some x := by
        rw [gone, update_of_ne same, other]
      exact waiting_not_ready still
  simp only [unblocks, taken, only]
  rw [filter_eq, count_eq_one_of_mem nodup_range (mem_range.mpr bound)]
  rfl

theorem firstWaiters_succ (k : Kernel) (addr i : Nat) :
    firstWaiters k addr (i + 1) =
      firstWaiters k addr i ++ if waitsOn k i = some addr then [i] else [] := by
  unfold firstWaiters
  rw [range_succ, filter_append]
  by_cases waits : waitsOn k i = some addr
  · simp [waits]
  · simp [waits]

theorem firstWaiters_take (bound : i ≤ maxThreads) (enough : (firstWaiters k addr i).length ≤ count)
    (stop : count ≤ (firstWaiters k addr i).length ∨ i = maxThreads) :
    firstWaiters k addr i = (waiters k addr).take count := by
  rcases stop with full | last
  · obtain ⟨m, split⟩ := Nat.exists_eq_add_of_le bound
    have whole : waiters k addr = firstWaiters k addr i ++
        ((List.range m).map (i + ·)).filter fun t => decide (waitsOn k t = some addr) := by
      unfold waiters firstWaiters
      rw [split, range_add, filter_append]
    rw [whole, take_left' (Nat.le_antisymm enough full)]
  · subst last
    exact (take_of_length_le enough).symm

structure Progress (start : Kernel) (s : System) (addr count i woken : Nat) (done : List Nat) :
    Prop where
  first : done = firstWaiters start addr i
  number : woken = done.length
  room : woken ≤ count
  bound : i ≤ maxThreads
  rest : ∀ t, i ≤ t → (waitsOn s.kernel t = some addr ↔ waitsOn start t = some addr)

inductive Scan (start : Kernel) (c t addr count : Nat) (s : System) : List Nat → Prop where
  | searching (i woken : Nat) (done : List Nat) (here : s.pc c = .wakeScan t addr count i woken)
      (progress : Progress start s addr count i woken done) : Scan start c t addr count s done
  | found (i woken target : Nat) (done : List Nat)
      (here : s.pc c = .wakeIpi t addr count i woken target)
      (progress : Progress start s addr count (i + 1) (woken + 1) done) :
      Scan start c t addr count s done
  | ended (b : Nat) (done : List Nat)
      (here : s.pc c = .unlockThreads b (.back (.user t done.length)))
      (all : done = (waiters start addr).take count) : Scan start c t addr count s done

/-- While CPU c holds THREAD_LOCK and the lock of the address' bucket, no other CPU adds or
    removes a waiter of the address. -/
theorem waiters_kept (addr : Nat) (steady : Steady s)
    (bucket : (s.pc c).bucket = some (futexBucket addr))
    (threads : (s.pc c).threadSection = some ()) (taken : step s a = some s')
    (elsewhere : a ≠ .cpu c) (t : Nat) :
    waitsOn s'.kernel t = some addr ↔ waitsOn s.kernel t = some addr := by
  rcases step_waiters steady.sound taken with ⟨d, rfl, change⟩ | ⟨_, same⟩
  · have other : c ≠ d := fun same => elsewhere (by rw [same])
    generalize here : s.pc d = p at change
    generalize waitsOn s'.kernel = w at change
    cases change with
    | keep => exact Iff.rfl
    | sleep u x =>
      have awake := running_awake (c := d) (t := u) steady.sound (by rw [here]; rfl)
      have differs : x ≠ addr := by
        intro same
        subst same
        exact other (bucket_exclusive steady.locked bucket (by rw [here]; rfl))
      by_cases same : t = u
      · subst same
        rw [update_self, awake]
        simp [differs]
      · rw [update_of_ne same]
    | wake u x count i woken found room | rescue i read x r found =>
      exact absurd (threadSection_exclusive steady.locked threads (by rw [here]; rfl)) other
  · rw [same]

theorem scan_elsewhere (steady : Steady s) (scan : Scan start c t addr count s done)
    (taken : step s a = some s') (elsewhere : a ≠ .cpu c) : Scan start c t addr count s' done := by
  have stays : (s.pc c).Steady → s'.pc c = s.pc c := fun h => steady_stays h taken elsewhere
  cases scan with
  | searching i woken done here progress =>
    have kept := waiters_kept addr steady (by rw [here]; rfl) (by rw [here]; rfl) taken
      elsewhere
    refine .searching i woken done ((stays ?_).trans here)
      ⟨progress.first, progress.number, progress.room, progress.bound, fun u later => ?_⟩
    · rw [here]
      exact ⟨rfl, fun _ _ no => nomatch no⟩
    · exact (kept u).trans (progress.rest u later)
  | found i woken target done here progress =>
    have kept := waiters_kept addr steady (by rw [here]; rfl) (by rw [here]; rfl) taken
      elsewhere
    refine .found i woken target done ((stays ?_).trans here)
      ⟨progress.first, progress.number, progress.room, progress.bound, fun u later => ?_⟩
    · rw [here]
      exact ⟨rfl, fun _ _ no => nomatch no⟩
    · exact (kept u).trans (progress.rest u later)
  | ended b done here all =>
    refine .ended b done ((stays ?_).trans here) all
    rw [here]
    exact ⟨rfl, fun _ _ no => nomatch no⟩

section
variable (progress : Progress start s addr count i woken done)
include progress

theorem progress_stops
    (stop : ¬ (woken < count ∧ i < maxThreads)) : done = (waiters start addr).take count := by
  have bound := progress.bound
  have room := progress.room
  have number := progress.number
  rw [progress.first] at number ⊢
  refine firstWaiters_take bound (by omega) ?_
  by_cases last : i = maxThreads
  · exact .inr last
  · exact .inl (by omega)

theorem progress_next (more : i < maxThreads)
    (other : waitsOn s.kernel i ≠ some addr) : Progress start s addr count (i + 1) woken done := by
  have skip : waitsOn start i ≠ some addr := fun waits =>
    other ((progress.rest i (Nat.le_refl i)).mpr waits)
  refine ⟨?_, progress.number, progress.room, more, fun t later => ?_⟩
  · rw [firstWaiters_succ, if_neg skip, append_nil]
    exact progress.first
  · exact progress.rest t (Nat.le_of_succ_le later)

theorem progress_wakes
    (room : woken < count ∧ i < maxThreads) (waits : waitsOn s.kernel i = some addr)
    (gone : waitsOn s'.kernel = update (waitsOn s.kernel) i none) :
    Progress start s' addr count (i + 1) (woken + 1) (done ++ [i]) := by
  have waited := (progress.rest i (Nat.le_refl i)).mp waits
  refine ⟨?_, ?_, room.1, room.2, fun t later => ?_⟩
  · rw [firstWaiters_succ, if_pos waited, ← progress.first]
  · rw [length_append, ← progress.number]
    rfl
  · have other : t ≠ i := by omega
    rw [gone, update_of_ne other]
    exact progress.rest t (Nat.le_of_succ_le later)

theorem progress_same (same : waitsOn s'.kernel = waitsOn s.kernel) :
    Progress start s' addr count i woken done := by
  refine ⟨progress.first, progress.number, progress.room, progress.bound, fun t later => ?_⟩
  rw [same]
  exact progress.rest t later

end

theorem wake_ready (k : Kernel) (i : Nat) (th : Thread) : (k.wake i th).isReady i = true := by
  simp [Kernel.isReady, Kernel.wake, Kernel.setThread, Kernel.setQueue, Thread.woken]

theorem wake_waiters (k : Kernel) (i : Nat) (th : Thread) :
    waitsOn (k.wake i th) = update (waitsOn k) i none := waitsOn_setThread k i th.woken

theorem scan_own (scan : Scan start c t addr count s done) (inside : (s.pc c).scans = true)
    (taken : step s (.cpu c) = some s') :
    Scan start c t addr count s' (done ++ unblocks s (.cpu c)) := by
  obtain ⟨k, p, rfl, effect⟩ := step_own taken
  cases scan with
  | searching i woken done here progress =>
    rw [here] at effect
    cases effect with
    | quiet go =>
      rw [unblocks_nil taken rfl, append_nil]
      cases go with
      | wakeNext _ _ _ _ _ other room =>
        refine .searching (i + 1) woken done (goto_here ..)
          (progress_same (progress_next progress room.2 ?_) rfl)
        intro waits
        obtain ⟨th, get, blocked, same⟩ := waitsOn_some waits
        exact other th get blocked same
      | wakeDone _ _ _ _ _ stop =>
        have number := progress.number
        subst number
        exact .ended _ done (goto_here ..) (progress_stops progress stop)
    | pend _ _ _ _ stop =>
      rw [unblocks_nil taken rfl, append_nil]
      have number := progress.number
      refine .ended (futexBucket addr) done ?_ (progress_stops progress stop)
      rw [← number]
      exact goto_here ..
    | wake _ _ _ _ _ th get blocked same room =>
      have waits : waitsOn s.kernel i = some addr := by
        rw [waitsOn_of get, waiting_blocked blocked, same]
      have gone := wake_waiters s.kernel i th
      rw [unblocks_one taken waits room.2 gone (wake_ready s.kernel i th)]
      exact .found i woken th.homeCpu _ (goto_here ..) (progress_wakes progress room waits gone)
  | found i woken target done here progress =>
    rw [here] at effect
    cases effect with
    | quiet go => cases go
    | ipiWake =>
      rw [unblocks_nil taken rfl, append_nil]
      exact .searching (i + 1) (woken + 1) done (goto_here ..) (progress_same progress rfl)
  | ended b done here =>
    rw [here] at inside
    cases inside

theorem run_scan (steady : Steady first) (scan : Scan start c t addr count first [])
    (run : Run step first later s) (fresh : ∀ e ∈ later, NoWrap e.1 e.2)
    (inside : ∀ e ∈ later, e.2 = .cpu c → (e.1.pc c).scans = true) :
    Scan start c t addr count s (unblockedBy c later) := by
  induction run with
  | nil => exact scan
  | @snoc past s s' a before taken ih =>
    have freshBefore : ∀ e ∈ past, NoWrap e.1 e.2 :=
      fun e member => fresh e (mem_cons_of_mem _ member)
    have steadyHere : Steady s :=
      run_invariant_of NoWrap Steady steady (fun _ _ _ i ok h => step_steady i ok h) before
        freshBefore
    have scanHere := ih freshBefore (fun e member => inside e (mem_cons_of_mem _ member))
    simp only [unblockedBy]
    split
    · rename_i own
      subst own
      exact scan_own scanHere (inside _ mem_cons_self rfl) taken
    · rename_i elsewhere
      exact scan_elsewhere steadyHere scanHere taken elsewhere

theorem scan_begins (here : s.pc c = .wakeThreadLock t addr count)
    (taken : step s (.cpu c) = some s') :
    Scan s.kernel c t addr count s' [] := by
  obtain ⟨k, p, rfl, effect⟩ := step_own taken
  rw [here] at effect
  cases effect with
  | quiet go => cases go
  | lockWakeThreads =>
    exact .searching 0 0 [] (goto_here ..)
      ⟨rfl, rfl, Nat.zero_le _, Nat.zero_le _, fun _ _ => Iff.rfl⟩

/-- A thread goes to sleep on an address only after a read of the expected value that no
    futex_wake on the address comes between; a call gives -EAGAIN only after a read of another
    value; a futex_wake lets the first waiters of its address go, as many as it was asked for
    or as there are, and returns their number; and a waiter leaves only by such a wake or by a
    rescue. -/
theorem futex_waits_and_wakes {n : Nat} {past : List (System × Action)} {s s' : System}
    {a : Action} (some_cpu : 0 < n) (few : n ≤ maxCpus) (run : Run step (boot n) past s)
    (fresh : ∀ e ∈ past, NoWrap e.1 e.2) (taken : step s a = some s') :
    (∀ t addr, waitsOn s.kernel t ≠ some addr → waitsOn s'.kernel t = some addr →
      ∃ c val deadline, a = .cpu c ∧ Since (Loads c t addr val deadline) (WakesOn addr) past) ∧
    (∀ c t, a = .cpu c → (s.pc c).inFutex = true → s'.pc c = .user t (-11) →
      Since (fun s a => ∃ addr val, Differs c t addr val s a) (Elsewhere c) past) ∧
    (∀ c t addr count b w later e earlier, past = later ++ e :: earlier → e.2 = .cpu c →
      e.1.pc c = .wakeThreadLock t addr count →
      (∀ x ∈ later, x.2 = .cpu c → (x.1.pc c).scans = true) →
      s.pc c = .unlockThreads b (.back (.user t w)) →
      unblockedBy c later = (waiters e.1.kernel addr).take count ∧
        w = (min count (waiters e.1.kernel addr).length : Nat)) ∧
    ∀ t addr, waitsOn s.kernel t = some addr → waitsOn s'.kernel t ≠ some addr →
      ∃ c, a = .cpu c ∧ ((∃ u count woken, s.pc c = .wakeScan u addr count t woken) ∨
        ∃ read r, s.pc c = .rescueCommit t read r) := by
  have sound := run_sound some_cpu few run fresh
  refine ⟨?_, ?_, ?_, fun t addr waits left => leaves_by_wake_or_rescue sound taken waits left⟩
  · intro t addr before after
    obtain ⟨c, val, deadline, own, here⟩ := begins_waiting sound taken before after
    have decided : (s.pc c).decided = some (t, addr, val, deadline) := by
      rw [here]
      rfl
    exact ⟨c, val, deadline, own, load_before_sleep some_cpu few run fresh decided⟩
  · intro c t own inside returned
    subst own
    obtain ⟨k, p, rfl, effect⟩ := step_own taken
    rw [goto_here] at returned
    subst returned
    exact differs_before_return run (by decide) (eagain_returning effect inside)
  · intro c t addr count b w later e earlier split own begins inside ends
    subst split
    obtain ⟨mid, before, begun, after⟩ := run_at run
    have freshEarlier : ∀ x ∈ earlier, NoWrap x.1 x.2 :=
      fun x member => fresh x (mem_append_right _ (mem_cons_of_mem _ member))
    have steadyMid : Steady mid :=
      ⟨step_sound (run_sound some_cpu few before freshEarlier)
        (fresh e (mem_append_right _ mem_cons_self)) begun,
        step_locked (run_locked before) begun⟩
    rw [own] at begun
    have scan := run_scan steadyMid (scan_begins begins begun) after
      (fun x member => fresh x (mem_append_left _ member)) inside
    cases scan with
    | searching i woken done here progress | found i woken target done here progress =>
      cases here.symm.trans ends
    | ended b' done here all =>
      cases here.symm.trans ends
      refine ⟨all, ?_⟩
      rw [all, length_take]

def aboutToSleep : List Action := .enableBlockingFutex :: cloneSteps ++ (waitSteps 0).take 6

theorem main_sleeps_after_load :
    ∃ past s s', Run step (boot 1) past s ∧ step s (.cpu 0) = some s' ∧
      waitsOn s'.kernel 0 = some 4096 ∧
      ∃ c val deadline, Since (Loads c 0 4096 val deadline) (WakesOn 4096) past := by
  obtain ⟨past, s, run, fresh, sleeps⟩ := run_of_exec noWrap step (boot 1) aboutToSleep
    (fun s => (step s (.cpu 0)).any fun s' : System =>
      decide (waitsOn s.kernel 0 ≠ some 4096 ∧ waitsOn s'.kernel 0 = some 4096)) (by decide)
  obtain ⟨s', taken, begins⟩ := (Option.any_eq_true _ _).mp sleeps
  obtain ⟨before, after⟩ := of_decide_eq_true begins
  obtain ⟨blocks, _⟩ := futex_waits_and_wakes (n := 1) (by decide) (by decide) run
    (fun e member => noWrap_sound (fresh e member)) taken
  obtain ⟨c, val, deadline, _, loaded⟩ := blocks 0 4096 before after
  exact ⟨past, s, s', run, taken, after, c, val, deadline, loaded⟩

def Pc.inserts (p : Pc) (t : Nat) : Bool :=
  match p with
  | .spawnInsert _ tid _ => tid == t
  | _ => false

theorem inserts_place (inserts : p.inserts tid = true) : ∃ t req, p = .spawnInsert t tid req := by
  unfold Pc.inserts at inserts
  split at inserts
  · rename_i t new req
    rw [beq_iff_eq.mp inserts]
    exact ⟨t, req, rfl⟩
  · cases inserts

/-- With a full table main goes to sleep, and another thread makes clone calls until it gets
    the number 0. -/
theorem sleeper_overwritten_by_clone :
    ∃ past s s', Run step (boot 1) past s ∧ step s (.cpu 0) = some s' ∧
      waitsOn s.kernel 0 = some 4096 ∧ s'.kernel.isReady 0 = true ∧
      ∃ t req, s.pc 0 = .spawnInsert t 0 req := by
  obtain ⟨past, s, run, lost⟩ := run_across_wrap 1 0
    (.enableBlockingFutex :: fillTable ++ waitSteps 0) (callSteps 0 (.spawn plainClone) 1)
    (fun s => (s.pc 0).inserts 0 && (step s (.cpu 0)).any fun s' : System =>
        decide (waitsOn s.kernel 0 = some 4096 ∧ s'.kernel.isReady 0 = true)) (by decide +kernel)
  simp only [Bool.and_eq_true] at lost
  obtain ⟨s', taken, woken⟩ := (Option.any_eq_true _ _).mp lost.2
  obtain ⟨waits, ready⟩ := of_decide_eq_true woken
  refine ⟨past, s, s', run, taken, waits, ready, ?_⟩
  exact inserts_place lost.1

end TynKernel.Sched
