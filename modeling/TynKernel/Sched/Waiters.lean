import TynKernel.Sched.Locks
import TynKernel.Sched.Placement

/-!
The scheduler seen as a futex: which thread waits on which address, and what a step can do to
that.
-/
namespace TynKernel.Sched
open Function RunQueues Runs

def Thread.waiting (r : Thread) : Option Nat :=
  if r.state = .blocked then some r.futexAddr else none

def waitsOn (k : Kernel) (t : Nat) : Option Nat := (k.threads t).bind Thread.waiting

variable {k k' : Kernel} {t addr c : Nat} {r : Thread} {s s' : System} {a : Action}

theorem waitsOn_of (get : k.threads t = some r) :
    waitsOn k t = r.waiting := by
  simp [waitsOn, get]

theorem waiting_blocked (blocked : r.state = .blocked) :
    r.waiting = some r.futexAddr := if_pos blocked

theorem waiting_none (awake : r.state ≠ .blocked) : r.waiting = none := if_neg awake

theorem waitsOn_some (waits : waitsOn k t = some addr) :
    ∃ r, k.threads t = some r ∧ r.state = .blocked ∧ r.futexAddr = addr := by
  obtain ⟨r, get, waiting⟩ := Option.bind_eq_some_iff.mp waits
  unfold Thread.waiting at waiting
  split at waiting
  · rename_i blocked
    exact ⟨r, get, blocked, Option.some.inj waiting⟩
  · cases waiting

theorem waitsOn_setThread (k : Kernel) (t : Nat) (r : Thread) :
    waitsOn (k.setThread t r) = update (waitsOn k) t r.waiting := by
  funext u
  simp only [waitsOn, Kernel.setThread, update_apply]
  split <;> simp

theorem waitsOn_setThread_same (same : waitsOn k t = r.waiting) :
    waitsOn (k.setThread t r) = waitsOn k := by
  rw [waitsOn_setThread, ← same, update_eq_self]

inductive WaitChange (k : Kernel) (c : Nat) : Pc → (Nat → Option Nat) → Prop where
  | keep (p : Pc) : WaitChange k c p (waitsOn k)
  | sleep (t addr val : Nat) (deadline : Option Nat) :
      WaitChange k c (.waitMark t addr val deadline) (Function.update (waitsOn k) t (some addr))
  | wake (t addr count i woken : Nat) (waits : waitsOn k i = some addr)
      (room : woken < count ∧ i < maxThreads) :
      WaitChange k c (.wakeScan t addr count i woken) (Function.update (waitsOn k) i none)
  | rescue (i addr a : Nat) (r : RescueCaller) (waits : waitsOn k i = some a) :
      WaitChange k c (.rescueCommit i addr r) (Function.update (waitsOn k) i none)

theorem waitChange_threads (p : Pc) (threads : k'.threads = k.threads) :
    WaitChange k c p (waitsOn k') := by
  have same : waitsOn k' = waitsOn k := by
    funext t
    simp [waitsOn, threads]
  rw [same]
  exact .keep p

theorem waitChange_setThread (p : Pc) (same : waitsOn k t = r.waiting) :
    WaitChange k c p (waitsOn (k.setThread t r)) := by
  rw [waitsOn_setThread_same same]
  exact .keep p

theorem waitChange_record (p : Pc) (get : k.threads t = some old) (state : new.state = old.state)
    (addr : new.futexAddr = old.futexAddr) : WaitChange k c p (waitsOn (k.setThread t new)) := by
  refine waitChange_setThread p ?_
  rw [waitsOn_of get, Thread.waiting, Thread.waiting, state, addr]

theorem running_awake (sound : Sound s) (runs : (s.pc c).runs = some t) :
    waitsOn s.kernel t = none := by
  obtain ⟨r, get, _, awake, _⟩ := sound_running sound runs
  rw [waitsOn_of get, waiting_none awake]

theorem effect_waiters (sound : Sound s) (here : s.pc c = p) (effect : Effect s.kernel c p k' p') :
    WaitChange s.kernel c p (waitsOn k') := by
  have current : s.kernel.current c = p.current := by
    rw [← here]
    exact sound.current c
  cases effect with
  | rescue i addr r th get blocked threads queue rescued =>
    rw [← rescued, rescue_pushes sound get blocked]
    have woken : waitsOn (s.kernel.setThread i (th.rescued s.kernel.now)) =
        update (waitsOn s.kernel) i none := waitsOn_setThread _ _ _
    have waits : waitsOn s.kernel i = some th.futexAddr := by
      rw [waitsOn_of get, waiting_blocked blocked]
    exact woken ▸ .rescue i addr th.futexAddr r waits
  | switch y cur next r n get other | sleepSwitch tid next r n get other | sleepIdle tid r get
  | finish t r get | exitIdle tid r get => exact waitChange_record _ get rfl rfl
  | mark t addr val deadline tid r cur =>
    obtain rfl : tid = t := Option.some.inj (cur.symm.trans current)
    have slept := waitsOn_setThread s.kernel tid
      { r with
        state := .blocked, futexAddr := addr, futexVal := val,
        waitDeadlineNs := deadline.getD 0, waitTimedOut := false,
        blockedSinceNs := s.kernel.now }
    exact slept ▸ .sleep tid addr val deadline
  | wake t addr count i woken th get blocked same room =>
    have gone : waitsOn (s.kernel.setThread i th.woken) =
        update (waitsOn s.kernel) i none := waitsOn_setThread _ _ _
    have waits : waitsOn s.kernel i = some addr := by
      rw [waitsOn_of get, waiting_blocked blocked, same]
    exact gone ▸ .wake t addr count i woken waits room
  | insert t tid =>
    have absent : s.kernel.threads tid = none := by
      have fits := sound.fits c
      rw [here] at fits
      exact fits.2.2
    exact waitChange_setThread _ (by simp [waitsOn, absent, Thread.waiting])
  | home t tid req best threads mem written =>
    obtain ⟨mem', eq⟩ := settid_eq (s.kernel.setHome tid best) tid req
    rw [← written, eq]
    unfold Kernel.setHome
    split
    · rename_i r get
      exact waitChange_record _ get rfl rfl
    · exact .keep _
  | exit t tid r cur =>
    obtain rfl : tid = t := Option.some.inj (cur.symm.trans current)
    have awake := running_awake (c := c) (t := tid) sound (by rw [here]; rfl)
    exact waitChange_setThread _ awake
  | _ => exact waitChange_threads _ rfl

theorem step_waiters (sound : Sound s) (taken : step s a = some s') :
    (∃ c, a = .cpu c ∧ WaitChange s.kernel c (s.pc c) (waitsOn s'.kernel)) ∨
      ((∀ c, a ≠ .cpu c) ∧ waitsOn s'.kernel = waitsOn s.kernel) := by
  cases step_cases taken with
  | @cpu c k p bound own =>
    exact .inl ⟨c, rfl, effect_waiters sound rfl (cpuStep_effect own)⟩
  | call f bound here | interrupt bound pending open_ => exact .inr ⟨(fun _ h => nomatch h), rfl⟩
  | @timer c watchdog bound open_ resched rescues blocking kernel =>
    refine .inr ⟨(fun _ h => nomatch h), ?_⟩
    rw [kernel]
    rfl
  | ambient mem now blocking notCpu => exact .inr ⟨notCpu, rfl⟩

theorem begins_waiting (sound : Sound s) (taken : step s a = some s')
    (before : waitsOn s.kernel t ≠ some addr) (after : waitsOn s'.kernel t = some addr) :
    ∃ c val deadline, a = .cpu c ∧ s.pc c = .waitMark t addr val deadline := by
  rcases step_waiters sound taken with ⟨c, rfl, change⟩ | ⟨_, same⟩
  · generalize here : s.pc c = p at change
    generalize waiters : waitsOn s'.kernel = w at change after
    cases change with
    | keep => exact absurd after before
    | sleep u x val deadline =>
      by_cases same : t = u
      · subst same
        rw [update_self] at after
        cases after
        exact ⟨c, val, deadline, rfl, here⟩
      · rw [update_of_ne same] at after
        exact absurd after before
    | wake u x count i woken found room | rescue i read x r found =>
      by_cases same : t = i
      · subst same
        rw [update_self] at after
        cases after
      · rw [update_of_ne same] at after
        exact absurd after before
  · rw [same] at after
    exact absurd after before

theorem leaves_by_wake_or_rescue (sound : Sound s) (taken : step s a = some s')
    (waits : waitsOn s.kernel t = some addr) (left : waitsOn s'.kernel t ≠ some addr) :
    ∃ c, a = .cpu c ∧ ((∃ u count woken, s.pc c = .wakeScan u addr count t woken) ∨
      ∃ read r, s.pc c = .rescueCommit t read r) := by
  rcases step_waiters sound taken with ⟨d, rfl, change⟩ | ⟨_, same⟩
  · refine ⟨d, rfl, ?_⟩
    generalize here : s.pc d = p at change
    generalize waitsOn s'.kernel = w at change left
    cases change with
    | keep => exact absurd waits left
    | sleep u =>
      have awake := running_awake (c := d) (t := u) sound (by rw [here]; rfl)
      by_cases same : t = u
      · subst same
        cases awake.symm.trans waits
      · rw [update_of_ne same] at left
        exact absurd waits left
    | wake u x count i woken found =>
      by_cases same : t = i
      · subst same
        cases found.symm.trans waits
        exact .inl ⟨u, count, woken, rfl⟩
      · rw [update_of_ne same] at left
        exact absurd waits left
    | rescue i read x r =>
      by_cases same : t = i
      · subst same
        exact .inr ⟨read, r, rfl⟩
      · rw [update_of_ne same] at left
        exact absurd waits left
  · rw [same] at left
    exact absurd waits left

end TynKernel.Sched
