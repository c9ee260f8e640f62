import TynKernel.Sched.Handoff

/-!
The wakes that found no waiter. A bucket keeps the address of such a wake in one of eight
slots until a wait on the address takes it out.
-/
namespace TynKernel.Sched
open Function Runs

variable {a old new c : Nat} {s : System}

theorem mem_replace_other {slots : List Nat} (member : a ∈ slots) (other : a ≠ old) :
    a ∈ slots.replace old new := by
  induction slots with
  | nil => cases member
  | cons slot rest ih =>
    rw [List.replace_cons]
    by_cases here : old = slot
    · subst here
      simp only [BEq.rfl, List.mem_cons]
      rcases List.mem_cons.mp member with same | later
      · exact absurd same other
      · exact .inr later
    · simp only [beq_eq_false_iff_ne.mpr here, List.mem_cons]
      rcases List.mem_cons.mp member with same | later
      · exact .inl same
      · exact .inr (ih later)

theorem mem_replace_new {slots : List Nat} (member : old ∈ slots) :
    new ∈ slots.replace old new := by
  induction slots with
  | nil => cases member
  | cons slot rest ih =>
    rw [List.replace_cons]
    by_cases here : old = slot
    · subst here
      simp
    · simp only [beq_eq_false_iff_ne.mpr here, List.mem_cons]
      rcases List.mem_cons.mp member with same | later
      · exact absurd same here
      · exact .inr (ih later)

theorem pendingWakeInsert_keeps {slots : List Nat} (nonzero : a ≠ 0)
    (member : a ∈ slots) : a ∈ pendingWakeInsert slots addr := by
  unfold pendingWakeInsert
  split
  · exact member
  · exact mem_replace_other member nonzero

theorem pendingWakeInsert_adds {slots : List Nat} (room : a ∈ slots ∨ 0 ∈ slots) :
    a ∈ pendingWakeInsert slots a := by
  unfold pendingWakeInsert
  split
  · assumption
  · rename_i absent
    rcases room with present | free
    · exact absurd present absent
    · exact mem_replace_new free

def Pending (a : Nat) (s : System) : Prop := a ∈ s.kernel.pendingWakes (futexBucket a)

def consumes (a : Nat) (s : System) : Action → Bool
  | .cpu c =>
    match s.pc c with
    | .waitConsume _ addr _ _ => decide (addr = a)
    | _ => false
  | _ => false

theorem effect_pending {k k' : Kernel} (nonzero : a ≠ 0) (effect : Effect k c p k' p')
    (member : a ∈ k.pendingWakes (futexBucket a))
    (unused : ∀ t val deadline, p ≠ .waitConsume t a val deadline) :
    a ∈ k'.pendingWakes (futexBucket a) := by
  cases effect with
  | consume t addr val deadline =>
    have other : a ≠ addr := by
      intro same
      subst same
      exact unused t val deadline rfl
    by_cases bucket : futexBucket a = futexBucket addr
    · simp only [Kernel.setPendingWakes, bucket, update_self]
      rw [bucket] at member
      exact mem_replace_other member other
    · simp only [Kernel.setPendingWakes, update_of_ne bucket]
      exact member
  | pend t addr =>
    by_cases bucket : futexBucket a = futexBucket addr
    · simp only [Kernel.setPendingWakes, bucket, update_self]
      rw [bucket] at member
      exact pendingWakeInsert_keeps nonzero member
    · simp only [Kernel.setPendingWakes, update_of_ne bucket]
      exact member
  | _ => exact member

theorem step_pending (nonzero : a ≠ 0) (pending : Pending a s) (unused : consumes a s act = false)
    (taken : step s act = some s') : Pending a s' := by
  cases step_cases taken with
  | @cpu c k p bound own =>
    refine effect_pending nonzero (cpuStep_effect own) pending ?_
    intro t val deadline here
    simp [consumes, here] at unused
  | call f bound here | interrupt bound waits open_ | ambient mem now blocking notCpu =>
    exact pending
  | @timer c watchdog bound open_ resched rescues blocking kernel =>
    rw [kernel]
    exact pending

theorem unheard_pends (here : s.pc c = .wakeScan t a count i 0) (nobody : maxThreads ≤ i)
    (room : a ∈ s.kernel.pendingWakes (futexBucket a) ∨ 0 ∈ s.kernel.pendingWakes (futexBucket a))
    (taken : step s (.cpu c) = some s') : Pending a s' := by
  obtain ⟨k, p, rfl, effect⟩ := step_own taken
  rw [here] at effect
  cases effect with
  | quiet go =>
    cases go with
    | wakeNext => omega
    | wakeDone _ _ _ _ _ stop any => exact absurd rfl any
  | pend =>
    show a ∈ update s.kernel.pendingWakes (futexBucket a) _ (futexBucket a)
    rw [update_self]
    exact pendingWakeInsert_adds room
  | wake => omega

theorem pending_returns (pending : Pending a s) (bound : d < s.kernel.numCpus)
    (next : s.pc d = .waitConsume u a val deadline) :
    ∃ s' s'', step s (.cpu d) = some s' ∧ step s' (.cpu d) = some s'' ∧ s''.pc d = .user u 0 := by
  unfold Pending at pending
  let slots := (s.kernel.pendingWakes (futexBucket a)).replace a 0
  let s' := s.goto d (s.kernel.setPendingWakes (futexBucket a) slots)
    (.unlock (futexBucket a) (.back (.user u 0)))
  have first : step s (.cpu d) = some s' := by
    simp only [step, bound, if_true, next, cpuStep, pendingWakeConsume, pending]
    rfl
  have second : step s' (.cpu d) =
      some (s'.goto d (s'.kernel.setFutexLock (futexBucket a) false) (.user u 0)) := by
    have here : s'.pc d = .unlock (futexBucket a) (.back (.user u 0)) := goto_here ..
    have online : d < s'.kernel.numCpus := bound
    simp only [step, online, if_true, here, cpuStep]
    rfl
  exact ⟨s', _, first, second, goto_here ..⟩

/-- A futex_wake that asked for a waiter, found none and had a slot to remember it in is
    answered by the next wait on its address, however long that takes to come. -/
theorem unheard_wake_reaches_next_wait {n c t a count i d u val : Nat} {deadline : Option Nat}
    {later earlier : List (System × Action)} {w s : System} (some_cpu : 0 < n) (nonzero : a ≠ 0)
    (run : Run step (boot n) (later ++ (w, .cpu c) :: earlier) s)
    (ends : w.pc c = .wakeScan t a count i 0) (nobody : maxThreads ≤ i)
    (room : a ∈ w.kernel.pendingWakes (futexBucket a) ∨ 0 ∈ w.kernel.pendingWakes (futexBucket a))
    (unused : ∀ e ∈ later, consumes a e.1 e.2 = false)
    (next : s.pc d = .waitConsume u a val deadline) :
    ∃ s' s'', step s (.cpu d) = some s' ∧ step s' (.cpu d) = some s'' ∧ s''.pc d = .user u 0 := by
  obtain ⟨mid, before, taken, after⟩ := run_at run
  have pending : Pending a s :=
    run_invariant_of (fun s act => consumes a s act = false) (Pending a)
      (unheard_pends ends nobody room taken)
      (fun _ _ _ holds free step => step_pending nonzero holds free step) after unused
  have online := run_online some_cpu run
  have bound : d < s.kernel.numCpus := by
    by_contra beyond
    rw [online.offline d (by rw [← online.numCpus]; omega)] at next
    cases next
  exact pending_returns pending bound next

def unheardAt (s : System) : Bool :=
  match s.pc 0 with
  | .wakeScan _ 4096 _ i 0 => decide (maxThreads ≤ i)
  | _ => false

def looksAt (s : System) : Bool :=
  match s.pc 0 with
  | .waitConsume _ 4096 _ _ => true
  | _ => false
def missedAt (s : System) : Bool :=
  match s.pc 0 with
  | .waitLoad _ 4096 _ _ => true
  | _ => false

theorem unheardAt_place (test : unheardAt s = true) :
    ∃ t count i, s.pc 0 = .wakeScan t 4096 count i 0 ∧ maxThreads ≤ i := by
  unfold unheardAt at test
  split at test
  · exact ⟨_, _, _, by assumption, of_decide_eq_true test⟩
  · cases test

theorem looksAt_place (test : looksAt s = true) :
    ∃ u val deadline, s.pc 0 = .waitConsume u 4096 val deadline := by
  unfold looksAt at test
  split at test
  · exact ⟨_, _, _, by assumption⟩
  · cases test

def unheardWake (addr : Nat) : List Action := callSteps 0 (.futexWake addr 1) 34

theorem wake_then_wait_returns :
    ∃ past s s' s'' u, Run step (boot 1) past s ∧ step s (.cpu 0) = some s' ∧
      step s' (.cpu 0) = some s'' ∧ s''.pc 0 = .user u 0 ∧ s.kernel.mem 4096 ≠ 7 := by
  obtain ⟨later, w, earlier, s, run, ends, _, unused, looks⟩ := run_through (fun _ _ => true)
    (fun s a => !consumes 4096 s a) step (boot 1) (cloneSteps ++ unheardWake 4096) (.cpu 0)
    (cpuSteps 0 2 ++ callSteps 0 (.futexWaitUntil 4096 7 none) 2)
    (fun w => unheardAt w && decide (0 ∈ w.kernel.pendingWakes (futexBucket 4096)))
    (fun s => looksAt s && decide (s.kernel.mem 4096 ≠ 7)) (by decide)
  simp only [Bool.and_eq_true, decide_eq_true_eq, Bool.not_eq_true'] at ends looks unused
  obtain ⟨t, count, i, place, nobody⟩ := unheardAt_place ends.1
  obtain ⟨u, val, deadline, next⟩ := looksAt_place looks.1
  obtain ⟨s', s'', first, second, back⟩ := unheard_wake_reaches_next_wait (n := 1) (by decide)
    (by decide) run place nobody (.inr ends.2) unused next
  exact ⟨_, s, s', s'', u, run, first, second, back, looks.2⟩

/-- Eight words of the same bucket are woken before word 4096: its wake finds no free slot, and
    the wait on it goes on to read the word. -/
theorem ninth_pending_wake_lost :
    ∃ later w earlier s s' t count i,
      Run step (boot 1) (later ++ (w, .cpu 0) :: earlier) s ∧
      w.pc 0 = .wakeScan t 4096 count i 0 ∧ maxThreads ≤ i ∧
      (∀ e ∈ later, consumes 4096 e.1 e.2 = false) ∧
      (∃ u val deadline, s.pc 0 = .waitConsume u 4096 val deadline) ∧
      step s (.cpu 0) = some s' ∧ ∃ u val deadline, s'.pc 0 = .waitLoad u 4096 val deadline := by
  obtain ⟨later, w, earlier, s, run, ends, _, unused, looks⟩ := run_through (fun _ _ => true)
    (fun s a => !consumes 4096 s a) step (boot 1)
    (cloneSteps ++
      ((List.range 8).map fun i => unheardWake (4160 + 64 * i) ++ cpuSteps 0 3).flatten ++
      unheardWake 4096) (.cpu 0)
    (cpuSteps 0 2 ++ callSteps 0 (.futexWaitUntil 4096 0 none) 2) unheardAt
    (fun s => looksAt s && (step s (.cpu 0)).any missedAt) (by decide +kernel)
  simp only [Bool.and_eq_true, Bool.not_eq_true'] at looks unused
  obtain ⟨t, count, i, place, nobody⟩ := unheardAt_place ends
  obtain ⟨s', taken, missed⟩ := (Option.any_eq_true _ _).mp looks.2
  refine ⟨later, w, earlier, s, s', t, count, i, run, place, nobody, unused,
    looksAt_place looks.1, taken, ?_⟩
  unfold missedAt at missed
  split at missed
  · exact ⟨_, _, _, by assumption⟩
  · cases missed

end TynKernel.Sched
