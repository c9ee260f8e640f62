import Mathlib.Algebra.Group.Nat.Defs
import TynKernel.Lib.Runs
import TynKernel.Sched.State

/-!
The scheduler as a step function. A step is one critical section of a queue lock, one
acquisition or release of a futex bucket lock or of THREAD_LOCK, or one access to a shared
atomic; what a function does on its own data rides on the step before it. Inside a section
of a bucket lock and THREAD_LOCK the change of a thread's state and the push to its queue
are one step, since no other code reads the one under the lock of the other.
-/
namespace TynKernel.Sched
open Runs

def rescueNext (i addr : Nat) (r : RescueCaller) : Pc :=
  .unlockThreads (futexBucket addr) (.rescues (i + 1) r)

def Kernel.switchTo (k : Kernel) (t : Nat) (r : Thread) (ctx : Resume) (next : Nat) :
    Option (Kernel × Pc) :=
  let k' := k.setThread t { r with ctx := ctx }
  (k'.threads next).map fun n => (k', n.ctx.pc next)

def Kernel.switchToIdle (k : Kernel) (c t : Nat) (r : Thread) (ctx : Resume) : Kernel × Pc :=
  (k.setThread t { r with ctx := ctx }, (k.idleCtx c).pc)

/-- The next step of CPU c at its place, with the shared data and the place after it. There
    is none where the CPU waits for a lock, is halted or runs user code. -/
def cpuStep (k : Kernel) (c : Nat) : Pc → Option (Kernel × Pc)
  | .user _ _ => none
  -- release_pending_unlock: the swap, then force_unlock
  | .release a =>
    match k.pendingUnlock c with
    | none => some (k, a.pc)
    | some b => some (k.setPendingUnlock c none, .forceUnlock b a)
  | .forceUnlock b a => some (k.setFutexLock b false, a.pc)
  -- the end of a lock guard's scope
  | .unlock b a => some (k.setFutexLock b false, a.pc)
  | .unlockThreads b a => some ({ k with threadLock := false }, .unlock b a)
  -- ap_main
  | .apHlt => some (k, .apHalted)
  | .apHalted => none
  -- cpu_idle_loop
  | .idleCli => some (k, .idleCheck)
  | .idleCheck => some (k, if (k.queue c).isEmpty then .idleHlt else .idleSti)
  | .idleHlt => some (k, .idleHalted)
  | .idleHalted => none
  | .idleSti => some (k, .idlePop)
  | .idlePop =>
    match k.queue c with
    | [] => some (k, .release .idleTop)
    | next :: rest => some (k.setQueue c rest, .idleInstall next)
  | .idleInstall next =>
    let k' := (k.setCurrent c (some next)).setIdle c false
    match k.threads next with
    | some r => some ({ k' with idleCtx := Function.update k.idleCtx c .after }, r.ctx.pc next)
    | none => some (k', .release .idleTop)
  | .idleReset => some ((k.setCurrent c none).setIdle c true, .release .idleTop)
  -- process_rescues
  | .rescueScan i r =>
    if i < maxThreads then
      if k.rescueRequested i then some (k.setRescueRequested i false, .rescueRead i r)
      else some (k, .rescueScan (i + 1) r)
    else some (k, r.pc)
  | .rescueRead i r =>
    match k.threads i with
    | some th =>
      if th.state = .blocked ∧ th.futexAddr ≠ 0 then some (k, .rescueLock i th.futexAddr r)
      else some (k, .rescueScan (i + 1) r)
    | none => some (k, .rescueScan (i + 1) r)
  | .rescueLock i addr r =>
    if k.futexLock (futexBucket addr) then none
    else some (k.setFutexLock (futexBucket addr) true, .rescueThreadLock i addr r)
  | .rescueThreadLock i addr r =>
    if k.threadLock then none else some ({ k with threadLock := true }, .rescueCommit i addr r)
  | .rescueCommit i addr r =>
    match k.threads i with
    | some th =>
      if th.state = .blocked then some (k.rescue i th, .rescueIpi i addr th.homeCpu r)
      else some (k, rescueNext i addr r)
    | none => some (k, rescueNext i addr r)
  | .rescueIpi i addr target r => some (k.sendIpi c target, rescueNext i addr r)
  -- yield_current
  | .yieldQueue y =>
    match k.current c, k.queue c with
    | _, [] => some (k, y.pc)
    | none, next :: rest =>
      let k' := ((k.setQueue c rest).setCurrent c (some next)).setIdle c false
      match k.threads next with
      | some r => some (k', r.ctx.pc next)
      | none => some (k', y.pc)
    | some cur, next :: rest =>
      some ((k.setQueue c (rest ++ [cur])).setCurrent c (some next), .yieldSwitch y cur next)
  | .yieldSwitch y cur next =>
    match k.threads cur, k.threads next with
    | some r, some _ => k.switchTo cur r (.yielded y) next
    | _, _ => some (k, y.pc)
  -- check_resched
  | .checkFlag t rax =>
    if k.needResched c then
      some ({ k with needResched := Function.update k.needResched c false },
        .rescueScan 0 (.yield (.user t rax)))
    else some (k, .user t rax)
  -- futex_wait_until
  | .waitEnter t addr val deadline =>
    if k.nextTid ≤ 1 then some (k, .rescueScan 0 (.yield (.user t 0)))
    else some (k, .waitLock t addr val deadline)
  | .waitLock t addr val deadline =>
    if k.futexLock (futexBucket addr) then none
    else some (k.setFutexLock (futexBucket addr) true, .waitConsume t addr val deadline)
  | .waitConsume t addr val deadline =>
    match pendingWakeConsume (k.pendingWakes (futexBucket addr)) addr with
    | some slots =>
      some (k.setPendingWakes (futexBucket addr) slots,
        .unlock (futexBucket addr) (.back (.user t 0)))
    | none => some (k, .waitLoad t addr val deadline)
  | .waitLoad t addr val deadline =>
    if k.mem addr = val then some (k, .waitValve t addr val deadline)
    else some (k, .unlock (futexBucket addr) (.back (.user t (-11))))
  | .waitValve t addr val deadline =>
    if k.futexBlocking then some (k, .waitMark t addr val deadline)
    else
      some ({ k with firstSpinyieldNs := if k.firstSpinyieldNs = 0 then k.now else k.firstSpinyieldNs },
        .unlock (futexBucket addr) (.yield (.user t 0)))
  | .waitMark t addr val deadline =>
    match k.current c with
    | none => some (k, .unlock (futexBucket addr) (.back (.user t 0)))
    | some tid =>
      match k.threads tid with
      | some r => some (k.markBlocked tid r addr val deadline, .waitQueue tid addr)
      | none => some (k, .waitQueue tid addr)
  | .waitQueue tid addr =>
    match k.queue c with
    | [] => some ((k.setCurrent c none).setIdle c true, .waitHandoff tid addr none)
    | next :: rest =>
      some ((k.setQueue c rest).setCurrent c (some next), .waitHandoff tid addr (some next))
  | .waitHandoff tid addr next =>
    some (k.setPendingUnlock c (some (futexBucket addr)), .waitSwitch tid next)
  | .waitSwitch tid (some next) =>
    match k.threads tid, k.threads next with
    | some r, some _ => k.switchTo tid r .waited next
    | _, _ => some (k, .release (.waitFinish tid))
  | .waitSwitch tid none =>
    match k.threads tid with
    | some r => some (k.switchToIdle c tid r .waited)
    | none => some (k, .release (.waitFinish tid))
  | .waitFinish t =>
    match k.threads t with
    | some r =>
      some (k.setThread t { r with waitTimedOut := false, waitDeadlineNs := 0 },
        .user t (if r.waitTimedOut then -110 else 0))
    | none => some (k, .user t 0)
  -- futex_wake
  | .wakeLock t addr count =>
    if k.futexLock (futexBucket addr) then none
    else some (k.setFutexLock (futexBucket addr) true, .wakeThreadLock t addr count)
  | .wakeThreadLock t addr count =>
    if k.threadLock then none else some ({ k with threadLock := true }, .wakeScan t addr count 0 0)
  | .wakeScan t addr count i woken =>
    if woken < count ∧ i < maxThreads then
      match k.threads i with
      | some th =>
        if th.state = .blocked ∧ th.futexAddr = addr then
          some (k.wake i th, .wakeIpi t addr count i woken th.homeCpu)
        else some (k, .wakeScan t addr count (i + 1) woken)
      | none => some (k, .wakeScan t addr count (i + 1) woken)
    else
      let slots := k.pendingWakes (futexBucket addr)
      some (if woken = 0 then k.setPendingWakes (futexBucket addr) (pendingWakeInsert slots addr)
          else k,
        .unlockThreads (futexBucket addr) (.back (.user t woken)))
  | .wakeIpi t addr count i woken target =>
    some (k.sendIpi c target, .wakeScan t addr count (i + 1) (woken + 1))
  -- spawn
  | .spawnTid t req =>
    let k' := { k with nextTid := (k.nextTid + 1) % 2 ^ 32 }
    if maxThreads ≤ k.nextTid then some (k', .user t 0)
    else some (k', .spawnInsert t k.nextTid req)
  | .spawnInsert t tid req =>
    if k.threadLock then none
    else some ({ k.insertThread tid with threadLock := true },
      .spawnScan t tid req 0 0 (2 ^ 64 - 1) false)
  | .spawnScan t tid req cpu best bestLen foundIdle =>
    if cpu < k.numCpus then
      let (best, bestLen, foundIdle) :=
        spawnConsider cpu (k.queue cpu).length (k.idle cpu) best bestLen foundIdle
      some (k, .spawnScan t tid req (cpu + 1) best bestLen foundIdle)
    else some (k, .spawnHome t tid req best)
  | .spawnHome t tid req best => some ((k.setHome tid best).settid tid req, .spawnPush t tid best)
  | .spawnPush t tid best => some (k.setQueue best (k.queue best ++ [tid]), .spawnIpi t tid best)
  | .spawnIpi t tid best =>
    some (if k.idle best then k.sendIpi c best else k, .spawnUnlock t tid)
  | .spawnUnlock t tid => some ({ k with threadLock := false }, .user t tid)
  -- thread_exit
  | .exitQueue _ =>
    let k' := (k.setCurrent c none).setIdle c true
    match k.current c with
    | some tid =>
      match k.threads tid with
      | some r => some (k'.setThread tid { r with state := .dead }, .exitSwitch tid)
      | none => some (k', .exitSwitch tid)
    | none => some (k', .exitSwitch 0)
  | .exitSwitch tid =>
    match k.threads tid with
    | some r => some (k.switchToIdle c tid r .exited)
    | none => none
  | .exitLoop _ => none

structure System where
  kernel : Kernel
  pc : Nat → Pc

/-- The scheduler's entry points for a running thread; check_resched is the syscall exit. -/
inductive Call where
  | yieldCurrent
  | futexWaitUntil (addr val : Nat) (deadline : Option Nat)
  | futexWake (addr count : Nat)
  | spawn (req : CloneRequest)
  | threadExit
  | checkResched
  deriving DecidableEq, Repr

def Call.enter (t : Nat) (rax : Int) : Call → Pc
  | .yieldCurrent => .rescueScan 0 (.yield (.user t 0))
  | .futexWaitUntil addr val deadline => .waitEnter t addr val deadline
  | .futexWake addr count => .wakeLock t addr count
  | .spawn req => .spawnTid t req
  | .threadExit => .exitQueue t
  | .checkResched => .rescueScan 0 (.check t rax)

/-- A step of a CPU, a call by the thread that runs there, the delivery of a wake IPI or of
    a timer interrupt (with or without the watchdog), a store by user code, the passing of
    time, or enable_blocking_futex. -/
inductive Action where
  | cpu (c : Nat)
  | call (c : Nat) (f : Call)
  | interrupt (c : Nat)
  | timer (c : Nat) (watchdog : Bool)
  | write (addr val : Nat)
  | clock (ns : Nat)
  | enableBlockingFutex
  deriving DecidableEq, Repr

/-- Interrupts are off from cli up to the hlt or the sti that follows. -/
def Pc.masked : Pc → Bool
  | .idleCheck | .idleHlt | .idleSti => true
  | _ => false

def Pc.awake : Pc → Pc
  | .apHalted => .rescueScan 0 (.yield .apMain)
  | .idleHalted => .idlePop
  | p => p

def System.goto (s : System) (c : Nat) (k : Kernel) (p : Pc) : System :=
  { kernel := k, pc := Function.update s.pc c p }

def Kernel.timerTick (k : Kernel) (c : Nat) (watchdog : Bool) : Kernel :=
  let k' := { k with needResched := Function.update k.needResched c true }
  if watchdog then k'.watchdogWake else k'

def step (s : System) : Action → Option System
  | .cpu c =>
    if c < s.kernel.numCpus then
      (cpuStep s.kernel c (s.pc c)).map fun (k, p) => s.goto c k p
    else none
  | .call c f =>
    match s.pc c with
    | .user t rax => if c < s.kernel.numCpus then some (s.goto c s.kernel (f.enter t rax)) else none
    | _ => none
  | .interrupt c =>
    if c < s.kernel.numCpus ∧ s.kernel.ipi c ∧ !(s.pc c).masked then
      some (s.goto c { s.kernel with ipi := Function.update s.kernel.ipi c false } (s.pc c).awake)
    else none
  | .timer c watchdog =>
    if c < s.kernel.numCpus ∧ !(s.pc c).masked then
      some (s.goto c (s.kernel.timerTick c watchdog) (s.pc c).awake)
    else none
  | .write addr val => some { s with kernel := s.kernel.setMem addr val }
  | .clock ns => some { s with kernel := { s.kernel with now := s.kernel.now + ns } }
  | .enableBlockingFutex => some { s with kernel := { s.kernel with futexBlocking := true } }

def mainThread : Thread where
  tid := 0
  state := .running
  ctx := .child
  futexAddr := 0
  futexVal := 0
  inIdleCtx := false
  homeCpu := 0
  waitDeadlineNs := 0
  waitTimedOut := false
  blockedSinceNs := 0

/-- After init(n) on the boot CPU, with the other CPUs in ap_main's loop. -/
def boot (n : Nat) : System where
  kernel :=
    { numCpus := n
      threads := fun t => if t = 0 then some mainThread else none
      nextTid := 1
      current := fun c => if c = 0 then some 0 else none
      queue := fun _ => []
      idle := fun c => decide (c ≠ 0)
      idleCtx := fun _ => .top
      futexLock := fun _ => false
      threadLock := false
      pendingWakes := fun _ => List.replicate pendingWakesPerBucket 0
      pendingUnlock := fun _ => none
      futexBlocking := false
      firstSpinyieldNs := 0
      needResched := fun _ => false
      rescueRequested := fun _ => false
      mem := fun _ => 0
      now := 0
      ipi := fun _ => false }
  pc := fun c => if c = 0 then .user 0 0 else .apHlt

theorem boot_place {P : Pc → Prop} (user : P (.user 0 0)) (idle : P .apHlt) (n c : Nat) :
    P ((boot n).pc c) := by
  by_cases main : c = 0
  · simpa only [boot, main, if_true] using user
  · simpa only [boot, main, if_false] using idle

/-- The outcomes of a step. What the environment does leaves the scheduler's data alone:
    it may raise flags, open the futex valve, write user memory and let time pass. -/
inductive Stepped (s : System) : Action → System → Prop where
  | cpu {c : Nat} {k : Kernel} {p : Pc} (bound : c < s.kernel.numCpus)
      (own : cpuStep s.kernel c (s.pc c) = some (k, p)) : Stepped s (.cpu c) (s.goto c k p)
  | call {c t : Nat} {rax : Int} (f : Call) (bound : c < s.kernel.numCpus)
      (here : s.pc c = .user t rax) :
      Stepped s (.call c f) (s.goto c s.kernel (f.enter t rax))
  | interrupt {c : Nat} (bound : c < s.kernel.numCpus) (pending : s.kernel.ipi c = true)
      (open_ : (s.pc c).masked = false) :
      Stepped s (.interrupt c)
        (s.goto c { s.kernel with ipi := Function.update s.kernel.ipi c false } (s.pc c).awake)
  | timer {c : Nat} {watchdog : Bool} (bound : c < s.kernel.numCpus)
      (open_ : (s.pc c).masked = false) (resched rescues : Nat → Bool) (blocking : Bool)
      (kernel : s.kernel.timerTick c watchdog =
        { s.kernel with
          needResched := resched, rescueRequested := rescues, futexBlocking := blocking }) :
      Stepped s (.timer c watchdog) (s.goto c (s.kernel.timerTick c watchdog) (s.pc c).awake)
  | ambient {a : Action} (mem : Nat → Nat) (now : Nat) (blocking : Bool)
      (notCpu : ∀ c, a ≠ .cpu c) :
      Stepped s a { s with kernel := { s.kernel with mem := mem, now := now, futexBlocking := blocking } }

theorem timerTick_eq (k : Kernel) (c : Nat) (watchdog : Bool) :
    ∃ resched rescues blocking, k.timerTick c watchdog =
      { k with needResched := resched, rescueRequested := rescues, futexBlocking := blocking } := by
  cases watchdog with
  | false | true => exact ⟨_, _, _, rfl⟩

theorem step_cases (taken : step s a = some s') : Stepped s a s' := by
  cases a with
  | cpu =>
    simp only [step] at taken
    split at taken
    · rename_i bound
      obtain ⟨⟨k, p⟩, own, eq⟩ := Option.map_eq_some_iff.mp taken
      subst eq
      exact .cpu bound own
    · cases taken
  | call c f =>
    simp only [step] at taken
    split at taken
    · rename_i t rax here
      split at taken
      · rename_i bound
        obtain rfl := Option.some.inj taken
        exact .call f bound here
      · cases taken
    · cases taken
  | interrupt =>
    simp only [step] at taken
    split at taken
    · rename_i guard
      obtain rfl := Option.some.inj taken
      exact .interrupt guard.1 guard.2.1 (by simpa using guard.2.2)
    · cases taken
  | timer c watchdog =>
    simp only [step] at taken
    split at taken
    · rename_i guard
      obtain rfl := Option.some.inj taken
      obtain ⟨resched, rescues, blocking, kernel⟩ := timerTick_eq s.kernel c watchdog
      exact .timer guard.1 (by simpa using guard.2) resched rescues blocking kernel
    · cases taken
  | write =>
    obtain rfl := Option.some.inj taken
    exact .ambient _ s.kernel.now s.kernel.futexBlocking (fun _ h => by cases h)
  | clock =>
    obtain rfl := Option.some.inj taken
    exact .ambient s.kernel.mem _ s.kernel.futexBlocking (fun _ h => by cases h)
  | enableBlockingFutex =>
    obtain rfl := Option.some.inj taken
    exact .ambient s.kernel.mem s.kernel.now true (fun _ h => by cases h)

def Pc.Steady (p : Pc) : Prop := p.awake = p ∧ ∀ t rax, p ≠ .user t rax

theorem steady_stays (steady : (s.pc c).Steady) (taken : step s a = some s')
    (elsewhere : a ≠ .cpu c) : s'.pc c = s.pc c := by
  cases step_cases taken with
  | @cpu d =>
    have other : c ≠ d := fun same => elsewhere (by rw [same])
    exact Function.update_of_ne other _ _
  | @call d t rax f bound here =>
    have other : c ≠ d := by
      intro same
      subst same
      exact steady.2 t rax here
    exact Function.update_of_ne other _ _
  | @interrupt d bound pending open_
  | @timer d =>
    by_cases same : c = d
    · subst same
      exact (Function.update_self _ _ _).trans steady.1
    · exact Function.update_of_ne same _ _
  | ambient => rfl

end TynKernel.Sched
