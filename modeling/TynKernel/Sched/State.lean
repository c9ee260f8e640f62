import Mathlib.Logic.Function.Basic

/-!
The data of sched.rs and the places at which a CPU can stand between two atomic steps.
A saved context is known by the code it resumes in; stacks, registers, TLS and the log
lines are left out. Times are monotonic nanoseconds and do not wrap.
-/
namespace TynKernel.Sched

def maxThreads : Nat := 32
def maxCpus : Nat := 16
def futexBuckets : Nat := 16
def pendingWakesPerBucket : Nat := 8
def blockedRescueNs : Nat := 5000000000
def blockingArmFallbackNs : Nat := 120000000000
def cloneParentSettid : BitVec 64 := 0x00100000
def cloneChildSettid : BitVec 64 := 0x01000000

def futexBucket (addr : Nat) : Nat := addr / 4 % futexBuckets

inductive ThreadState where
  | ready | running | blocked | dead
  deriving DecidableEq, Repr

/-- Where a call of yield_current returns to: a thread with its result, or ap_main's loop. -/
inductive Caller where
  | user (t : Nat) (rax : Int)
  | apMain
  deriving DecidableEq, Repr

inductive RescueCaller where
  | idle
  | yield (y : Caller)
  | check (t : Nat) (rax : Int)
  deriving DecidableEq, Repr

/-- The code behind the context_switch that saved a thread: clone_child_return for a new
    thread, the rest of yield_current, of futex_wait_until or of thread_exit. -/
inductive Resume where
  | child
  | yielded (y : Caller)
  | waited
  | exited
  deriving DecidableEq, Repr

/-- IDLE_CTX: the entry of cpu_idle_loop, or the code behind its context_switch. -/
inductive IdleResume where
  | top | after
  deriving DecidableEq, Repr

structure Thread where
  tid : Nat
  state : ThreadState
  ctx : Resume
  futexAddr : Nat
  futexVal : Nat
  inIdleCtx : Bool
  homeCpu : Nat
  waitDeadlineNs : Nat
  waitTimedOut : Bool
  blockedSinceNs : Nat
  deriving DecidableEq, Repr

/-- The shared data. A slot of pendingUnlock is none where the kernel stores -1; ipi is the
    interrupt that waits at a CPU's local APIC, and mem the futex words of user memory. -/
structure Kernel where
  numCpus : Nat
  threads : Nat → Option Thread
  nextTid : Nat
  current : Nat → Option Nat
  queue : Nat → List Nat
  idle : Nat → Bool
  idleCtx : Nat → IdleResume
  futexLock : Nat → Bool
  threadLock : Bool
  pendingWakes : Nat → List Nat
  pendingUnlock : Nat → Option Nat
  futexBlocking : Bool
  firstSpinyieldNs : Nat
  needResched : Nat → Bool
  rescueRequested : Nat → Bool
  mem : Nat → Nat
  now : Nat
  ipi : Nat → Bool

inductive After where
  | back (y : Caller)
  | rescues (i : Nat) (r : RescueCaller)
  | yield (y : Caller)
  | idleTop
  | idleReset
  | waitFinish (t : Nat)
  deriving DecidableEq, Repr

structure CloneRequest where
  childTid : Nat
  parentTid : Nat
  cloneFlags : BitVec 64
  deriving DecidableEq, Repr

/-- The place of a CPU. The name begins with the function, and t is the calling thread. -/
inductive Pc where
  | user (t : Nat) (rax : Int)
  | release (a : After)
  | forceUnlock (b : Nat) (a : After)
  | unlock (b : Nat) (a : After)
  | unlockThreads (b : Nat) (a : After)
  | apHlt
  | apHalted
  | idleCli
  | idleCheck
  | idleHlt
  | idleHalted
  | idleSti
  | idlePop
  | idleInstall (next : Nat)
  | idleReset
  | rescueScan (i : Nat) (r : RescueCaller)
  | rescueRead (i : Nat) (r : RescueCaller)
  | rescueLock (i addr : Nat) (r : RescueCaller)
  | rescueThreadLock (i addr : Nat) (r : RescueCaller)
  | rescueCommit (i addr : Nat) (r : RescueCaller)
  | rescueIpi (i addr target : Nat) (r : RescueCaller)
  | yieldQueue (y : Caller)
  | yieldSwitch (y : Caller) (cur next : Nat)
  | checkFlag (t : Nat) (rax : Int)
  | waitEnter (t addr val : Nat) (deadline : Option Nat)
  | waitLock (t addr val : Nat) (deadline : Option Nat)
  | waitConsume (t addr val : Nat) (deadline : Option Nat)
  | waitLoad (t addr val : Nat) (deadline : Option Nat)
  | waitValve (t addr val : Nat) (deadline : Option Nat)
  | waitMark (t addr val : Nat) (deadline : Option Nat)
  | waitQueue (t addr : Nat)
  | waitHandoff (t addr : Nat) (next : Option Nat)
  | waitSwitch (t : Nat) (next : Option Nat)
  | waitFinish (t : Nat)
  | wakeLock (t addr count : Nat)
  | wakeThreadLock (t addr count : Nat)
  | wakeScan (t addr count i woken : Nat)
  | wakeIpi (t addr count i woken target : Nat)
  | spawnTid (t : Nat) (req : CloneRequest)
  | spawnInsert (t tid : Nat) (req : CloneRequest)
  | spawnScan (t tid : Nat) (req : CloneRequest) (cpu best bestLen : Nat) (foundIdle : Bool)
  | spawnHome (t tid : Nat) (req : CloneRequest) (best : Nat)
  | spawnPush (t tid best : Nat)
  | spawnIpi (t tid best : Nat)
  | spawnUnlock (t tid : Nat)
  | exitQueue (t : Nat)
  | exitSwitch (t : Nat)
  | exitLoop (t : Nat)

def Caller.pc : Caller → Pc
  | .user t rax => .user t rax
  | .apMain => .apHlt

def RescueCaller.pc : RescueCaller → Pc
  | .idle => .idleCli
  | .yield y => .yieldQueue y
  | .check t rax => .checkFlag t rax

def After.pc : After → Pc
  | .back y => y.pc
  | .rescues i r => .rescueScan i r
  | .yield y => .rescueScan 0 (.yield y)
  | .idleTop => .rescueScan 0 .idle
  | .idleReset => .idleReset
  | .waitFinish t => .waitFinish t

def Resume.pc (t : Nat) : Resume → Pc
  | .child => .release (.back (.user t 0))
  | .yielded y => .release (.back y)
  | .waited => .release (.waitFinish t)
  | .exited => .exitLoop t

def IdleResume.pc : IdleResume → Pc
  | .top => .release .idleTop
  | .after => .release .idleReset

def pendingWakeInsert (slots : List Nat) (addr : Nat) : List Nat :=
  if addr ∈ slots then slots else slots.replace 0 addr

def pendingWakeConsume (slots : List Nat) (addr : Nat) : Option (List Nat) :=
  if addr ∈ slots then some (slots.replace addr 0) else none

def Thread.woken (r : Thread) : Thread :=
  { r with state := .ready, futexAddr := 0, blockedSinceNs := 0, inIdleCtx := false }

def Thread.rescued (now : Nat) (r : Thread) : Thread :=
  { r with
    state := .ready
    futexAddr := 0
    blockedSinceNs := 0
    waitTimedOut := decide (r.waitDeadlineNs ≠ 0 ∧ r.waitDeadlineNs ≤ now) || r.waitTimedOut
    waitDeadlineNs := 0 }

namespace Kernel

def setThread (k : Kernel) (t : Nat) (r : Thread) : Kernel :=
  { k with threads := Function.update k.threads t (some r) }

def setQueue (k : Kernel) (c : Nat) (tids : List Nat) : Kernel :=
  { k with queue := Function.update k.queue c tids }

def setCurrent (k : Kernel) (c : Nat) (t : Option Nat) : Kernel :=
  { k with current := Function.update k.current c t }

def setIdle (k : Kernel) (c : Nat) (b : Bool) : Kernel :=
  { k with idle := Function.update k.idle c b }

def setFutexLock (k : Kernel) (b : Nat) (held : Bool) : Kernel :=
  { k with futexLock := Function.update k.futexLock b held }

def setPendingUnlock (k : Kernel) (c : Nat) (b : Option Nat) : Kernel :=
  { k with pendingUnlock := Function.update k.pendingUnlock c b }

def setPendingWakes (k : Kernel) (b : Nat) (slots : List Nat) : Kernel :=
  { k with pendingWakes := Function.update k.pendingWakes b slots }

def setRescueRequested (k : Kernel) (i : Nat) (b : Bool) : Kernel :=
  { k with rescueRequested := Function.update k.rescueRequested i b }

def setMem (k : Kernel) (addr val : Nat) : Kernel :=
  { k with mem := Function.update k.mem addr val }

/-- send_ipi to the target, which every caller skips for the CPU it runs on. -/
def sendIpi (k : Kernel) (c target : Nat) : Kernel :=
  if target ≠ c then { k with ipi := Function.update k.ipi target true } else k

def markBlocked (k : Kernel) (t : Nat) (r : Thread) (addr val : Nat) (deadline : Option Nat) :
    Kernel :=
  k.setThread t
    { r with
      state := .blocked
      futexAddr := addr
      futexVal := val
      waitDeadlineNs := deadline.getD 0
      waitTimedOut := false
      blockedSinceNs := k.now }

def wake (k : Kernel) (i : Nat) (r : Thread) : Kernel :=
  (k.setThread i r.woken).setQueue r.homeCpu (k.queue r.homeCpu ++ [r.tid])

def rescue (k : Kernel) (i : Nat) (r : Thread) : Kernel :=
  let k' := k.setThread i (r.rescued k.now)
  if r.homeCpu < maxCpus ∧ r.tid ∉ k.queue r.homeCpu then
    k'.setQueue r.homeCpu (k.queue r.homeCpu ++ [r.tid])
  else k'

/-- The record of a new thread. Its home CPU is chosen after it is in the table. -/
def insertThread (k : Kernel) (tid : Nat) : Kernel :=
  k.setThread tid
    { tid := tid
      state := .ready
      ctx := .child
      futexAddr := 0
      futexVal := 0
      inIdleCtx := false
      homeCpu := 0
      waitDeadlineNs := 0
      waitTimedOut := false
      blockedSinceNs := 0 }

def settid (k : Kernel) (tid : Nat) (req : CloneRequest) : Kernel :=
  let k' :=
    if req.cloneFlags &&& cloneParentSettid ≠ 0 ∧ req.parentTid ≠ 0 then
      k.setMem req.parentTid tid
    else k
  if req.cloneFlags &&& cloneChildSettid ≠ 0 ∧ req.childTid ≠ 0 then k'.setMem req.childTid tid
  else k'

def setHome (k : Kernel) (tid best : Nat) : Kernel :=
  match k.threads tid with
  | some r => k.setThread tid { r with homeCpu := best }
  | none => k

def needsRescue (k : Kernel) (i : Nat) : Bool :=
  match k.threads i with
  | none => false
  | some r =>
    decide (r.state = .blocked ∧ r.futexAddr ≠ 0 ∧
      (k.mem r.futexAddr ≠ r.futexVal ∨
        (r.waitDeadlineNs ≠ 0 ∧ r.waitDeadlineNs ≤ k.now) ∨
        (r.waitDeadlineNs = 0 ∧ r.blockedSinceNs ≠ 0 ∧
          r.blockedSinceNs + blockedRescueNs ≤ k.now)))

/-- The watchdog sets flags only; it takes no lock and changes no thread. -/
def watchdogWake (k : Kernel) : Kernel :=
  { k with
    futexBlocking := k.futexBlocking ||
      decide (k.firstSpinyieldNs ≠ 0 ∧ k.firstSpinyieldNs + blockingArmFallbackNs ≤ k.now)
    rescueRequested := fun i =>
      k.rescueRequested i || (decide (i < maxThreads) && k.needsRescue i) }

end Kernel

def spawnConsider (cpu len : Nat) (isIdle : Bool) (best bestLen : Nat) (foundIdle : Bool) :
    Nat × Nat × Bool :=
  if isIdle && !foundIdle then (cpu, len, true)
  else if !foundIdle && decide (len < bestLen) then (cpu, len, foundIdle)
  else (best, bestLen, foundIdle)

end TynKernel.Sched
