import TynKernel.Sched.Step

/-!
Every outcome of a step of a CPU, with the tests that lead to it. The invariants of the
scheduler are proved by cases over these outcomes and never unfold the step function.
-/
namespace TynKernel.Sched
open Runs

/-- Steps that move the CPU and change no shared data. -/
inductive Quiet (k : Kernel) (c : Nat) : Pc → Pc → Prop where
  | nothingOwed (a : After) (empty : k.pendingUnlock c = none) : Quiet k c (.release a) a.pc
  | apHlt : Quiet k c .apHlt .apHalted
  | cli : Quiet k c .idleCli .idleCheck
  | noWork (empty : k.queue c = []) : Quiet k c .idleCheck .idleHlt
  | work (waiting : k.queue c ≠ []) : Quiet k c .idleCheck .idleSti
  | hlt : Quiet k c .idleHlt .idleHalted
  | sti : Quiet k c .idleSti .idlePop
  | popNone (empty : k.queue c = []) : Quiet k c .idlePop (.release .idleTop)
  | noFlag (i : Nat) (r : RescueCaller) : Quiet k c (.rescueScan i r) (.rescueScan (i + 1) r)
  | scanned (i : Nat) (r : RescueCaller) : Quiet k c (.rescueScan i r) r.pc
  | readAddr (i : Nat) (r : RescueCaller) (th : Thread) (get : k.threads i = some th)
      (blocked : th.state = .blocked) (nonzero : th.futexAddr ≠ 0) :
      Quiet k c (.rescueRead i r) (.rescueLock i th.futexAddr r)
  | readSkip (i : Nat) (r : RescueCaller) : Quiet k c (.rescueRead i r) (.rescueScan (i + 1) r)
  | commitSkip (i addr : Nat) (r : RescueCaller) :
      Quiet k c (.rescueCommit i addr r) (rescueNext i addr r)
  | yieldNone (y : Caller) (empty : k.queue c = []) : Quiet k c (.yieldQueue y) y.pc
  | switchMissing (y : Caller) (cur next : Nat)
      (missing : k.threads cur = none ∨ k.threads next = none) :
      Quiet k c (.yieldSwitch y cur next) y.pc
  | checkNone (t : Nat) (rax : Int) : Quiet k c (.checkFlag t rax) (.user t rax)
  | waitAlone (t addr val : Nat) (deadline : Option Nat) :
      Quiet k c (.waitEnter t addr val deadline) (.rescueScan 0 (.yield (.user t 0)))
  | waitMany (t addr val : Nat) (deadline : Option Nat) :
      Quiet k c (.waitEnter t addr val deadline) (.waitLock t addr val deadline)
  | consumeNone (t addr val : Nat) (deadline : Option Nat)
      (absent : addr ∉ k.pendingWakes (futexBucket addr)) :
      Quiet k c (.waitConsume t addr val deadline) (.waitLoad t addr val deadline)
  | loadSame (t addr val : Nat) (deadline : Option Nat) (same : k.mem addr = val) :
      Quiet k c (.waitLoad t addr val deadline) (.waitValve t addr val deadline)
  | loadDiffers (t addr val : Nat) (deadline : Option Nat) (differs : k.mem addr ≠ val) :
      Quiet k c (.waitLoad t addr val deadline)
        (.unlock (futexBucket addr) (.back (.user t (-11))))
  | valve (t addr val : Nat) (deadline : Option Nat) :
      Quiet k c (.waitValve t addr val deadline) (.waitMark t addr val deadline)
  | markNone (t addr val : Nat) (deadline : Option Nat) (vacant : k.current c = none) :
      Quiet k c (.waitMark t addr val deadline)
        (.unlock (futexBucket addr) (.back (.user t 0)))
  | markMissing (t addr val : Nat) (deadline : Option Nat) (tid : Nat)
      (cur : k.current c = some tid) (missing : k.threads tid = none) :
      Quiet k c (.waitMark t addr val deadline) (.waitQueue tid addr)
  | sleepMissing (tid : Nat) (next : Option Nat)
      (missing : k.threads tid = none ∨ ∃ n, next = some n ∧ k.threads n = none) :
      Quiet k c (.waitSwitch tid next) (.release (.waitFinish tid))
  | finishMissing (t : Nat) (missing : k.threads t = none) : Quiet k c (.waitFinish t) (.user t 0)
  | wakeNext (t addr count i woken : Nat)
      (other : ∀ th, k.threads i = some th → th.state = .blocked → th.futexAddr ≠ addr)
      (room : woken < count ∧ i < maxThreads) :
      Quiet k c (.wakeScan t addr count i woken) (.wakeScan t addr count (i + 1) woken)
  | wakeDone (t addr count i woken : Nat) (stop : ¬ (woken < count ∧ i < maxThreads))
      (any : woken ≠ 0) :
      Quiet k c (.wakeScan t addr count i woken)
        (.unlockThreads (futexBucket addr) (.back (.user t woken)))
  | spawnNext (t tid : Nat) (req : CloneRequest) (cpu best bestLen : Nat) (foundIdle : Bool)
      (more : cpu < k.numCpus) (pick : Nat × Nat × Bool)
      (picked : pick =
        spawnConsider cpu (k.queue cpu).length (k.idle cpu) best bestLen foundIdle) :
      Quiet k c (.spawnScan t tid req cpu best bestLen foundIdle)
        (.spawnScan t tid req (cpu + 1) pick.1 pick.2.1 pick.2.2)
  | spawnDone (t tid : Nat) (req : CloneRequest) (cpu best bestLen : Nat) (foundIdle : Bool)
      (last : ¬ cpu < k.numCpus) :
      Quiet k c (.spawnScan t tid req cpu best bestLen foundIdle) (.spawnHome t tid req best)

/-- All outcomes: the quiet moves, then those on locks, flags and interrupts, then those on
    threads and queues. -/
inductive Effect (k : Kernel) (c : Nat) : Pc → Kernel → Pc → Prop where
  | quiet {p p' : Pc} (go : Quiet k c p p') : Effect k c p k p'
  | takeOwed (a : After) (b : Nat) (owed : k.pendingUnlock c = some b) :
      Effect k c (.release a) (k.setPendingUnlock c none) (.forceUnlock b a)
  | forceUnlock (b : Nat) (a : After) :
      Effect k c (.forceUnlock b a) (k.setFutexLock b false) a.pc
  | unlock (b : Nat) (a : After) : Effect k c (.unlock b a) (k.setFutexLock b false) a.pc
  | unlockThreads (b : Nat) (a : After) :
      Effect k c (.unlockThreads b a) { k with threadLock := false } (.unlock b a)
  | lockRescue (i addr : Nat) (r : RescueCaller) (free : k.futexLock (futexBucket addr) = false) :
      Effect k c (.rescueLock i addr r) (k.setFutexLock (futexBucket addr) true)
        (.rescueThreadLock i addr r)
  | lockRescueThreads (i addr : Nat) (r : RescueCaller) (free : k.threadLock = false) :
      Effect k c (.rescueThreadLock i addr r) { k with threadLock := true } (.rescueCommit i addr r)
  | lockWait (t addr val : Nat) (deadline : Option Nat)
      (free : k.futexLock (futexBucket addr) = false) :
      Effect k c (.waitLock t addr val deadline) (k.setFutexLock (futexBucket addr) true)
        (.waitConsume t addr val deadline)
  | lockWake (t addr count : Nat) (free : k.futexLock (futexBucket addr) = false) :
      Effect k c (.wakeLock t addr count) (k.setFutexLock (futexBucket addr) true)
        (.wakeThreadLock t addr count)
  | lockWakeThreads (t addr count : Nat) (free : k.threadLock = false) :
      Effect k c (.wakeThreadLock t addr count) { k with threadLock := true }
        (.wakeScan t addr count 0 0)
  | handoff (tid addr : Nat) (next : Option Nat) :
      Effect k c (.waitHandoff tid addr next) (k.setPendingUnlock c (some (futexBucket addr)))
        (.waitSwitch tid next)
  | unlockSpawn (t tid : Nat) :
      Effect k c (.spawnUnlock t tid) { k with threadLock := false } (.user t tid)
  | takeFlag (i : Nat) (r : RescueCaller) :
      Effect k c (.rescueScan i r) (k.setRescueRequested i false) (.rescueRead i r)
  | takeResched (t : Nat) (rax : Int) :
      Effect k c (.checkFlag t rax)
        { k with needResched := Function.update k.needResched c false }
        (.rescueScan 0 (.yield (.user t rax)))
  | stamp (t addr val : Nat) (deadline : Option Nat) (ns : Nat) :
      Effect k c (.waitValve t addr val deadline) { k with firstSpinyieldNs := ns }
        (.unlock (futexBucket addr) (.yield (.user t 0)))
  | consume (t addr val : Nat) (deadline : Option Nat)
      (present : addr ∈ k.pendingWakes (futexBucket addr)) :
      Effect k c (.waitConsume t addr val deadline)
        (k.setPendingWakes (futexBucket addr) ((k.pendingWakes (futexBucket addr)).replace addr 0))
        (.unlock (futexBucket addr) (.back (.user t 0)))
  | pend (t addr count i : Nat) (stop : ¬ (0 < count ∧ i < maxThreads)) :
      Effect k c (.wakeScan t addr count i 0)
        (k.setPendingWakes (futexBucket addr)
          (pendingWakeInsert (k.pendingWakes (futexBucket addr)) addr))
        (.unlockThreads (futexBucket addr) (.back (.user t 0)))
  | ipiRescue (i addr target : Nat) (r : RescueCaller) (ipi : Nat → Bool)
      (sent : k.sendIpi c target = { k with ipi := ipi }) :
      Effect k c (.rescueIpi i addr target r) { k with ipi := ipi } (rescueNext i addr r)
  | ipiWake (t addr count i woken target : Nat) (ipi : Nat → Bool)
      (sent : k.sendIpi c target = { k with ipi := ipi }) :
      Effect k c (.wakeIpi t addr count i woken target) { k with ipi := ipi }
        (.wakeScan t addr count (i + 1) (woken + 1))
  | ipiSpawn (t tid best : Nat) (ipi : Nat → Bool)
      (sent : (if k.idle best then k.sendIpi c best else k) = { k with ipi := ipi }) :
      Effect k c (.spawnIpi t tid best) { k with ipi := ipi } (.spawnUnlock t tid)
  | pop (next : Nat) (rest : List Nat) (head : k.queue c = next :: rest) :
      Effect k c .idlePop (k.setQueue c rest) (.idleInstall next)
  | install (next : Nat) (r : Thread) (get : k.threads next = some r) :
      Effect k c (.idleInstall next)
        { (k.setCurrent c (some next)).setIdle c false with
          idleCtx := Function.update k.idleCtx c .after } (r.ctx.pc next)
  | installMissing (next : Nat) (missing : k.threads next = none) :
      Effect k c (.idleInstall next) ((k.setCurrent c (some next)).setIdle c false)
        (.release .idleTop)
  | reset : Effect k c .idleReset ((k.setCurrent c none).setIdle c true) (.release .idleTop)
  | rescue (i addr : Nat) (r : RescueCaller) (th : Thread) (get : k.threads i = some th)
      (blocked : th.state = .blocked) (threads : Nat → Option Thread) (queue : Nat → List Nat)
      (rescued : k.rescue i th = { k with threads := threads, queue := queue }) :
      Effect k c (.rescueCommit i addr r) { k with threads := threads, queue := queue }
        (.rescueIpi i addr th.homeCpu r)
  | resume (y : Caller) (next : Nat) (rest : List Nat) (r : Thread) (vacant : k.current c = none)
      (head : k.queue c = next :: rest) (get : k.threads next = some r) :
      Effect k c (.yieldQueue y) (((k.setQueue c rest).setCurrent c (some next)).setIdle c false)
        (r.ctx.pc next)
  | resumeMissing (y : Caller) (next : Nat) (rest : List Nat) (vacant : k.current c = none)
      (head : k.queue c = next :: rest) (missing : k.threads next = none) :
      Effect k c (.yieldQueue y) (((k.setQueue c rest).setCurrent c (some next)).setIdle c false)
        y.pc
  | rotate (y : Caller) (cur next : Nat) (rest : List Nat) (busy : k.current c = some cur)
      (head : k.queue c = next :: rest) :
      Effect k c (.yieldQueue y) ((k.setQueue c (rest ++ [cur])).setCurrent c (some next))
        (.yieldSwitch y cur next)
  | switch (y : Caller) (cur next : Nat) (r n : Thread) (get : k.threads cur = some r)
      (other : (k.setThread cur { r with ctx := .yielded y }).threads next = some n) :
      Effect k c (.yieldSwitch y cur next) (k.setThread cur { r with ctx := .yielded y })
        (n.ctx.pc next)
  | mark (t addr val : Nat) (deadline : Option Nat) (tid : Nat) (r : Thread)
      (cur : k.current c = some tid) (get : k.threads tid = some r) :
      Effect k c (.waitMark t addr val deadline) (k.markBlocked tid r addr val deadline)
        (.waitQueue tid addr)
  | sleepAlone (tid addr : Nat) (empty : k.queue c = []) :
      Effect k c (.waitQueue tid addr) ((k.setCurrent c none).setIdle c true)
        (.waitHandoff tid addr none)
  | sleepNext (tid addr next : Nat) (rest : List Nat) (head : k.queue c = next :: rest) :
      Effect k c (.waitQueue tid addr) ((k.setQueue c rest).setCurrent c (some next))
        (.waitHandoff tid addr (some next))
  | sleepSwitch (tid next : Nat) (r n : Thread) (get : k.threads tid = some r)
      (other : (k.setThread tid { r with ctx := .waited }).threads next = some n) :
      Effect k c (.waitSwitch tid (some next)) (k.setThread tid { r with ctx := .waited })
        (n.ctx.pc next)
  | sleepIdle (tid : Nat) (r : Thread) (get : k.threads tid = some r) :
      Effect k c (.waitSwitch tid none) (k.setThread tid { r with ctx := .waited })
        (k.idleCtx c).pc
  | finish (t : Nat) (r : Thread) (get : k.threads t = some r) :
      Effect k c (.waitFinish t)
        (k.setThread t { r with waitTimedOut := false, waitDeadlineNs := 0 })
        (.user t (if r.waitTimedOut then -110 else 0))
  | wake (t addr count i woken : Nat) (th : Thread) (get : k.threads i = some th)
      (blocked : th.state = .blocked) (same : th.futexAddr = addr)
      (room : woken < count ∧ i < maxThreads) :
      Effect k c (.wakeScan t addr count i woken) (k.wake i th)
        (.wakeIpi t addr count i woken th.homeCpu)
  | allocFull (t : Nat) (req : CloneRequest) (full : maxThreads ≤ k.nextTid) :
      Effect k c (.spawnTid t req) { k with nextTid := (k.nextTid + 1) % 2 ^ 32 } (.user t 0)
  | alloc (t : Nat) (req : CloneRequest) (room : k.nextTid < maxThreads) :
      Effect k c (.spawnTid t req) { k with nextTid := (k.nextTid + 1) % 2 ^ 32 }
        (.spawnInsert t k.nextTid req)
  | insert (t tid : Nat) (req : CloneRequest) (free : k.threadLock = false) :
      Effect k c (.spawnInsert t tid req) { k.insertThread tid with threadLock := true }
        (.spawnScan t tid req 0 0 (2 ^ 64 - 1) false)
  | home (t tid : Nat) (req : CloneRequest) (best : Nat) (threads : Nat → Option Thread)
      (mem : Nat → Nat)
      (written : (k.setHome tid best).settid tid req = { k with threads := threads, mem := mem }) :
      Effect k c (.spawnHome t tid req best) { k with threads := threads, mem := mem }
        (.spawnPush t tid best)
  | push (t tid best : Nat) :
      Effect k c (.spawnPush t tid best) (k.setQueue best (k.queue best ++ [tid]))
        (.spawnIpi t tid best)
  | exit (t tid : Nat) (r : Thread) (cur : k.current c = some tid) (get : k.threads tid = some r) :
      Effect k c (.exitQueue t)
        (((k.setCurrent c none).setIdle c true).setThread tid { r with state := .dead })
        (.exitSwitch tid)
  | exitMissing (t tid : Nat)
      (missing : k.current c = none ∨ (k.current c = some tid ∧ k.threads tid = none)) :
      Effect k c (.exitQueue t) ((k.setCurrent c none).setIdle c true) (.exitSwitch tid)
  | exitIdle (tid : Nat) (r : Thread) (get : k.threads tid = some r) :
      Effect k c (.exitSwitch tid) (k.setThread tid { r with ctx := .exited }) (k.idleCtx c).pc

variable {k k' : Kernel} {p' p : Pc} {c n : Nat} {s s' : System} {a : Action}

theorem sendIpi_eq (k : Kernel) (c target : Nat) :
    ∃ ipi, k.sendIpi c target = { k with ipi := ipi } := by
  unfold Kernel.sendIpi
  split <;> exact ⟨_, rfl⟩

theorem settid_eq (k : Kernel) (tid : Nat) (req : CloneRequest) :
    ∃ mem, k.settid tid req = { k with mem := mem } := by
  unfold Kernel.settid
  split <;> split <;> exact ⟨_, rfl⟩

theorem setHome_eq (k : Kernel) (tid best : Nat) :
    ∃ threads, k.setHome tid best = { k with threads := threads } := by
  unfold Kernel.setHome
  split <;> exact ⟨_, rfl⟩

theorem home_eq (k : Kernel) (tid best : Nat) (req : CloneRequest) :
    ∃ threads mem, (k.setHome tid best).settid tid req =
      { k with threads := threads, mem := mem } := by
  obtain ⟨threads, home⟩ := setHome_eq k tid best
  obtain ⟨mem, written⟩ := settid_eq (k.setHome tid best) tid req
  rw [written, home]
  exact ⟨threads, mem, rfl⟩

theorem rescue_eq (k : Kernel) (i : Nat) (r : Thread) :
    ∃ threads queue, k.rescue i r = { k with threads := threads, queue := queue } := by
  unfold Kernel.rescue
  split <;> exact ⟨_, _, rfl⟩

theorem ipiSpawn_eq (k : Kernel) (c best : Nat) :
    ∃ ipi, (if k.idle best then k.sendIpi c best else k) = { k with ipi := ipi } := by
  split
  · exact sendIpi_eq k c best
  · exact ⟨_, rfl⟩

theorem switchTo_some (taken : k.switchTo t r ctx next = some (k', p')) :
    k' = k.setThread t { r with ctx := ctx } ∧
      ∃ n, (k.setThread t { r with ctx := ctx }).threads next = some n ∧ p' = n.ctx.pc next := by
  obtain ⟨n, get, eq⟩ := Option.map_eq_some_iff.mp taken
  obtain ⟨rfl, rfl⟩ := Prod.mk.inj eq
  exact ⟨rfl, n, get, rfl⟩

theorem spin_taken (taken : (if held then none else some after) = some after') :
    held = false ∧ after = after' := by
  cases held with
  | false => exact ⟨rfl, Option.some.inj taken⟩
  | true => cases taken

inductive Func where
  | unlock | idle | rescue | yield | wait | wake | spawn | exit
  deriving DecidableEq

def Pc.func : Pc → Func
  | .user .. | .release _ | .forceUnlock .. | .unlock .. | .unlockThreads .. => .unlock
  | .apHlt | .apHalted | .idleCli | .idleCheck | .idleHlt | .idleHalted | .idleSti | .idlePop |
    .idleInstall _ | .idleReset => .idle
  | .rescueScan .. | .rescueRead .. | .rescueLock .. | .rescueThreadLock .. | .rescueCommit .. |
    .rescueIpi .. => .rescue
  | .yieldQueue _ | .yieldSwitch .. | .checkFlag .. => .yield
  | .waitEnter .. | .waitLock .. | .waitConsume .. | .waitLoad .. | .waitValve .. | .waitMark .. |
    .waitQueue .. | .waitHandoff .. | .waitSwitch .. | .waitFinish _ => .wait
  | .wakeLock .. | .wakeThreadLock .. | .wakeScan .. | .wakeIpi .. => .wake
  | .spawnTid .. | .spawnInsert .. | .spawnScan .. | .spawnHome .. | .spawnPush .. |
    .spawnIpi .. | .spawnUnlock .. => .spawn
  | .exitQueue _ | .exitSwitch _ | .exitLoop _ => .exit

section Functions
-- the equations of cpuStep, once for all lemmas of the section
attribute [local simp] cpuStep
variable (taken : cpuStep k c p = some (k', p'))
include taken

theorem unlock_effect (place : p.func = .unlock) : Effect k c p k' p' := by
  cases p with
  | user => cases taken
  | release a =>
    simp only [cpuStep] at taken
    split at taken
    · rename_i empty
      cases taken
      exact .quiet (.nothingOwed a empty)
    · rename_i b owed
      cases taken
      exact .takeOwed a b owed
  | forceUnlock => cases taken; exact .forceUnlock ..
  | unlock => cases taken; exact .unlock ..
  | unlockThreads => cases taken; exact .unlockThreads ..
  | _ => cases place

theorem idle_effect (place : p.func = .idle) : Effect k c p k' p' := by
  cases p with
  | apHalted | idleHalted => cases taken
  | apHlt => cases taken; exact .quiet .apHlt
  | idleCli => cases taken; exact .quiet .cli
  | idleCheck =>
    obtain ⟨rfl, rfl⟩ := taken
    split
    · rename_i empty
      exact .quiet (.noWork (List.isEmpty_iff.mp empty))
    · rename_i waiting
      exact .quiet (.work (fun empty => waiting (List.isEmpty_iff.mpr empty)))
  | idleHlt => cases taken; exact .quiet .hlt
  | idleSti => cases taken; exact .quiet .sti
  | idlePop =>
    simp only [cpuStep] at taken
    split at taken
    · rename_i empty
      cases taken
      exact .quiet (.popNone empty)
    · rename_i next rest head
      cases taken
      exact .pop next rest head
  | idleInstall next =>
    simp only [cpuStep] at taken
    split at taken
    · rename_i r get
      cases taken
      exact .install next r get
    · rename_i missing
      cases taken
      exact .installMissing next missing
  | idleReset => cases taken; exact .reset
  | _ => cases place

theorem rescue_effect (place : p.func = .rescue) : Effect k c p k' p' := by
  cases p with
  | rescueScan =>
    simp only [cpuStep] at taken
    split at taken
    · split at taken
      · cases taken; exact .takeFlag ..
      · cases taken; exact .quiet (.noFlag ..)
    · cases taken; exact .quiet (.scanned ..)
  | rescueRead i r =>
    simp only [cpuStep] at taken
    split at taken
    · rename_i th get
      split at taken
      · rename_i waits
        cases taken
        exact .quiet (.readAddr i r th get waits.1 waits.2)
      · cases taken; exact .quiet (.readSkip ..)
    · cases taken; exact .quiet (.readSkip ..)
  | rescueLock i addr r =>
    obtain ⟨free, same⟩ := spin_taken taken
    cases same
    exact .lockRescue i addr r free
  | rescueThreadLock i addr r =>
    obtain ⟨free, same⟩ := spin_taken taken
    cases same
    exact .lockRescueThreads i addr r free
  | rescueCommit i addr r =>
    simp only [cpuStep] at taken
    split at taken
    · rename_i th get
      split at taken
      · rename_i blocked
        cases taken
        obtain ⟨threads, queue, rescued⟩ := rescue_eq k i th
        rw [rescued]
        exact .rescue i addr r th get blocked threads queue rescued
      · cases taken; exact .quiet (.commitSkip ..)
    · cases taken; exact .quiet (.commitSkip ..)
  | rescueIpi i addr target r =>
    cases taken
    obtain ⟨ipi, sent⟩ := sendIpi_eq k c target
    rw [sent]
    exact .ipiRescue i addr target r ipi sent
  | _ => cases place

theorem yield_effect (place : p.func = .yield) : Effect k c p k' p' := by
  cases p with
  | yieldQueue y =>
    simp only [cpuStep] at taken
    split at taken
    · rename_i empty
      cases taken
      exact .quiet (.yieldNone y empty)
    · rename_i next rest vacant head
      split at taken
      · rename_i r get
        cases taken
        exact .resume y next rest r vacant head get
      · rename_i missing
        cases taken
        exact .resumeMissing y next rest vacant head missing
    · rename_i cur next rest busy head
      cases taken
      exact .rotate y cur next rest busy head
  | yieldSwitch y cur next =>
    simp only [cpuStep] at taken
    split at taken
    · rename_i r n get _
      obtain ⟨rfl, n, other, rfl⟩ := switchTo_some taken
      exact .switch y cur next r n get other
    rename_i missing
    cases taken
    refine .quiet (.switchMissing y cur next ?_)
    cases getCur : k.threads cur with
    | none => exact .inl rfl
    | some r =>
      cases getNext : k.threads next with
      | none => exact .inr rfl
      | some n => exact absurd getNext (missing r n getCur)
  | checkFlag =>
    simp only [cpuStep] at taken
    split at taken
    · cases taken; exact .takeResched ..
    · cases taken; exact .quiet (.checkNone ..)
  | _ => cases place

theorem wait_effect (place : p.func = .wait) : Effect k c p k' p' := by
  cases p with
  | waitEnter =>
    simp only [cpuStep] at taken
    split at taken
    · cases taken; exact .quiet (.waitAlone ..)
    · cases taken; exact .quiet (.waitMany ..)
  | waitLock t addr val deadline =>
    obtain ⟨free, same⟩ := spin_taken taken
    cases same
    exact .lockWait t addr val deadline free
  | waitConsume t addr val deadline =>
    simp only [cpuStep, pendingWakeConsume] at taken
    split at taken
    · rename_i slots found
      split at found
      · rename_i present
        cases found
        cases taken
        exact .consume t addr val deadline present
      · cases found
    · rename_i found
      split at found
      · cases found
      · rename_i absent
        cases taken
        exact .quiet (.consumeNone t addr val deadline absent)
  | waitLoad t addr val deadline =>
    simp only [cpuStep] at taken
    split at taken
    · rename_i same
      cases taken
      exact .quiet (.loadSame t addr val deadline same)
    · rename_i differs
      cases taken
      exact .quiet (.loadDiffers t addr val deadline differs)
  | waitValve t addr val deadline =>
    simp only [cpuStep] at taken
    split at taken
    · cases taken; exact .quiet (.valve ..)
    · cases taken; exact .stamp t addr val deadline _
  | waitMark t addr val deadline =>
    simp only [cpuStep] at taken
    split at taken
    · rename_i vacant
      cases taken
      exact .quiet (.markNone t addr val deadline vacant)
    rename_i tid cur
    split at taken
    · rename_i r get
      cases taken
      exact .mark t addr val deadline tid r cur get
    · rename_i missing
      cases taken
      exact .quiet (.markMissing t addr val deadline tid cur missing)
  | waitQueue tid addr =>
    simp only [cpuStep] at taken
    split at taken
    · rename_i empty
      cases taken
      exact .sleepAlone tid addr empty
    · rename_i next rest head
      cases taken
      exact .sleepNext tid addr next rest head
  | waitHandoff => cases taken; exact .handoff ..
  | waitSwitch tid next =>
    cases next with
    | none =>
      simp only [cpuStep] at taken
      split at taken
      · rename_i r get
        cases taken
        exact .sleepIdle tid r get
      · rename_i missing
        cases taken
        exact .quiet (.sleepMissing tid none (.inl missing))
    | some next =>
      simp only [cpuStep] at taken
      split at taken
      · rename_i r n get _
        obtain ⟨rfl, n, other, rfl⟩ := switchTo_some taken
        exact .sleepSwitch tid next r n get other
      rename_i missing
      cases taken
      refine .quiet (.sleepMissing tid (some next) ?_)
      cases getTid : k.threads tid with
      | none => exact .inl rfl
      | some r =>
        cases getNext : k.threads next with
        | none => exact .inr ⟨next, rfl, getNext⟩
        | some n => exact absurd getNext (missing r n getTid)
  | waitFinish t =>
    simp only [cpuStep] at taken
    split at taken
    · rename_i r get
      cases taken
      exact .finish t r get
    · rename_i missing
      cases taken
      exact .quiet (.finishMissing t missing)
  | _ => cases place

theorem wake_effect (place : p.func = .wake) : Effect k c p k' p' := by
  cases p with
  | wakeLock t addr count =>
    obtain ⟨free, same⟩ := spin_taken taken
    cases same
    exact .lockWake t addr count free
  | wakeThreadLock t addr count =>
    obtain ⟨free, same⟩ := spin_taken taken
    cases same
    exact .lockWakeThreads t addr count free
  | wakeScan t addr count i woken =>
    simp only [cpuStep] at taken
    split at taken
    · rename_i room
      split at taken
      · rename_i th get
        split at taken
        · rename_i waits
          cases taken
          exact .wake t addr count i woken th get waits.1 waits.2 room
        rename_i other
        cases taken
        refine .quiet (.wakeNext t addr count i woken ?_ room)
        intro th' get' blocked same
        cases get.symm.trans get'
        exact other ⟨blocked, same⟩
      · rename_i missing
        cases taken
        refine .quiet (.wakeNext t addr count i woken ?_ room)
        intro th' get'
        cases missing.symm.trans get'
    · rename_i stop
      obtain ⟨rfl, rfl⟩ := taken
      split
      · rename_i zero
        subst zero
        exact .pend t addr count i stop
      · rename_i any
        exact .quiet (.wakeDone t addr count i woken stop any)
  | wakeIpi t addr count i woken target =>
    cases taken
    obtain ⟨ipi, sent⟩ := sendIpi_eq k c target
    rw [sent]
    exact .ipiWake t addr count i woken target ipi sent
  | _ => cases place

theorem spawn_effect (place : p.func = .spawn) : Effect k c p k' p' := by
  cases p with
  | spawnTid t req =>
    simp only [cpuStep] at taken
    split at taken
    · rename_i full
      cases taken
      exact .allocFull t req full
    · rename_i room
      cases taken
      exact .alloc t req (Nat.lt_of_not_le room)
  | spawnInsert t tid req =>
    obtain ⟨free, same⟩ := spin_taken taken
    cases same
    exact .insert t tid req free
  | spawnScan t tid req cpu best bestLen foundIdle =>
    simp only [cpuStep] at taken
    split at taken
    · rename_i more
      cases taken
      exact .quiet (.spawnNext t tid req cpu best bestLen foundIdle more _ rfl)
    · rename_i last
      cases taken
      exact .quiet (.spawnDone t tid req cpu best bestLen foundIdle last)
  | spawnHome t tid req best =>
    cases taken
    obtain ⟨threads, mem, written⟩ := home_eq k tid best req
    rw [written]
    exact .home t tid req best threads mem written
  | spawnPush => cases taken; exact .push ..
  | spawnIpi t tid best =>
    cases taken
    obtain ⟨ipi, sent⟩ := ipiSpawn_eq k c best
    rw [sent]
    exact .ipiSpawn t tid best ipi sent
  | spawnUnlock => cases taken; exact .unlockSpawn ..
  | _ => cases place

theorem exit_effect (place : p.func = .exit) : Effect k c p k' p' := by
  cases p with
  | exitQueue t =>
    simp only [cpuStep] at taken
    split at taken
    · rename_i tid cur
      split at taken
      · rename_i r get
        cases taken
        exact .exit t tid r cur get
      · rename_i missing
        cases taken
        exact .exitMissing t tid (.inr ⟨cur, missing⟩)
    · rename_i vacant
      cases taken
      exact .exitMissing t 0 (.inl vacant)
  | exitSwitch tid =>
    simp only [cpuStep] at taken
    split at taken
    · rename_i r get
      cases taken
      exact .exitIdle tid r get
    · cases taken
  | exitLoop => cases taken
  | _ => cases place

theorem cpuStep_effect : Effect k c p k' p' := by
  cases place : p.func with
  | unlock => exact unlock_effect taken place
  | idle => exact idle_effect taken place
  | rescue => exact rescue_effect taken place
  | yield => exact yield_effect taken place
  | wait => exact wait_effect taken place
  | wake => exact wake_effect taken place
  | spawn => exact spawn_effect taken place
  | exit => exact exit_effect taken place

end Functions

theorem step_own (taken : step s (.cpu c) = some s') :
    ∃ k p, s' = s.goto c k p ∧ Effect s.kernel c (s.pc c) k p := by
  cases step_cases taken with
  | @cpu _ k p bound own => exact ⟨k, p, rfl, cpuStep_effect own⟩
  | ambient mem now blocking notCpu => exact absurd rfl (notCpu c)

theorem goto_here (s : System) (c : Nat) (k : Kernel) (p : Pc) : (s.goto c k p).pc c = p :=
  Function.update_self _ _ _

theorem goto_other (s : System) (k : Kernel) (p : Pc) (other : d ≠ c) :
    (s.goto c k p).pc d = s.pc d := Function.update_of_ne other _ _

theorem step_other (taken : step s a = some s') (elsewhere : a ≠ .cpu c) :
    s'.pc c = s.pc c ∨ s'.pc c = (s.pc c).awake ∨ ∃ t rax f, s'.pc c = Call.enter t rax f := by
  cases step_cases taken with
  | @cpu d =>
    have other : c ≠ d := fun same => elsewhere (by rw [same])
    exact .inl (goto_other _ _ _ other)
  | @call d t rax f =>
    by_cases same : c = d
    · subst same
      exact .inr (.inr ⟨t, rax, f, goto_here ..⟩)
    · exact .inl (goto_other _ _ _ same)
  | @interrupt d bound pending open_
  | @timer d =>
    by_cases same : c = d
    · subst same
      exact .inr (.inl (goto_here ..))
    · exact .inl (goto_other _ _ _ same)
  | ambient => exact .inl rfl

theorem step_keeps (f : Pc → Option B) (onAwake : ∀ p, f p.awake = f p)
    (onEnter : ∀ t rax g, f (Call.enter t rax g) = none) (taken : step s a = some s')
    (elsewhere : a ≠ .cpu c) (now : f (s'.pc c) = some x) :
    f (s.pc c) = some x := by
  rcases step_other taken elsewhere with same | awake | ⟨t, rax, g, enter⟩
  · rw [same] at now
    exact now
  · rw [awake, onAwake] at now
    exact now
  · rw [enter, onEnter] at now
    cases now

def Pc.entry : Pc → Bool
  | .user _ _ | .release _ | .apHlt | .idleCli | .idleReset | .rescueScan _ _ | .yieldQueue _ |
    .checkFlag _ _ | .waitFinish _ | .exitLoop _ => true
  | _ => false

@[simp] theorem caller_entry (y : Caller) : y.pc.entry = true := by cases y <;> rfl

@[simp] theorem rescueCaller_entry (r : RescueCaller) : r.pc.entry = true := by cases r <;> rfl

@[simp] theorem after_entry (a : After) : a.pc.entry = true := by
  cases a with
  | back y => exact caller_entry y
  | rescues | yield | idleTop | idleReset | waitFinish => rfl

@[simp] theorem resume_entry (t : Nat) (x : Resume) : (x.pc t).entry = true := by cases x <;> rfl

@[simp] theorem idleResume_entry (x : IdleResume) : x.pc.entry = true := by cases x <;> rfl

theorem effect_numCpus (effect : Effect k c p k' p') :
    k'.numCpus = k.numCpus := by
  cases effect <;> rfl

structure Online (n : Nat) (s : System) : Prop where
  numCpus : s.kernel.numCpus = n
  offline : ∀ c, n ≤ c → s.pc c = .apHlt

theorem online_goto (online : Online n s) (bound : c < s.kernel.numCpus)
    (same : k.numCpus = s.kernel.numCpus) :
    Online n (s.goto c k p) := by
  refine ⟨same.trans online.numCpus, fun d beyond => ?_⟩
  have other : d ≠ c := by
    have := online.numCpus
    omega
  rw [goto_other s k p other]
  exact online.offline d beyond

theorem step_online (online : Online n s) (taken : step s a = some s') : Online n s' := by
  cases step_cases taken with
  | cpu bound own => exact online_goto online bound (effect_numCpus (cpuStep_effect own))
  | call f bound here | interrupt bound pending open_ => exact online_goto online bound rfl
  | timer bound open_ resched rescues blocking kernel =>
    exact online_goto online bound (by rw [kernel])
  | ambient => exact ⟨online.numCpus, online.offline⟩

theorem run_online (some_cpu : 0 < n) (run : Run step (boot n) past s) : Online n s := by
  refine run_invariant (Online n) ⟨rfl, fun c beyond => ?_⟩
    (fun _ _ _ online taken => step_online online taken) run
  have other : c ≠ 0 := by omega
  simp [boot, other]

end TynKernel.Sched
