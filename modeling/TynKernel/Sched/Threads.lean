import TynKernel.Lib.RunQueues
import TynKernel.Sched.Effect

/-!
The scheduler seen as a board of run queues. A CPU's place tells which thread it has as its
current one, which thread it runs and which one it is creating.
-/
namespace TynKernel.Sched
open Function RunQueues

def Caller.thread : Caller → Option Nat
  | .user t _ => some t
  | .apMain => none

def RescueCaller.thread : RescueCaller → Option Nat
  | .idle => none
  | .yield y => y.thread
  | .check t _ => some t

def After.thread : After → Option Nat
  | .back y | .yield y => y.thread
  | .rescues _ r => r.thread
  | .idleTop | .idleReset => none
  | .waitFinish t => some t

def Pc.current : Pc → Option Nat
  | .user t _ => some t
  | .release a | .forceUnlock _ a | .unlock _ a | .unlockThreads _ a => a.thread
  | .apHlt | .apHalted => none
  | .idleCli | .idleCheck | .idleHlt | .idleHalted | .idleSti | .idlePop | .idleInstall _ |
    .idleReset => none
  | .rescueScan _ r | .rescueRead _ r | .rescueLock _ _ r | .rescueThreadLock _ _ r |
    .rescueCommit _ _ r | .rescueIpi _ _ _ r => r.thread
  | .yieldQueue y => y.thread
  | .yieldSwitch _ _ next => some next
  | .checkFlag t _ => some t
  | .waitEnter t _ _ _ | .waitLock t _ _ _ | .waitConsume t _ _ _ | .waitLoad t _ _ _ |
    .waitValve t _ _ _ | .waitMark t _ _ _ | .waitQueue t _ | .waitFinish t => some t
  | .waitHandoff _ _ next | .waitSwitch _ next => next
  | .wakeLock t _ _ | .wakeThreadLock t _ _ | .wakeScan t _ _ _ _ | .wakeIpi t _ _ _ _ _ => some t
  | .spawnTid t _ | .spawnInsert t _ _ | .spawnScan t _ _ _ _ _ _ | .spawnHome t _ _ _ |
    .spawnPush t _ _ | .spawnIpi t _ _ | .spawnUnlock t _ => some t
  | .exitQueue t | .exitLoop t => some t
  | .exitSwitch _ => none

def Pc.runs : Pc → Option Nat
  | .waitQueue _ _ => none
  | .idleInstall next => some next
  | p => p.current

def Pc.spawns : Pc → Option Nat
  | .spawnScan _ tid _ _ _ _ _ | .spawnHome _ tid _ _ | .spawnPush _ tid _ => some tid
  | _ => none

def Pc.reserves : Pc → Option Nat
  | .spawnInsert _ tid _ => some tid
  | _ => none

def Pc.Fits (k : Kernel) : Pc → Prop
  | .yieldSwitch y cur _ => (∃ rax, y = .user cur rax) ∧ k.threads cur ≠ none
  | .waitQueue t _ | .waitHandoff t _ _ | .waitSwitch t _ => k.threads t ≠ none
  | .exitSwitch t => ∃ r, k.threads t = some r ∧ r.state = .dead
  | .exitLoop _ => False
  | .spawnInsert _ tid _ => tid < k.nextTid ∧ tid < maxThreads ∧ k.threads tid = none
  | .spawnScan _ _ _ _ best _ _ | .spawnHome _ _ _ best => best < k.numCpus
  | .spawnPush _ tid best => ∃ r, k.threads tid = some r ∧ r.homeCpu = best
  | _ => True

def Resume.Fits (t : Nat) (state : ThreadState) : Resume → Prop
  | .child | .waited => True
  | .yielded y => ∃ rax, y = .user t rax
  | .exited => state = .dead

structure Thread.Sane (nextTid numCpus t : Nat) (r : Thread) : Prop where
  tid : r.tid = t
  slot : t < maxThreads
  used : t < nextTid
  home : r.homeCpu < numCpus
  ctx : r.ctx.Fits t r.state

def ThreadState.status : ThreadState → Status
  | .ready | .running => .ready
  | .blocked => .asleep
  | .dead => .dead

def board (k : Kernel) (pc : Nat → Pc) : Board Nat Nat where
  status t := (k.threads t).map fun r => r.state.status
  home t := ((k.threads t).map fun r => r.homeCpu).getD 0
  queue := k.queue
  runs c := (pc c).runs
  spawns c := (pc c).spawns

/-- The invariant of a system whose thread numbers have not wrapped around. -/
structure Sound (s : System) : Prop where
  cpus : 0 < s.kernel.numCpus ∧ s.kernel.numCpus ≤ maxCpus
  current : ∀ c, s.kernel.current c = (s.pc c).current
  idle : ∀ c, s.kernel.idle c = (s.kernel.current c).isNone
  record : ∀ t r, s.kernel.threads t = some r →
    r.Sane s.kernel.nextTid s.kernel.numCpus t
  fits : ∀ c, (s.pc c).Fits s.kernel
  reserved : ∀ c d tid, (s.pc c).reserves = some tid → (s.pc d).reserves = some tid → c = d
  placed : Placed (board s.kernel s.pc)

variable {k : Kernel} {r old new : Thread} {s : System}

theorem board_status (h : (board k pc).status t = some st) :
    ∃ r, k.threads t = some r ∧ r.state.status = st := Option.map_eq_some_iff.mp h

theorem board_status_of (pc : Nat → Pc) (get : k.threads t = some r) :
    (board k pc).status t = some r.state.status := by
  simp [board, get]

theorem board_home_of (pc : Nat → Pc) (get : k.threads t = some r) :
    (board k pc).home t = r.homeCpu := by
  simp [board, get]

theorem status_ready {st : ThreadState} (h : st.status = .ready) :
    st ≠ .blocked ∧ st ≠ .dead := by
  cases st <;> simp [ThreadState.status] at h ⊢

theorem sound_queued {c t : Nat} (sound : Sound s) (member : t ∈ s.kernel.queue c) :
    ∃ r, s.kernel.threads t = some r ∧ r.homeCpu = c ∧ r.state ≠ .blocked ∧ r.state ≠ .dead := by
  obtain ⟨ready, home⟩ := sound.placed.queued c t member
  obtain ⟨r, get, status⟩ := board_status ready
  rw [board_home_of s.pc get] at home
  exact ⟨r, get, home, status_ready status⟩

theorem sound_current (sound : Sound s) (here : (s.pc c).current = some t)
    (cur : s.kernel.current c = some tid) : t = tid := by
  have same := sound.current c
  rw [cur, here] at same
  exact (Option.some.inj same).symm

theorem sound_running {c t : Nat} (sound : Sound s) (runs : (s.pc c).runs = some t) :
    ∃ r, s.kernel.threads t = some r ∧ r.homeCpu = c ∧ r.state ≠ .blocked ∧ r.state ≠ .dead ∧
      t ∉ s.kernel.queue c := by
  obtain ⟨ready, home, free⟩ := sound.placed.running c t runs
  obtain ⟨r, get, status⟩ := board_status ready
  rw [board_home_of s.pc get] at home
  obtain ⟨notBlocked, notDead⟩ := status_ready status
  exact ⟨r, get, home, notBlocked, notDead, free⟩

theorem resume_view (sane : r.Sane nextTid numCpus t) (alive : r.state ≠ .dead) :
    (r.ctx.pc t).current = some t ∧ (r.ctx.pc t).runs = some t ∧ (r.ctx.pc t).spawns = none ∧
      (r.ctx.pc t).reserves = none ∧ ∀ k', (r.ctx.pc t).Fits k' := by
  have fits := sane.ctx
  cases ctx : r.ctx with
  | child | waited => exact ⟨rfl, rfl, rfl, rfl, fun _ => trivial⟩
  | yielded =>
    rw [ctx] at fits
    obtain ⟨rax, rfl⟩ := fits
    exact ⟨rfl, rfl, rfl, rfl, fun _ => trivial⟩
  | exited =>
    rw [ctx] at fits
    exact absurd fits alive

theorem board_update (k : Kernel) (pc : Nat → Pc) (c : Nat) (p : Pc) :
    board k (update pc c p) = ((board k pc).setRuns c p.runs).setSpawns c p.spawns := by
  simp only [board, Board.setRuns, Board.setSpawns, Board.mk.injEq, true_and]
  constructor
  · funext d
    simp only [update_apply]
    split <;> rfl
  · funext d
    simp only [update_apply]
    split <;> rfl

theorem board_update_same (k : Kernel) (pc : Nat → Pc) (runs : p.runs = (pc c).runs)
    (spawns : p.spawns = (pc c).spawns) : board k (update pc c p) = board k pc := by
  rw [board_update, Board.setRuns_self _ (c := c) runs.symm, Board.setSpawns_self _ (c := c) spawns.symm]

theorem board_update_runs (k : Kernel) (pc : Nat → Pc) (spawns : p.spawns = (pc c).spawns) :
    board k (update pc c p) = (board k pc).setRuns c p.runs := by
  rw [board_update]
  exact Board.setSpawns_self _ (c := c) spawns.symm

theorem board_setThread (pc : Nat → Pc) (get : k.threads t = some old)
    (home : new.homeCpu = old.homeCpu) :
    board (k.setThread t new) pc = (board k pc).setStatus t new.state.status := by
  simp only [board, Board.setStatus, Kernel.setThread, Board.mk.injEq, and_true]
  constructor
  · funext u
    simp only [update_apply]
    split <;> simp
  funext u
  simp only [update_apply]
  split
  · rename_i same
    subst same
    simp [get, home]
  · rfl

theorem board_setThread_same (pc : Nat → Pc) (get : k.threads t = some old)
    (home : new.homeCpu = old.homeCpu) (state : new.state = old.state) :
    board (k.setThread t new) pc = board k pc := by
  rw [board_setThread pc get home, state]
  exact Board.setStatus_self _ (board_status_of pc get)

structure SameTable (k k' : Kernel) : Prop where
  threads : k'.threads = k.threads
  nextTid : k'.nextTid = k.nextTid
  numCpus : k'.numCpus = k.numCpus

/-- What a place says about the table stays true while records are only rewritten, the dead
    stay dead, and nobody touches the numbers and threads that the place works on. -/
theorem fits_grows {p : Pc} (k k' : Kernel) (nextTid : k.nextTid ≤ k'.nextTid)
    (numCpus : k'.numCpus = k.numCpus)
    (keeps : ∀ t r, k.threads t = some r → ∃ r', k'.threads t = some r' ∧
      (p.spawns = some t → r'.homeCpu = r.homeCpu) ∧ (r.state = .dead → r'.state = .dead))
    (absent : ∀ t, p.reserves = some t → k.threads t = none → k'.threads t = none)
    (fits : p.Fits k) : p.Fits k' := by
  have known : ∀ t, k.threads t ≠ none → k'.threads t ≠ none := by
    intro t exist
    obtain ⟨r, get⟩ := Option.ne_none_iff_exists'.mp exist
    obtain ⟨r', get', _⟩ := keeps t r get
    simp [get']
  cases p with
  | yieldSwitch y cur => exact ⟨fits.1, known cur fits.2⟩
  | waitQueue t addr | waitHandoff t addr next | waitSwitch t next => exact known t fits
  | exitSwitch t =>
    obtain ⟨r, get, dead⟩ := fits
    obtain ⟨r', get', _, stays⟩ := keeps t r get
    exact ⟨r', get', stays dead⟩
  | spawnInsert t tid =>
    exact ⟨Nat.lt_of_lt_of_le fits.1 nextTid, fits.2.1, absent tid rfl fits.2.2⟩
  | spawnScan t tid req cpu best bestLen foundIdle | spawnHome t tid req best =>
    simp only [Pc.Fits, numCpus] at fits ⊢
    exact fits
  | spawnPush t tid =>
    obtain ⟨r, get, home⟩ := fits
    obtain ⟨r', get', same, _⟩ := keeps tid r get
    exact ⟨r', get', (same rfl).trans home⟩
  | exitLoop => exact fits
  | _ => trivial

theorem fits_same {p : Pc} (same : SameTable k k') (fits : p.Fits k) :
    p.Fits k' := by
  refine fits_grows k k' (Nat.le_of_eq same.nextTid.symm) same.numCpus ?_ ?_ fits
  · intro t r get
    exact ⟨r, by rw [same.threads]; exact get, fun _ => rfl, id⟩
  · intro t _ absent
    rw [same.threads]
    exact absent

theorem fits_setThread {p : Pc} (get : k.threads t = some old)
    (home : p.spawns = some t → new.homeCpu = old.homeCpu)
    (dead : old.state = .dead → new.state = .dead) (fits : p.Fits k) :
    p.Fits (k.setThread t new) := by
  refine fits_grows k (k.setThread t new) (Nat.le_refl _) rfl ?_ ?_ fits
  · intro u r have_
    by_cases same : u = t
    · subst same
      cases get.symm.trans have_
      exact ⟨new, update_self _ _ _, home, dead⟩
    · exact ⟨r, (update_of_ne same _ _).trans have_, fun _ => rfl, id⟩
  · intro u _ absent
    have other : u ≠ t := by
      intro same
      rw [same, get] at absent
      cases absent
    exact (update_of_ne other _ _).trans absent

theorem fits_insert {p : Pc} (absent : k.threads t = none) (other : p.reserves ≠ some t)
    (fits : p.Fits k) : p.Fits (k.setThread t new) := by
  refine fits_grows k (k.setThread t new) (Nat.le_refl _) rfl ?_ ?_ fits
  · intro u r have_
    have differs : u ≠ t := by
      intro same
      rw [same, absent] at have_
      cases have_
    exact ⟨r, (update_of_ne differs _ _).trans have_, fun _ => rfl, id⟩
  · intro u reserved none
    have differs : u ≠ t := by
      intro same
      exact other (same ▸ reserved)
    exact (update_of_ne differs _ _).trans none

end TynKernel.Sched
