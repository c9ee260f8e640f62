import TynKernel.Sched.Identity
import TynKernel.Sched.Locks

/-!
The result of clone. The number of a thread is taken from a counter that only grows, and a
slot of the thread table is never given back.
-/
namespace TynKernel.Sched
open List Ownership Runs

/-- sys_clone on the thread that runs on CPU c. Without a stack it fails at once. -/
def System.sysClone (s : System) (c stack : Nat) (req : CloneRequest) : Option System :=
  match s.pc c with
  | .user t _ =>
    if stack = 0 then some (s.goto c s.kernel (.user t (-22))) else step s (.call c (.spawn req))
  | _ => none

def Pc.allocates : Pc → Bool
  | .spawnTid _ _ => true
  | _ => false

def allocates (s : System) : Action → Bool
  | .cpu c => (s.pc c).allocates
  | _ => false

def clones (past : List (System × Action)) : Nat := past.countP fun e => allocates e.1 e.2

inductive CloneReturns (e : System × Action) (c t : Nat) (v : Int) : Prop where
  | early (req : CloneRequest) (s' : System) (here : e.1.pc c = .spawnTid t req)
      (cpu : e.2 = .cpu c) (taken : step e.1 e.2 = some s') (back : s'.pc c = .user t v)
  | late (tid : Nat) (s' : System) (here : e.1.pc c = .spawnUnlock t tid) (cpu : e.2 = .cpu c)
      (taken : step e.1 e.2 = some s') (back : s'.pc c = .user t v)

def Queued (s : System) (i : Nat) : Prop :=
  ∃ r, s.kernel.threads i = some r ∧ r.state = .ready ∧
    ∀ d, (s.kernel.queue d).count i = if d = r.homeCpu then 1 else 0

def Allocated (past : List (System × Action)) (c t i : Nat) : Prop :=
  ∃ e ∈ past, e.2 = .cpu c ∧ (∃ req, e.1.pc c = .spawnTid t req) ∧ e.1.kernel.nextTid = i ∧
    e.1.kernel.threads i = none

def Pushed (past : List (System × Action)) (c t i : Nat) : Prop :=
  ∃ e ∈ past, ∃ s', e.2 = .cpu c ∧ (∃ best, e.1.pc c = .spawnPush t i best) ∧
    step e.1 e.2 = some s' ∧ Queued s' i

def CleanClones (past : List (System × Action)) : Prop :=
  ∀ e ∈ past, ∀ c t v, CloneReturns e c t v →
    0 < v ∧ ∃ i : Nat, v = i ∧ Allocated past c t i ∧ Pushed past c t i

variable {k k' : Kernel} {p p' : Pc} {a : Action} {queued : Bool} {e : System × Action}
  {req : CloneRequest} {v : Int}

theorem effect_nextTid (effect : Effect k c p k' p') :
    k'.nextTid = if p.allocates then (k.nextTid + 1) % 2 ^ 32 else k.nextTid := by
  cases effect with
  | quiet go => cases go <;> rfl
  | _ => rfl

theorem step_nextTid (taken : step s a = some s') :
    s'.kernel.nextTid =
      if allocates s a then (s.kernel.nextTid + 1) % 2 ^ 32 else s.kernel.nextTid := by
  cases step_cases taken with
  | cpu bound own => exact effect_nextTid (cpuStep_effect own)
  | call f bound here | interrupt bound pending open_ => rfl
  | timer bound open_ resched rescues blocking kernel =>
    rw [kernel]
    rfl
  | ambient mem now blocking notCpu =>
    cases a with
    | cpu c => exact absurd rfl (notCpu c)
    | _ => rfl

theorem clones_cons (s : System) (a : Action) (past : List (System × Action)) :
    clones ((s, a) :: past) = clones past + if allocates s a then 1 else 0 :=
  countP_cons

theorem run_nextTid (run : Run step (boot n) past s) :
    s.kernel.nextTid = (1 + clones past) % 2 ^ 32 := by
  induction run with
  | nil => rfl
  | snoc before taken ih =>
    rw [step_nextTid taken, clones_cons, ih]
    split <;> omega

theorem clones_earlier (later : List (System × Action)) (e : System × Action)
    (earlier : List (System × Action)) :
    clones earlier + (if allocates e.1 e.2 then 1 else 0) ≤ clones (later ++ e :: earlier) := by
  have whole : clones (later ++ e :: earlier) = clones later + clones (e :: earlier) :=
    countP_append
  rw [whole, clones_cons e.1 e.2]
  omega

theorem clones_split (more : m < clones past) :
    ∃ later e earlier, past = later ++ e :: earlier ∧ allocates e.1 e.2 = true ∧
      clones earlier = m := by
  induction past with
  | nil => cases more
  | cons e past ih =>
    by_cases already : m < clones past
    · obtain ⟨later, e', earlier, rfl, found, count⟩ := ih already
      exact ⟨e :: later, e', earlier, rfl, found, count⟩
    rw [clones_cons e.1 e.2] at more
    split at more
    · rename_i found
      exact ⟨[], e, past, rfl, found, by omega⟩
    · omega

theorem allocates_place (allocs : allocates s a = true) :
    ∃ c t req, a = .cpu c ∧ s.pc c = .spawnTid t req := by
  cases a with
  | cpu c =>
    have allocs : (s.pc c).allocates = true := allocs
    cases here : s.pc c with
    | spawnTid t req => exact ⟨c, t, req, rfl, here⟩
    | _ =>
      rw [here] at allocs
      cases allocs
  | _ => cases allocs

theorem few_noWrap (run : Run step (boot n) past s) (few : clones past < maxThreads) :
    ∀ e ∈ past, NoWrap e.1 e.2 := by
  intro e member c t req same here
  obtain ⟨later, earlier, rfl⟩ := append_of_mem member
  obtain ⟨_, before, _⟩ := run_at run
  have count := clones_earlier later e earlier
  rw [run_nextTid before]
  unfold maxThreads at few
  omega

theorem run_running (run : Run step (boot n) past s) :
    ∀ t r, s.kernel.threads t = some r → r.state = .running → t = 0 := by
  refine run_invariant
    (fun s => ∀ t r, s.kernel.threads t = some r → r.state = .running → t = 0) ?_ ?_ run
  · intro t r get _
    simp only [boot] at get
    split at get
    · assumption
    · cases get
  · intro s a s' held taken
    cases step_cases taken with
    | cpu bound own =>
      intro t r' get' running
      rcases effect_record (cpuStep_effect own) get' with ⟨r, get, written⟩ | ⟨_, _, _, ready, _⟩
      · rcases written.state with same | other
        · exact held t r get (same.symm.trans running)
        · exact absurd running other
      · rw [ready] at running
        cases running
    | call f bound here | interrupt bound pending open_ | ambient mem now blocking notCpu =>
      exact held
    | timer bound open_ resched rescues blocking kernel =>
      rw [kernel]
      exact held

theorem member_queued (run : Run step (boot n) past s) (sound : Sound s)
    (member : i ∈ s.kernel.queue c) (cloned : 0 < i) : Queued s i := by
  obtain ⟨r, get, home, notBlocked, notDead⟩ := sound_queued sound member
  refine ⟨r, get, ?_, ?_⟩
  · cases state : r.state with
    | ready => rfl
    | running =>
      have main := run_running run i r get state
      omega
    | blocked => exact absurd state notBlocked
    | dead => exact absurd state notDead
  · intro d
    split
    · rename_i own
      rw [own, home]
      exact count_eq_one_of_mem (sound.placed.nodup c) member
    rename_i other
    refine count_eq_zero.mpr fun elsewhere => other ?_
    obtain ⟨r', get', home', _⟩ := sound_queued sound elsewhere
    cases get.symm.trans get'
    exact home'.symm

def Pc.creating : Pc → Option (Nat × Nat × Bool)
  | .spawnInsert t tid _ | .spawnScan t tid _ _ _ _ _ | .spawnHome t tid _ _ | .spawnPush t tid _ =>
    some (t, tid, false)
  | .spawnIpi t tid _ | .spawnUnlock t tid => some (t, tid, true)
  | _ => none

theorem entry_creating (entry : p.entry = true) : p.creating = none := by
  cases p with
  | spawnInsert | spawnScan | spawnHome | spawnPush | spawnIpi | spawnUnlock => cases entry
  | _ => rfl

theorem effect_creating (effect : Effect k c p k' p') (now : p'.creating = some (t, tid, queued)) :
    p.creating = some (t, tid, queued) ∨
      (queued = false ∧ (∃ req, p = .spawnTid t req) ∧ k.nextTid = tid) ∨
      (queued = true ∧ ∃ best, p = .spawnPush t tid best) := by
  cases effect with
  | quiet go =>
    cases go with
    | spawnNext | spawnDone => exact .inl now
    | nothingOwed | scanned | yieldNone | switchMissing =>
      rw [entry_creating (by simp)] at now
      cases now
    | _ => cases now
  | alloc u req =>
    cases now
    exact .inr (.inl ⟨rfl, ⟨req, rfl⟩, rfl⟩)
  | push u new best =>
    cases now
    exact .inr (.inr ⟨rfl, best, rfl⟩)
  | insert | home | ipiSpawn => exact .inl now
  | forceUnlock | unlock | install | resume | resumeMissing | switch | sleepSwitch | sleepIdle |
    exitIdle =>
    rw [entry_creating (by simp)] at now
    cases now
  | _ => cases now

section Creating
variable {n : Nat} {past : List (System × Action)} {s s' : System} {c t tid : Nat}

theorem allocated_cons (held : Allocated past c t tid) :
    Allocated (e :: past) c t tid := by
  obtain ⟨x, member, rest⟩ := held
  exact ⟨x, mem_cons_of_mem _ member, rest⟩

theorem pushed_cons (held : Pushed past c t tid) :
    Pushed (e :: past) c t tid := by
  obtain ⟨x, member, rest⟩ := held
  exact ⟨x, mem_cons_of_mem _ member, rest⟩

theorem alloc_fresh (sound : Sound s) : s.kernel.threads s.kernel.nextTid = none := by
  cases get : s.kernel.threads s.kernel.nextTid with
  | none => rfl
  | some r => exact absurd (sound.record _ r get).used (Nat.lt_irrefl _)

theorem run_creating (some_cpu : 0 < n) (few : n ≤ maxCpus) (run : Run step (boot n) past s)
    (calls : clones past < maxThreads) (now : (s.pc c).creating = some (t, tid, queued)) :
    0 < tid ∧ Allocated past c t tid ∧ (queued = true → Pushed past c t tid) := by
  induction run generalizing queued with
  | nil =>
    have idle := boot_place (P := fun p => p.creating = none) rfl rfl n c
    rw [idle] at now
    cases now
  | @snoc past s s' a before taken ih =>
    have all := few_noWrap (.snoc before taken) calls
    have sound := run_sound some_cpu few before fun e member => all e (mem_cons_of_mem _ member)
    have sound' := run_sound some_cpu few (.snoc before taken) all
    have fewer : clones past < maxThreads := by
      rw [clones_cons] at calls
      omega
    have keeps : ∀ {queued}, (s.pc c).creating = some (t, tid, queued) →
        0 < tid ∧ Allocated ((s, a) :: past) c t tid ∧
          (queued = true → Pushed ((s, a) :: past) c t tid) := by
      intro queued held
      obtain ⟨positive, allocated, pushed⟩ := ih fewer held
      exact ⟨positive, allocated_cons allocated, fun done => pushed_cons (pushed done)⟩
    by_cases own : a = .cpu c
    · subst own
      obtain ⟨k, p, rfl, effect⟩ := step_own taken
      rw [goto_here] at now
      rcases effect_creating effect now with held | ⟨rfl, ⟨req, here⟩, number⟩ | ⟨rfl, best, here⟩
      · exact keeps held
      · have positive : 0 < tid := by
          rw [← number, run_nextTid before]
          unfold maxThreads at fewer
          omega
        refine ⟨positive, ⟨_, mem_cons_self, rfl, ⟨req, here⟩, number, ?_⟩, nofun⟩
        rw [← number]
        exact alloc_fresh sound
      · have held : (s.pc c).creating = some (t, tid, false) := by
          rw [here]
          rfl
        obtain ⟨positive, allocated, _⟩ := keeps held
        refine ⟨positive, allocated, fun _ => ⟨_, mem_cons_self, _, rfl, ⟨best, here⟩, taken, ?_⟩⟩
        rw [here] at effect
        cases effect with
        | quiet go => cases go
        | push =>
          refine member_queued (c := best) (.snoc before taken) sound' ?_ positive
          simp [System.goto, Kernel.setQueue]
    · refine keeps (step_keeps Pc.creating ?_ ?_ taken own now)
      · intro p
        cases p <;> rfl
      · intro u rax f
        cases f <;> rfl

end Creating

def Pc.rank (k : Kernel) : Pc → Nat
  | .unlockThreads _ _ => 1
  | .rescueIpi _ _ _ _ => 2
  | .rescueCommit _ _ _ => 3
  | .wakeScan _ _ _ i _ => 2 * (maxThreads - i) + 2
  | .wakeIpi _ _ _ i _ _ => 2 * (maxThreads - (i + 1)) + 3
  | .spawnScan _ _ _ cpu _ _ _ => k.numCpus - cpu + 5
  | .spawnHome _ _ _ _ => 4
  | .spawnPush _ _ _ => 3
  | .spawnIpi _ _ _ => 2
  | .spawnUnlock _ _ => 1
  | _ => 0

theorem section_runs (k : Kernel) (c : Nat) (inside : p.threadSection = some ()) :
    ∃ k' p', cpuStep k c p = some (k', p') := by
  cases p with
  | rescueCommit =>
    simp only [cpuStep]
    split
    · split <;> exact ⟨_, _, rfl⟩
    · exact ⟨_, _, rfl⟩
  | wakeScan =>
    simp only [cpuStep]
    split
    · split
      · split <;> exact ⟨_, _, rfl⟩
      · exact ⟨_, _, rfl⟩
    · exact ⟨_, _, rfl⟩
  | spawnScan =>
    simp only [cpuStep]
    split <;> exact ⟨_, _, rfl⟩
  | unlockThreads | rescueIpi | wakeIpi | spawnHome | spawnPush | spawnIpi | spawnUnlock =>
    exact ⟨_, _, rfl⟩
  | _ => cases inside

theorem section_step (inside : p.threadSection = some ()) (effect : Effect k c p k' p') :
    (k'.threadLock = false ∧ ∀ t tid b, p.creating = some (t, tid, b) → p' = .user t tid) ∨
      p'.threadSection = some () ∧ p'.rank k' < p.rank k ∧
        ∀ t tid b, p.creating = some (t, tid, b) → ∃ b', p'.creating = some (t, tid, b') := by
  cases effect with
  | unlockThreads => exact .inl ⟨rfl, nofun⟩
  | unlockSpawn =>
    refine .inl ⟨rfl, ?_⟩
    intro u tid' b same
    cases same
    rfl
  | quiet go =>
    right
    cases go with
    | commitSkip => exact ⟨rfl, by simp [rescueNext, Pc.rank], nofun⟩
    | wakeNext =>
      refine ⟨rfl, ?_, nofun⟩
      simp only [Pc.rank]
      omega
    | wakeDone => exact ⟨rfl, by simp [Pc.rank], nofun⟩
    | spawnNext =>
      refine ⟨rfl, ?_, fun u tid' b same => ⟨b, same⟩⟩
      simp only [Pc.rank]
      omega
    | spawnDone => exact ⟨rfl, by simp [Pc.rank], fun u tid' b same => ⟨b, same⟩⟩
    | _ => cases inside
  | ipiRescue | rescue | pend => exact .inr ⟨rfl, by simp [rescueNext, Pc.rank], nofun⟩
  | ipiWake => exact .inr ⟨rfl, by simp [Pc.rank], nofun⟩
  | wake =>
    refine .inr ⟨rfl, ?_, nofun⟩
    simp only [Pc.rank]
    omega
  | home | ipiSpawn =>
    exact .inr ⟨rfl, by simp [Pc.rank], fun u tid' b same => ⟨b, same⟩⟩
  | push =>
    refine .inr ⟨rfl, by simp [Pc.rank], ?_⟩
    intro u tid' b same
    cases same
    exact ⟨true, rfl⟩
  | _ => cases inside

structure Untouched (s s' : System) (d : Nat) : Prop where
  numCpus : s'.kernel.numCpus = s.kernel.numCpus
  nextTid : s'.kernel.nextTid = s.kernel.nextTid
  others : ∀ c, c ≠ d → s'.pc c = s.pc c

theorem section_ends (bound : d < s.kernel.numCpus) (m : Nat) (enough : (s.pc d).rank s.kernel ≤ m)
    (inside : (s.pc d).threadSection = some ()) :
    ∃ more s', Run step s more s' ∧ (∀ e ∈ more, e.2 = .cpu d) ∧ s'.kernel.threadLock = false ∧
      Untouched s s' d ∧
      ∀ t tid b, (s.pc d).creating = some (t, tid, b) → s'.pc d = .user t tid := by
  induction m generalizing s with
  | zero =>
    cases here : s.pc d with
    | unlockThreads | rescueIpi | rescueCommit | wakeScan | wakeIpi | spawnScan | spawnHome |
      spawnPush | spawnIpi | spawnUnlock =>
      rw [here] at enough
      simp [Pc.rank] at enough
    | _ =>
      rw [here] at inside
      cases inside
  | succ m ih =>
    obtain ⟨k, p, own⟩ := section_runs s.kernel d inside
    have effect := cpuStep_effect own
    have taken : step s (.cpu d) = some (s.goto d k p) := by
      simp [step, if_pos bound, own]
    have numCpus : k.numCpus = s.kernel.numCpus := effect_numCpus effect
    have nextTid : k.nextTid = s.kernel.nextTid := by
      rw [effect_nextTid effect]
      cases here : s.pc d with
      | spawnTid =>
        rw [here] at inside
        cases inside
      | _ => rfl
    have one : Untouched s (s.goto d k p) d :=
      ⟨numCpus, nextTid, fun c other => goto_other s k p other⟩
    rcases section_step inside effect with ⟨free, back⟩ | ⟨still, less, creating⟩
    · refine ⟨_, _, .snoc .nil taken, by simp, free, one, ?_⟩
      intro t tid b now
      rw [goto_here]
      exact back t tid b now
    · have place := goto_here s d k p
      obtain ⟨more, s', run, alone, free, rest, back⟩ := ih (s := s.goto d k p)
        (by rw [← numCpus] at bound; exact bound) (by rw [place]; show p.rank k ≤ m; omega)
        (by rw [place]; exact still)
      refine ⟨more ++ [(s, .cpu d)], s', run_append (.snoc .nil taken) run, ?_, free, ?_, ?_⟩
      · exact forall_mem_append.mpr ⟨alone, by simp⟩
      · exact ⟨rest.numCpus.trans one.numCpus, rest.nextTid.trans one.nextTid,
          fun c other => (rest.others c other).trans (one.others c other)⟩
      · intro t tid b now
        obtain ⟨b', next⟩ := creating t tid b now
        rw [← place] at next
        exact back t tid b' next

theorem free_clone_returns (bound : c < s.kernel.numCpus) (here : s.pc c = .spawnTid t req)
    (room : s.kernel.nextTid < maxThreads) (free : s.kernel.threadLock = false) :
    ∃ more s', Run step s more s' ∧ (∀ e ∈ more, e.2 = .cpu c) ∧
      s'.pc c = .user t s.kernel.nextTid := by
  let taken := s.goto c { s.kernel with nextTid := (s.kernel.nextTid + 1) % 2 ^ 32 }
    (.spawnInsert t s.kernel.nextTid req)
  let placed := taken.goto c { taken.kernel.insertThread s.kernel.nextTid with threadLock := true }
    (.spawnScan t s.kernel.nextTid req 0 0 (2 ^ 64 - 1) false)
  have first : step s (.cpu c) = some taken := by
    simp only [step, if_pos bound, here, cpuStep, if_neg (Nat.not_le.mpr room), Option.map_some]
    rfl
  have second : step taken (.cpu c) = some placed := by
    have inBound : c < taken.kernel.numCpus := bound
    have inserting : taken.pc c = .spawnInsert t s.kernel.nextTid req := goto_here ..
    have unlocked : taken.kernel.threadLock = false := free
    simp only [step, if_pos inBound, inserting, cpuStep, unlocked, Bool.false_eq_true, if_false,
      Option.map_some]
    rfl
  have place : placed.pc c = .spawnScan t s.kernel.nextTid req 0 0 (2 ^ 64 - 1) false :=
    goto_here ..
  obtain ⟨more, s', run, alone, _, _, back⟩ := section_ends (s := placed) (d := c) bound _
    (Nat.le_refl _) (by rw [place]; rfl)
  refine ⟨more ++ [(taken, .cpu c), (s, .cpu c)], s',
    run_append (.snoc (.snoc .nil first) second) run, ?_, ?_⟩
  · exact forall_mem_append.mpr ⟨alone, by simp⟩
  · exact back t s.kernel.nextTid false (by rw [place]; rfl)

theorem clone_can_return (some_cpu : 0 < n) (run : Run step (boot n) past s)
    (here : s.pc c = .spawnTid t req) (room : s.kernel.nextTid < maxThreads) :
    ∃ more s', Run step s more s' ∧ (∀ e ∈ more, ∃ d, e.2 = .cpu d) ∧
      s'.pc c = .user t s.kernel.nextTid := by
  have online := run_online some_cpu run
  have inRange : ∀ d, s.pc d ≠ .apHlt → d < s.kernel.numCpus := by
    intro d busy
    rw [online.numCpus]
    by_contra beyond
    exact busy (online.offline d (Nat.le_of_not_lt beyond))
  have bound : c < s.kernel.numCpus := inRange c (by rw [here]; exact nofun)
  cases lock : s.kernel.threadLock with
  | false =>
    obtain ⟨more, s', tail, alone, back⟩ := free_clone_returns bound here room lock
    exact ⟨more, s', tail, fun e member => ⟨c, alone e member⟩, back⟩
  | true =>
    obtain ⟨o, own⟩ := ((run_locked run).threads.held_iff ()).mp lock
    rcases o with d | d
    · have inside : (s.pc d).threadSection = some () := own
      have other : c ≠ d := by
        rintro rfl
        rw [here] at inside
        cases inside
      have busy : d < s.kernel.numCpus := by
        refine inRange d ?_
        intro idle
        rw [idle] at inside
        cases inside
      obtain ⟨first, mid, leaves, alone, free, rest, _⟩ :=
        section_ends busy _ (Nat.le_refl _) inside
      have still : mid.pc c = .spawnTid t req := (rest.others c other).trans here
      obtain ⟨second, s', tail, alone', back⟩ := free_clone_returns
        (by rw [rest.numCpus]; exact bound) still (by rw [rest.nextTid]; exact room) free
      refine ⟨second ++ first, s', run_append leaves tail, ?_, ?_⟩
      · exact forall_mem_append.mpr
          ⟨fun e member => ⟨c, alone' e member⟩, fun e member => ⟨d, alone e member⟩⟩
      · rw [← rest.nextTid]
        exact back
    · cases own

theorem full_clone (here : s.pc c = .spawnTid t req) (full : maxThreads ≤ s.kernel.nextTid)
    (taken : step s (.cpu c) = some s') : s'.pc c = .user t 0 := by
  obtain ⟨k, p, rfl, effect⟩ := step_own taken
  rw [goto_here]
  rw [here] at effect
  cases effect with
  | quiet go => cases go
  | allocFull => rfl
  | alloc _ _ room => exact absurd room (Nat.not_lt.mpr full)

theorem clean_few (run : Run step (boot n) past s) (clean : CleanClones past) :
    clones past < maxThreads := by
  by_contra many
  have enough : maxThreads - 1 < clones past := by
    unfold maxThreads at *
    omega
  obtain ⟨later, e, earlier, rfl, allocs, count⟩ := clones_split enough
  obtain ⟨mid, before, taken, _⟩ := run_at run
  obtain ⟨c, t, req, cpu, here⟩ := allocates_place allocs
  have full : maxThreads ≤ e.1.kernel.nextTid := by
    rw [run_nextTid before, count]
    decide
  have back : mid.pc c = .user t 0 := full_clone here full (by rw [← cpu]; exact taken)
  have positive := (clean e (by simp) c t 0 (.early req mid here cpu taken back)).1
  exact Int.lt_irrefl 0 positive

theorem early_full {e s' : System} (here : e.pc c = .spawnTid t req)
    (taken : step e (.cpu c) = some s') (back : s'.pc c = .user t v) :
    maxThreads ≤ e.kernel.nextTid := by
  obtain ⟨k, p, rfl, effect⟩ := step_own taken
  rw [goto_here] at back
  rw [here, back] at effect
  cases effect with
  | quiet go => cases go
  | allocFull _ _ full => exact full

theorem late_value {e s' : System} (here : e.pc c = .spawnUnlock t tid)
    (taken : step e (.cpu c) = some s') (back : s'.pc c = .user t v) : v = tid := by
  obtain ⟨k, p, rfl, effect⟩ := step_own taken
  rw [goto_here] at back
  rw [here, back] at effect
  cases effect with
  | quiet go => cases go
  | unlockSpawn => rfl

theorem few_clean (some_cpu : 0 < n) (few : n ≤ maxCpus) (run : Run step (boot n) past s)
    (calls : clones past < maxThreads) : CleanClones past := by
  intro e member c t v returns
  obtain ⟨later, earlier, rfl⟩ := append_of_mem member
  obtain ⟨mid, before, taken, _⟩ := run_at run
  have count := clones_earlier later e earlier
  cases returns with
  | early req s' here cpu taken' back =>
    have allocs : allocates e.1 e.2 = true := by
      rw [cpu, allocates, here]
      rfl
    have full := early_full here (by rw [← cpu]; exact taken') back
    rw [run_nextTid before] at full
    rw [allocs] at count
    simp only [if_true] at count
    omega
  | late tid s' here cpu taken' back =>
    have creating : (e.1.pc c).creating = some (t, tid, true) := by
      rw [here]
      rfl
    obtain ⟨positive, ⟨a, inA, allocated⟩, pushed⟩ :=
      run_creating some_cpu few before (by omega) creating
    obtain ⟨b, inB, pushed⟩ := pushed rfl
    have value : v = tid := late_value here (by rw [← cpu]; exact taken') back
    refine ⟨by omega, tid, value, ⟨a, ?_, allocated⟩, ⟨b, ?_, pushed⟩⟩
    · exact mem_append_right _ (mem_cons_of_mem _ inA)
    · exact mem_append_right _ (mem_cons_of_mem _ inB)

/-- In every run: all clones that have returned have created a thread and returned its number, if
    and only if there were at most 31 of them; one more that starts then can return with the next
    number. A clone without a stack fails and changes nothing of the scheduler. -/
theorem clone_creates_until_full (n : Nat) (some_cpu : 0 < n) (few : n ≤ maxCpus)
    (past : List (System × Action)) (s : System) (run : Run step (boot n) past s) :
    (CleanClones past ↔ clones past < maxThreads) ∧
    (∀ c t req, s.pc c = .spawnTid t req → clones past + 1 < maxThreads →
      ∃ more s', Run step s more s' ∧ (∀ e ∈ more, ∃ d, e.2 = .cpu d) ∧
        s'.pc c = .user t (clones past + 1)) ∧
    ∀ c t rax req, s.pc c = .user t rax →
      ∃ s', s.sysClone c 0 req = some s' ∧ s'.kernel = s.kernel ∧ s'.pc c = .user t (-22) := by
  refine ⟨⟨clean_few run, few_clean some_cpu few run⟩, ?_, ?_⟩
  · intro c t req here calls
    have number : s.kernel.nextTid = clones past + 1 := by
      rw [run_nextTid run]
      unfold maxThreads at calls
      omega
    obtain ⟨more, s', tail, alone, back⟩ :=
      clone_can_return some_cpu run here (by rw [number]; exact calls)
    refine ⟨more, s', tail, alone, ?_⟩
    rw [back, number]
    rfl
  · intro c t rax req here
    refine ⟨s.goto c s.kernel (.user t (-22)), ?_, rfl, goto_here ..⟩
    simp [System.sysClone, here]

theorem first_clone_returns_one : ∃ past s more s', Run step (boot 1) past s ∧
    s.pc 0 = .spawnTid 0 plainClone ∧ CleanClones past ∧ Run step s more s' ∧
    s'.pc 0 = .user 0 1 := by
  let s := (boot 1).goto 0 (boot 1).kernel (.spawnTid 0 plainClone)
  have run : Run step (boot 1) [(boot 1, .call 0 (.spawn plainClone))] s := .snoc .nil rfl
  obtain ⟨clean, returns, _⟩ := clone_creates_until_full 1 (by decide) (by decide) _ s run
  obtain ⟨more, s', tail, _, back⟩ := returns 0 0 plainClone rfl (by decide)
  exact ⟨_, s, more, s', run, rfl, clean.mpr (by decide), tail, back⟩

def Kernel.alive (k : Kernel) : Nat :=
  (List.range maxThreads).countP fun t => t ≠ 0 ∧ (k.threads t).any fun r => r.state ≠ .dead

/-- Main makes 31 clones and yields, the first of the threads ends, and the second one calls
    clone: it gets zero, and the counter has moved on. -/
theorem ended_thread_keeps_slot : ∃ past s e t, Run step (boot 1) past s ∧ e ∈ past ∧
    e.1.kernel.alive = 30 ∧ CloneReturns e 0 t 0 ∧ e.1.kernel.nextTid = 32 ∧
    s.kernel.nextTid = 33 := by
  obtain ⟨later, w, earlier, s, run, here, _, _, last⟩ := run_through (fun _ _ => true)
    (fun _ _ => true) step (boot 1)
    ((List.replicate 31 cloneSteps).flatten ++ callSteps 0 .yieldCurrent 36 ++
      callSteps 0 .threadExit 42 ++ [.call 0 (.spawn plainClone)]) (.cpu 0) []
    (fun w => decide (w.kernel.alive = 30) && decide (w.kernel.nextTid = 32) &&
      allocates w (.cpu 0))
    (fun s => decide (s.kernel.nextTid = 33)) (by decide +kernel)
  simp only [Bool.and_eq_true, decide_eq_true_eq] at here
  obtain ⟨⟨alive, number⟩, allocs⟩ := here
  obtain ⟨c, t, req, cpu, place⟩ := allocates_place allocs
  cases cpu
  obtain ⟨mid, _, taken, _⟩ := run_at run
  have back : mid.pc 0 = .user t 0 := full_clone place (by rw [number]; exact Nat.le_refl _) taken
  exact ⟨_, s, (w, .cpu 0), t, run, mem_append_right _ mem_cons_self, alive,
    .early req mid place rfl taken back, number, of_decide_eq_true last⟩

end TynKernel.Sched
