import TynKernel.Sched.Placement
import TynKernel.Sched.Spawn

/-!
The number by which user space knows a thread. set_tid_address gives a constant, clone gives
the slot of the thread table, and gettid gives one more than the slot.
-/
namespace TynKernel.Sched
open Function List Runs
variable {t next n tid i : Nat} {x : Resume} {k : Kernel} {P : Nat → Prop}
  {past : List (System × Action)} {req : CloneRequest} {rax : Int}

def sysSetTidAddress : Int := 1

def currentIdx (k : Kernel) (c : Nat) : Nat := (k.current c).getD 0

def gettid (k : Kernel) (c : Nat) : Int := currentIdx k c + 1

def Pc.names : Pc → List Nat
  | .idleInstall next => [next]
  | .yieldSwitch _ cur next => [cur, next]
  | .waitHandoff t _ next | .waitSwitch t next => t :: next.toList
  | .spawnScan t tid _ _ _ _ _ | .spawnHome t tid _ _ | .spawnPush t tid _ => [t, tid]
  | p => p.current.toList

def Pc.Paired : Pc → Prop
  | .yieldSwitch y cur _ => ∃ rax, y = .user cur rax
  | _ => True

def Resume.Belongs (t : Nat) : Resume → Prop
  | .yielded y => ∃ rax, y = .user t rax
  | _ => True

/-- The part of the scheduler's invariant that does not need thread numbers to be fresh. -/
structure Seated (s : System) : Prop where
  current : ∀ c, s.kernel.current c = (s.pc c).current
  known : ∀ c, ∀ t ∈ (s.pc c).names, s.kernel.threads t ≠ none
  paired : ∀ c, (s.pc c).Paired
  queued : ∀ c, ∀ t ∈ s.kernel.queue c, s.kernel.threads t ≠ none
  record : ∀ t r, s.kernel.threads t = some r → r.tid = t ∧ r.ctx.Belongs t

theorem entry_names {p : Pc} (entry : p.entry = true) :
    p.names = p.current.toList ∧ p.Paired := by
  cases p with
  | idleInstall | yieldSwitch | waitHandoff | waitSwitch | spawnScan | spawnHome | spawnPush =>
    cases entry
  | _ => exact ⟨rfl, trivial⟩

theorem resume_current (belongs : x.Belongs t) :
    (x.pc t).current = some t := by
  cases x with
  | yielded =>
    obtain ⟨rax, rfl⟩ := belongs
    rfl
  | child | waited | exited => rfl

theorem setThread_grows (r : Thread) (there : k.threads t ≠ none) :
    (k.setThread u r).threads t ≠ none := by
  by_cases same : t = u
  · simp [Kernel.setThread, same]
  · simpa [Kernel.setThread, same] using there

theorem effect_grows (effect : Effect k c p k' p') (there : k.threads t ≠ none) :
    k'.threads t ≠ none := by
  cases effect with
  | rescue i addr r th get blocked threads queue rescued =>
    have same : (k.rescue i th).threads = threads := by rw [rescued]
    rw [← same, rescue_threads]
    exact setThread_grows _ there
  | home u tid req best threads mem written =>
    have same : ((k.setHome tid best).settid tid req).threads = threads := by rw [written]
    rw [← same, settid_threads]
    unfold Kernel.setHome
    split
    · exact setThread_grows _ there
    · exact there
  | switch | mark | sleepSwitch | sleepIdle | finish | wake | exit | exitIdle | insert =>
    exact setThread_grows _ there
  | _ => exact there

theorem effect_current (effect : Effect k c p k' p') (other : d ≠ c) :
    k'.current d = k.current d := by
  cases effect with
  | install | installMissing | reset | resume | resumeMissing | rotate | sleepAlone | sleepNext |
    exit | exitMissing => exact update_of_ne other _ _
  | _ => rfl

section
variable (old : ∀ d, ∀ t ∈ k.queue d, P t)
include old

theorem queued_setQueue (new : ∀ t ∈ tids, P t) :
    ∀ d, ∀ t ∈ (k.setQueue c tids).queue d, P t := by
  intro d t member
  by_cases same : d = c
  · subst same
    simp only [Kernel.setQueue, update_self] at member
    exact new t member
  · simp only [Kernel.setQueue, update_of_ne same] at member
    exact old d t member

theorem queued_pop (head : k.queue c = next :: rest) :
    ∀ t ∈ rest, P t := by
  intro t member
  exact old c t (by rw [head]; exact mem_cons_of_mem _ member)

theorem queued_push (pushed : P new) :
    ∀ t ∈ k.queue c ++ [new], P t := by
  intro t member
  rcases mem_append.mp member with kept | added
  · exact old c t kept
  · rw [mem_singleton.mp added]
    exact pushed

end

theorem effect_queued (effect : Effect k c p k' p') (old : ∀ d, ∀ t ∈ k.queue d, P t)
    (current : ∀ t, k.current c = some t → P t) (tids : ∀ i th, k.threads i = some th → P th.tid)
    (named : ∀ t ∈ p.names, P t) : ∀ d, ∀ t ∈ k'.queue d, P t := by
  cases effect with
  | pop next rest head | resume y next rest r vacant head get | sleepNext tid addr next rest head
  | resumeMissing y next rest vacant head =>
    exact queued_setQueue old (queued_pop old head)
  | rotate y cur next rest busy head =>
    refine queued_setQueue old ?_
    intro t member
    rcases mem_append.mp member with kept | added
    · exact queued_pop old head t kept
    · rw [mem_singleton.mp added]
      exact current cur busy
  | wake t addr count i woken th get =>
    exact queued_setQueue old (queued_push old (tids i th get))
  | push t tid =>
    exact queued_setQueue old (queued_push old (named tid (by simp [Pc.names])))
  | rescue i addr r th get blocked threads queue rescued =>
    have same : (k.rescue i th).queue = queue := by rw [rescued]
    rw [← same]
    unfold Kernel.rescue
    split
    · exact queued_setQueue old (queued_push old (tids i th get))
    · exact old
  | _ => exact old

section Seat
variable {s s' : System} {c : Nat} {p p' : Pc} {k' : Kernel}

theorem current_known (seated : Seated s) (current : (s.pc c).current = some t) :
    s.kernel.threads t ≠ none := by
  refine seated.known c t ?_
  cases here : s.pc c with
  | idleInstall =>
    rw [here] at current
    cases current
  | yieldSwitch y cur next | spawnScan | spawnHome | spawnPush =>
    rw [here] at current
    cases current
    simp [Pc.names]
  | waitHandoff u addr next | waitSwitch u next =>
    rw [here] at current
    have current : next = some t := current
    simp [Pc.names, current]
  | _ =>
    rw [here] at current
    simp [Pc.names, current]

structure Seat (k : Kernel) (c : Nat) (p : Pc) : Prop where
  current : k.current c = p.current
  known : ∀ t ∈ p.names, k.threads t ≠ none
  paired : p.Paired

theorem seat_entry (seated : Seated s) (same : k'.current c = s.kernel.current c)
    (entry : p'.entry = true) (view : p'.current = (s.pc c).current)
    (grows : ∀ t, s.kernel.threads t ≠ none → k'.threads t ≠ none) : Seat k' c p' := by
  obtain ⟨names, paired⟩ := entry_names entry
  refine ⟨?_, ?_, paired⟩
  · rw [same, view]
    exact seated.current c
  · intro t member
    rw [names, view, Option.mem_toList] at member
    exact grows t (current_known seated member)

theorem seat_same (seated : Seated s) (same : k'.current c = s.kernel.current c)
    (view : p'.current = (s.pc c).current) (names : p'.names ⊆ (s.pc c).names) (paired : p'.Paired)
    (grows : ∀ t, s.kernel.threads t ≠ none → k'.threads t ≠ none) : Seat k' c p' := by
  refine ⟨?_, fun t member => grows t (seated.known c t (names member)), paired⟩
  rw [same, view]
  exact seated.current c

theorem seat_resume (belongs : x.Belongs next) (current : k'.current c = some next)
    (there : k'.threads next ≠ none) :
    Seat k' c (x.pc next) := by
  have own := resume_current belongs
  obtain ⟨names, paired⟩ := entry_names (resume_entry next x)
  refine ⟨current.trans own.symm, ?_, paired⟩
  intro t member
  rw [names, own, Option.toList_some, mem_singleton] at member
  rw [member]
  exact there

section
variable (seated : Seated s)
include seated

theorem saved_belongs {r n : Thread} (ctx : Resume) (saved : ctx.Belongs cur)
    (get : (s.kernel.setThread cur { r with ctx := ctx }).threads next = some n) :
    n.ctx.Belongs next := by
  rcases setThread_get get with ⟨rfl, rfl⟩ | kept
  · exact saved
  · exact (seated.record next n kept).2

theorem quiet_seat (here : s.pc c = p) (go : Quiet s.kernel c p p') :
    Seat s.kernel c p' := by
  have known := seated.known c
  have current := seated.current c
  rw [here] at known current
  have entry : ∀ {q : Pc}, q.entry = true → q.current = p.current → Seat s.kernel c q := by
    intro q entry view
    exact seat_entry seated rfl entry (by rw [here]; exact view) (fun _ there => there)
  have same : ∀ {q : Pc}, q.current = p.current → q.names ⊆ p.names → q.Paired →
      Seat s.kernel c q := by
    intro q view names paired
    exact seat_same seated rfl (by rw [here]; exact view) (by rw [here]; exact names) paired
      (fun _ there => there)
  cases go with
  | nothingOwed a => exact entry (by simp) (after_view a).1
  | scanned i r => exact entry (by simp) (rescueCaller_view r).1
  | yieldNone y => exact entry (by simp) (caller_view y).1
  | switchMissing y cur next missing =>
    rcases missing with missing | missing
    · exact absurd missing (known cur (by simp [Pc.names]))
    · exact absurd missing (known next (by simp [Pc.names]))
  | markMissing t addr val deadline tid cur missing =>
    rw [current] at cur
    exact absurd missing (known tid (by simp [Pc.names, cur]))
  | sleepMissing tid next missing =>
    rcases missing with missing | ⟨n, rfl, missing⟩
    · exact absurd missing (known tid (by simp [Pc.names]))
    · exact absurd missing (known n (by simp [Pc.names]))
  | _ => exact same rfl (List.Subset.refl _) trivial

theorem effect_seat (here : s.pc c = p)
    (effect : Effect s.kernel c p k' p') : Seat k' c p' := by
  have known := seated.known c
  have current := seated.current c
  have paired := seated.paired c
  rw [here] at known current paired
  have grows := fun t => effect_grows (t := t) effect
  have entry : ∀ {q : Pc}, k'.current c = s.kernel.current c → q.entry = true →
      q.current = p.current → Seat k' c q := by
    intro q kept entry view
    exact seat_entry seated kept entry (by rw [here]; exact view) grows
  have same : ∀ {q : Pc}, k'.current c = s.kernel.current c → q.current = p.current →
      q.names ⊆ p.names → q.Paired → Seat k' c q := by
    intro q kept view names paired
    exact seat_same seated kept (by rw [here]; exact view) (by rw [here]; exact names) paired grows
  have first : ∀ {next rest}, s.kernel.queue c = next :: rest → s.kernel.threads next ≠ none := by
    intro next rest head
    exact seated.queued c next (by rw [head]; exact mem_cons_self)
  cases effect with
  | quiet go => exact quiet_seat seated here go
  | forceUnlock b a | unlock b a => exact entry rfl (by simp) (after_view a).1
  | pop next rest head =>
    refine ⟨current, ?_, trivial⟩
    intro t member
    rw [mem_singleton.mp member]
    exact first head
  | install next r get =>
    exact seat_resume (seated.record next r get).2 (update_self _ _ _)
      (grows next (known next (by simp [Pc.names])))
  | installMissing next missing => exact absurd missing (known next (by simp [Pc.names]))
  | reset => exact ⟨update_self _ _ _, by simp [Pc.names, Pc.current, After.thread], trivial⟩
  | resume y next rest r vacant head get =>
    exact seat_resume (seated.record next r get).2 (update_self _ _ _)
      (grows next (first head))
  | resumeMissing y next rest vacant head missing => exact absurd missing (first head)
  | rotate y cur next rest busy head =>
    have asked : y.thread = some cur := current.symm.trans busy
    refine ⟨update_self _ _ _, ?_, ?_⟩
    · intro t member
      rcases mem_cons.mp member with rfl | last
      · exact known t (by simp [Pc.names, Pc.current, asked])
      · rw [mem_singleton.mp last]
        exact first head
    · cases y with
      | user u rax =>
        cases asked
        exact ⟨rax, rfl⟩
      | apMain => cases asked
  | switch y cur next r n get other =>
    exact seat_resume (saved_belongs seated (.yielded y) paired other) current
      (grows next (known next (by simp [Pc.names])))
  | mark t addr val deadline tid r cur =>
    cases cur.symm.trans current
    exact same rfl rfl (List.Subset.refl _) trivial
  | sleepAlone =>
    exact ⟨update_self _ _ _, known, trivial⟩
  | sleepNext tid addr next rest head =>
    refine ⟨update_self _ _ _, ?_, trivial⟩
    intro t member
    rcases mem_cons.mp member with rfl | last
    · exact known t (by simp [Pc.names, Pc.current])
    · rw [mem_singleton.mp last]
      exact first head
  | sleepSwitch tid next r n get other =>
    exact seat_resume (saved_belongs seated .waited trivial other) current
      (grows next (known next (by simp [Pc.names])))
  | sleepIdle tid r get | exitIdle tid r get =>
    exact entry rfl (idleResume_entry _) (idleResume_view _).1
  | insert =>
    refine ⟨current, ?_, trivial⟩
    intro u member
    rcases mem_cons.mp member with rfl | last
    · exact grows u (known u (by simp [Pc.names, Pc.current]))
    · rw [mem_singleton.mp last]
      simp [Kernel.insertThread, Kernel.setThread]
  | push =>
    exact same rfl rfl (by simp [Pc.names, Pc.current]) trivial
  | exit t tid r cur get | exitMissing t tid missing =>
    exact ⟨update_self _ _ _, by simp [Pc.names, Pc.current], trivial⟩
  | _ => exact same rfl rfl (List.Subset.refl _) trivial

theorem effect_belongs (here : s.pc c = p) (effect : Effect s.kernel c p k' p')
    (get' : k'.threads t = some r') : r'.tid = t ∧ r'.ctx.Belongs t := by
  rcases effect_record effect get' with ⟨r, get, written⟩ | ⟨_, tid, ctx, _⟩
  · obtain ⟨tid, belongs⟩ := seated.record t r get
    refine ⟨written.tid.trans tid, ?_⟩
    rcases written.ctx with same | ctx | ctx | ⟨y, next, place, ctx⟩
    · rw [same]
      exact belongs
    · rw [ctx]
      trivial
    · rw [ctx]
      trivial
    · have paired := seated.paired c
      rw [here, place] at paired
      rw [ctx]
      exact paired
  · rw [ctx]
    exact ⟨tid, trivial⟩

theorem seated_goto (seat : Seat k' c p')
    (others : ∀ d, d ≠ c → k'.current d = s.kernel.current d)
    (grows : ∀ t, s.kernel.threads t ≠ none → k'.threads t ≠ none)
    (queued : ∀ d, ∀ t ∈ k'.queue d, k'.threads t ≠ none)
    (record : ∀ t r, k'.threads t = some r → r.tid = t ∧ r.ctx.Belongs t) :
    Seated (s.goto c k' p') := by
  refine ⟨?_, ?_, ?_, queued, record⟩
  · intro d
    by_cases same : d = c
    · subst same
      rw [goto_here]
      exact seat.current
    · rw [goto_other _ _ _ same]
      exact (others d same).trans (seated.current d)
  · intro d
    by_cases same : d = c
    · subst same
      rw [goto_here]
      exact seat.known
    · rw [goto_other _ _ _ same]
      exact fun t member => grows t (seated.known d t member)
  · intro d
    by_cases same : d = c
    · subst same
      rw [goto_here]
      exact seat.paired
    · rw [goto_other _ _ _ same]
      exact seated.paired d

theorem effect_seated (effect : Effect s.kernel c (s.pc c) k' p') :
    Seated (s.goto c k' p') := by
  have grows := fun t => effect_grows (t := t) effect
  refine seated_goto seated (effect_seat seated rfl effect)
    (fun d other => effect_current effect other) grows ?_
    (fun t r get => effect_belongs seated rfl effect get)
  refine effect_queued effect (fun d t member => grows t (seated.queued d t member)) ?_ ?_
    (fun t member => grows t (seated.known c t member))
  · intro t current
    exact grows t (current_known (c := c) seated ((seated.current c).symm.trans current))
  · intro i th get
    rw [(seated.record i th get).1]
    exact grows i (by simp [get])

theorem seated_moved (current : k'.current = s.kernel.current)
    (threads : k'.threads = s.kernel.threads) (queue : k'.queue = s.kernel.queue)
    (view : p'.current = (s.pc c).current) (names : p'.names ⊆ (s.pc c).names)
    (paired : p'.Paired) : Seated (s.goto c k' p') := by
  refine seated_goto seated ?_ (fun d _ => by rw [current]) (fun t there => by rwa [threads]) ?_ ?_
  · refine seat_same seated (by rw [current]) view names paired ?_
    rw [threads]
    exact fun _ there => there
  · rw [threads, queue]
    exact seated.queued
  · rw [threads]
    exact seated.record

end

theorem awake_names (p : Pc) : p.awake.current = p.current ∧ p.awake.names = p.names ∧
    (p.Paired → p.awake.Paired) := by
  cases p <;> exact ⟨rfl, rfl, id⟩

theorem step_seated (seated : Seated s) (taken : step s a = some s') : Seated s' := by
  have awake : ∀ {c : Nat} {k : Kernel}, k.current = s.kernel.current →
      k.threads = s.kernel.threads → k.queue = s.kernel.queue →
      Seated (s.goto c k (s.pc c).awake) := by
    intro c k current threads queue
    obtain ⟨view, names, paired⟩ := awake_names (s.pc c)
    exact seated_moved seated current threads queue view (by rw [names]; exact List.Subset.refl _)
      (paired (seated.paired c))
  cases step_cases taken with
  | cpu bound own => exact effect_seated seated (cpuStep_effect own)
  | @call c t rax f bound here =>
    have view : (f.enter t rax).current = (s.pc c).current ∧
        (f.enter t rax).names ⊆ (s.pc c).names ∧ (f.enter t rax).Paired := by
      rw [here]
      cases f <;> exact ⟨rfl, List.Subset.refl _, trivial⟩
    exact seated_moved seated rfl rfl rfl view.1 view.2.1 view.2.2
  | interrupt => exact awake rfl rfl rfl
  | timer bound open_ resched rescues blocking kernel =>
    rw [kernel]
    exact awake rfl rfl rfl
  | ambient =>
    exact ⟨seated.current, seated.known, seated.paired, seated.queued, seated.record⟩

end Seat

theorem seated_boot (n : Nat) : Seated (boot n) := by
  refine ⟨?_, ?_, ?_, ?_, ?_⟩
  · intro c
    simp only [boot]
    split <;> rfl
  · intro c t member
    by_cases main : c = 0
    · simp only [boot, main, if_true, Pc.names, Pc.current, Option.toList_some,
        mem_singleton] at member
      simp [boot, member]
    · simp [boot, main, Pc.names, Pc.current] at member
  · exact boot_place (P := Pc.Paired) trivial trivial n
  · intro c t member
    cases member
  · intro t r get
    simp only [boot] at get
    split at get
    · rename_i main
      cases get
      exact ⟨main.symm, trivial⟩
    · cases get

theorem run_seated (run : Run step (boot n) past s) : Seated s :=
  run_invariant Seated (seated_boot n) (fun _ _ _ seated taken => step_seated seated taken) run

/-- A step that gives user space a number for the thread in slot i: clone returns, or it writes
    the word of CLONE_PARENT_SETTID or of CLONE_CHILD_SETTID. -/
inductive Given (e : System × Action) (i : Nat) (v : Int) : Prop where
  | returned (c t : Nat) (s' : System) (here : e.1.pc c = .spawnUnlock t i) (cpu : e.2 = .cpu c)
      (taken : step e.1 e.2 = some s') (back : s'.pc c = .user t v)
  | parent (c t best : Nat) (req : CloneRequest) (s' : System)
      (here : e.1.pc c = .spawnHome t i req best) (cpu : e.2 = .cpu c)
      (taken : step e.1 e.2 = some s')
      (flag : req.cloneFlags &&& cloneParentSettid ≠ 0 ∧ req.parentTid ≠ 0)
      (word : v = s'.kernel.mem req.parentTid)
  | child (c t best : Nat) (req : CloneRequest) (s' : System)
      (here : e.1.pc c = .spawnHome t i req best) (cpu : e.2 = .cpu c)
      (taken : step e.1 e.2 = some s')
      (flag : req.cloneFlags &&& cloneChildSettid ≠ 0 ∧ req.childTid ≠ 0)
      (word : v = s'.kernel.mem req.childTid)

/-- User space holds the number for the thread in slot i: main has its own from set_tid_address. -/
def Held (past : List (System × Action)) (i : Nat) (v : Int) : Prop :=
  i = 0 ∧ v = sysSetTidAddress ∨ ∃ e ∈ past, Given e i v

theorem settid_child (k : Kernel) (tid : Nat)
    (flag : req.cloneFlags &&& cloneChildSettid ≠ 0 ∧ req.childTid ≠ 0) :
    (k.settid tid req).mem req.childTid = tid := by
  unfold Kernel.settid
  simp only [if_pos flag]
  exact update_self _ _ _

theorem settid_parent (k : Kernel) (tid : Nat)
    (flag : req.cloneFlags &&& cloneParentSettid ≠ 0 ∧ req.parentTid ≠ 0) :
    (k.settid tid req).mem req.parentTid = tid := by
  unfold Kernel.settid
  simp only [if_pos flag]
  split
  · by_cases same : req.parentTid = req.childTid
    · rw [same]
      exact update_self _ _ _
    · exact (update_of_ne same _ _).trans (update_self _ _ _)
  · exact update_self _ _ _

theorem home_mem (here : s.pc c = .spawnHome t tid req best) (taken : step s (.cpu c) = some s') :
    s'.kernel.mem = ((s.kernel.setHome tid best).settid tid req).mem := by
  obtain ⟨k, p, rfl, effect⟩ := step_own taken
  rw [here] at effect
  cases effect with
  | quiet go => cases go
  | home _ _ _ _ threads mem written =>
    rw [written]
    rfl

theorem given_slot (given_ : Given e i v) : v = i := by
  obtain ⟨s, a⟩ := e
  cases given_ with
  | returned c t s' here cpu taken back =>
    obtain rfl : a = .cpu c := cpu
    obtain ⟨k, p, rfl, effect⟩ := step_own taken
    rw [here] at effect
    cases effect with
    | quiet go => cases go
    | unlockSpawn =>
      rw [goto_here] at back
      cases back
      rfl
  | parent c t best req s' here cpu taken flag word =>
    obtain rfl : a = .cpu c := cpu
    rw [word, home_mem here taken, settid_parent _ _ flag]
  | child c t best req s' here cpu taken flag word =>
    obtain rfl : a = .cpu c := cpu
    rw [word, home_mem here taken, settid_child _ _ flag]

theorem gettid_user (run : Run step (boot n) past s) (here : s.pc c = .user i rax) :
    gettid s.kernel c = i + 1 := by
  have current := (run_seated run).current c
  rw [here] at current
  rw [gettid, currentIdx, current]
  rfl

/-- In every run the number held for a thread is the one gettid returns there, if and only if it
    is that of set_tid_address. No two slots have one number, if and only if clone has given
    nobody the number 1. -/
theorem thread_ids_agree (n : Nat) (past : List (System × Action)) (s : System)
    (run : Run step (boot n) past s) :
    (∀ i v c rax, Held past i v → s.pc c = .user i rax →
      (v = gettid s.kernel c ↔ i = 0 ∧ v = sysSetTidAddress)) ∧
    ((∀ i j v, Held past i v → Held past j v → i = j) ↔ ∀ e ∈ past, ¬ Given e 1 1) := by
  refine ⟨?_, ?_, ?_⟩
  · intro i v c rax held here
    rw [gettid_user run here]
    rcases held with ⟨rfl, rfl⟩ | ⟨e, member, given_⟩
    · exact ⟨fun _ => ⟨rfl, rfl⟩, fun _ => rfl⟩
    · have slot := given_slot given_
      rw [sysSetTidAddress]
      omega
  · intro apart e member given_
    have clash := apart 0 1 1 (.inl ⟨rfl, rfl⟩) (.inr ⟨e, member, given_⟩)
    cases clash
  · intro unused i j v heldI heldJ
    rcases heldI with ⟨rfl, rfl⟩ | ⟨e, member, given_⟩
    · rcases heldJ with ⟨rfl, _⟩ | ⟨e, member, given_⟩
      · rfl
      obtain rfl : j = 1 := by
        have slot := given_slot given_
        rw [sysSetTidAddress] at slot
        omega
      exact absurd given_ (unused e member)
    · rcases heldJ with ⟨rfl, rfl⟩ | ⟨e', member', other⟩
      · obtain rfl : i = 1 := by
          have slot := given_slot given_
          rw [sysSetTidAddress] at slot
          omega
        exact absurd given_ (unused e member)
      · have slot := given_slot given_
        have slot' := given_slot other
        omega

def noClone (s : System) : Action → Bool
  | .cpu c => (s.pc c).func != .spawn
  | _ => true

theorem noClone_given (test : noClone e.1 e.2 = true) : ¬ Given e i v := by
  rintro (⟨c, t, _, here, cpu⟩ | ⟨c, t, best, req, _, here, cpu⟩ | ⟨c, t, best, req, _, here, cpu⟩) <;>
    · rw [cpu, noClone, here] at test
      cases test

def Pc.isUser (p : Pc) (t : Nat) (rax : Int) : Bool :=
  match p with
  | .user t' rax' => t' = t ∧ rax' = rax
  | _ => false

def Pc.isSpawnUnlock (p : Pc) (t tid : Nat) : Bool :=
  match p with
  | .spawnUnlock t' tid' => t' = t ∧ tid' = tid
  | _ => false

theorem isUser_place {p : Pc} (test : p.isUser t rax = true) :
    p = .user t rax := by
  unfold Pc.isUser at test
  split at test
  · obtain ⟨rfl, rfl⟩ := of_decide_eq_true test
    rfl
  · cases test

theorem isSpawnUnlock_place {p : Pc} (test : p.isSpawnUnlock t tid = true) :
    p = .spawnUnlock t tid := by
  unfold Pc.isSpawnUnlock at test
  split at test
  · obtain ⟨rfl, rfl⟩ := of_decide_eq_true test
    rfl
  · cases test

theorem thread_ids_agree_after_waits : ∃ past s, Run step (boot 2) past s ∧
    s.kernel.mem 8 = 5 ∧ s.pc 0 = .user 0 0 ∧ gettid s.kernel 0 = sysSetTidAddress ∧
    ∀ i j v, Held past i v → Held past j v → i = j := by
  obtain ⟨past, s, run, none_, last⟩ := run_of_exec noClone step (boot 2)
    (callSteps 0 (.futexWaitUntil 8 0 none) 35 ++ .write 8 5 :: callSteps 0 .yieldCurrent 34)
    (fun s => s.kernel.mem 8 = 5 && (s.pc 0).isUser 0 0) (by decide)
  rw [Bool.and_eq_true, decide_eq_true_eq] at last
  have here := isUser_place last.2
  obtain ⟨agree, apart⟩ := thread_ids_agree 2 past s run
  refine ⟨past, s, run, last.1, here, ?_, apart.mpr fun e member => noClone_given (none_ e member)⟩
  exact ((agree 0 sysSetTidAddress 0 0 (.inl ⟨rfl, rfl⟩) here).mpr ⟨rfl, rfl⟩).symm

/-- The first clone gives the number 1, which is that of main, to a thread in which gettid
    returns 2. -/
theorem cloned_thread_has_two_ids : ∃ past s rax, Run step (boot 2) past s ∧
    Held past 0 1 ∧ Held past 1 1 ∧ s.pc 1 = .user 1 rax ∧ gettid s.kernel 1 = 2 := by
  obtain ⟨later, w, earlier, s, run, here, _, _, ends⟩ := run_through (fun _ _ => true)
    (fun _ _ => true) step (boot 2) (callSteps 0 (.spawn plainClone) 8) (.cpu 0)
    (cpuSteps 1 1 ++ interruptSteps 1 35)
    (fun w => (w.pc 0).isSpawnUnlock 0 1 &&
      (step w (.cpu 0)).any fun s => (s.pc 0).isUser 0 1)
    (fun s => (s.pc 1).isUser 1 0) (by decide)
  rw [Bool.and_eq_true] at here
  obtain ⟨mid, taken, back⟩ := (Option.any_eq_true _ _).mp here.2
  have place : s.pc 1 = .user 1 0 := isUser_place ends
  have given_ : Given (w, .cpu 0) 1 1 :=
    .returned 0 0 mid (isSpawnUnlock_place here.1) rfl taken (isUser_place back)
  refine ⟨_, s, 0, run, .inl ⟨rfl, rfl⟩,
    .inr ⟨_, mem_append_right _ mem_cons_self, given_⟩, place, ?_⟩
  exact gettid_user run place

end TynKernel.Sched
