import TynKernel.Sched.Threads

/-!
Every step of the scheduler is a move of the board, so every thread that can run stays in
exactly one place: the queue of its home CPU or the CPU itself.
-/
namespace TynKernel.Sched
open Function RunQueues Runs
variable {s : System} {c best n t next cur tid : Nat} {k' : Kernel} {p' p : Pc} {new r old : Thread}
  {rest : List Nat} {req : CloneRequest} {a : Action}

def NoWrap (s : System) (a : Action) : Prop :=
  ∀ c t req, a = .cpu c → s.pc c = .spawnTid t req → s.kernel.nextTid + 1 < 2 ^ 32

theorem sound_goto (sound : Sound s) (cpus : k'.numCpus = s.kernel.numCpus)
    (own : k'.current c = p'.current ∧ k'.idle c = (k'.current c).isNone)
    (others : ∀ d, d ≠ c → k'.current d = s.kernel.current d ∧ k'.idle d = s.kernel.idle d)
    (record : ∀ t r, k'.threads t = some r → r.Sane k'.nextTid k'.numCpus t) (fits : p'.Fits k')
    (stable : ∀ d, d ≠ c → (s.pc d).Fits s.kernel → (s.pc d).Fits k')
    (reserved : ∀ tid, p'.reserves = some tid → ∀ d, d ≠ c → (s.pc d).reserves ≠ some tid)
    (move : Move (board s.kernel s.pc) (board k' (update s.pc c p'))) :
    Sound (s.goto c k' p') := by
  refine ⟨cpus ▸ sound.cpus, ?_, ?_, record, ?_, ?_, placed_move sound.placed move⟩
  · intro d
    by_cases same : d = c
    · subst same
      simpa [System.goto] using own.1
    · simpa [System.goto, same, (others d same).1] using sound.current d
  · intro d
    by_cases same : d = c
    · subst same
      exact own.2
    · simpa [System.goto, others d same] using sound.idle d
  · intro d
    by_cases same : d = c
    · subst same
      simpa [System.goto] using fits
    · simpa [System.goto, same] using stable d same (sound.fits d)
  · intro d e tid hd he
    simp only [System.goto, update_apply] at hd he
    split at hd <;> split at he
    · rename_i eqd eqe
      rw [eqd, eqe]
    · rename_i other
      exact absurd he (reserved tid hd e other)
    · rename_i other _
      exact absurd hd (reserved tid he d other)
    · exact sound.reserved d e tid hd he

structure SameView (p p' : Pc) : Prop where
  current : p'.current = p.current
  runs : p'.runs = p.runs
  spawns : p'.spawns = p.spawns
  reserves : p'.reserves = none

theorem board_same (pc : Nat → Pc) (table : SameTable k k') (queue : k'.queue = k.queue) :
    board k' pc = board k pc := by
  simp [board, table.threads, queue]

theorem sound_table (sound : Sound s) (table : SameTable s.kernel k')
    (own : k'.current c = p'.current ∧ k'.idle c = (k'.current c).isNone)
    (others : ∀ d, d ≠ c → k'.current d = s.kernel.current d ∧ k'.idle d = s.kernel.idle d)
    (fits : p'.Fits s.kernel) (reserves : p'.reserves = none)
    (move : Move (board s.kernel s.pc) (board k' (update s.pc c p'))) :
    Sound (s.goto c k' p') := by
  refine sound_goto sound table.numCpus own others ?_ (fits_same table fits)
    (fun d _ h => fits_same table h) ?_ move
  · intro t r get
    rw [table.threads] at get
    rw [table.nextTid, table.numCpus]
    exact sound.record t r get
  · intro tid h
    rw [reserves] at h
    cases h

theorem sound_calm (sound : Sound s) (table : SameTable s.kernel k')
    (queue : k'.queue = s.kernel.queue)
    (current : k'.current = s.kernel.current ∧ k'.idle = s.kernel.idle)
    (view : SameView (s.pc c) p') (fits : p'.Fits s.kernel) : Sound (s.goto c k' p') := by
  refine sound_table sound table ?_ ?_ fits view.reserves ?_
  · rw [current.1, current.2, view.current]
    exact ⟨sound.current c, sound.idle c⟩
  · intro d _
    rw [current.1, current.2]
    exact ⟨rfl, rfl⟩
  · rw [board_update_same k' s.pc view.runs view.spawns, board_same s.pc table queue]
    exact .keep

theorem sound_reseat {cur : Option Nat} (sound : Sound s) (table : SameTable s.kernel k')
    (queue : k'.queue = s.kernel.queue)
    (current : k'.current = update s.kernel.current c cur)
    (idle : k'.idle = update s.kernel.idle c cur.isNone) (own : p'.current = cur)
    (runs : p'.runs = (s.pc c).runs) (spawns : p'.spawns = (s.pc c).spawns)
    (reserves : p'.reserves = none) (fits : p'.Fits s.kernel) : Sound (s.goto c k' p') := by
  refine sound_table sound table ?_ ?_ fits reserves ?_
  · rw [current, idle, update_self, update_self]
    exact ⟨own.symm, rfl⟩
  · intro d other
    rw [current, idle]
    exact ⟨update_of_ne other _ _, update_of_ne other _ _⟩
  · rw [board_update_same k' s.pc runs spawns, board_same s.pc table queue]
    exact .keep

theorem caller_view (y : Caller) :
    y.pc.current = y.thread ∧ y.pc.runs = y.thread ∧ y.pc.spawns = none ∧ y.pc.reserves = none ∧
      ∀ k, y.pc.Fits k := by
  cases y <;> exact ⟨rfl, rfl, rfl, rfl, fun _ => trivial⟩

theorem rescueCaller_view (r : RescueCaller) :
    r.pc.current = r.thread ∧ r.pc.runs = r.thread ∧ r.pc.spawns = none ∧ r.pc.reserves = none ∧
      ∀ k, r.pc.Fits k := by
  cases r <;> exact ⟨rfl, rfl, rfl, rfl, fun _ => trivial⟩

theorem after_view (a : After) :
    a.pc.current = a.thread ∧ a.pc.runs = a.thread ∧ a.pc.spawns = none ∧ a.pc.reserves = none ∧
      ∀ k, a.pc.Fits k := by
  cases a with
  | back y => exact caller_view y
  | rescues | yield | idleTop | idleReset | waitFinish =>
    exact ⟨rfl, rfl, rfl, rfl, fun _ => trivial⟩

theorem spawnConsider_best (more : cpu < n) (old : best < n) :
    (spawnConsider cpu len isIdle best bestLen foundIdle).1 < n := by
  unfold spawnConsider
  split
  · exact more
  · split
    · exact more
    · exact old

theorem quiet_view (sound : Sound s) (here : s.pc c = p) (go : Quiet s.kernel c p p') :
    SameView p p' ∧ p'.Fits s.kernel := by
  have fits := sound.fits c
  rw [here] at fits
  cases go with
  | nothingOwed a =>
    obtain ⟨current, runs, spawns, reserves, fits⟩ := after_view a
    exact ⟨⟨current, runs, spawns, reserves⟩, fits _⟩
  | scanned i r =>
    obtain ⟨current, runs, spawns, reserves, fits⟩ := rescueCaller_view r
    exact ⟨⟨current, runs, spawns, reserves⟩, fits _⟩
  | yieldNone y =>
    obtain ⟨current, runs, spawns, reserves, fits⟩ := caller_view y
    exact ⟨⟨current, runs, spawns, reserves⟩, fits _⟩
  | switchMissing y cur next missing =>
    obtain ⟨r, get, _⟩ := sound_running (c := c) (t := next) sound (by rw [here]; rfl)
    rcases missing with missing | missing
    · exact absurd missing fits.2
    · cases missing.symm.trans get
  | markMissing t addr val deadline tid cur missing =>
    have same : t = tid := sound_current sound (by rw [here]; rfl) cur
    subst same
    obtain ⟨r, get, _⟩ := sound_running (c := c) (t := t) sound (by rw [here]; rfl)
    cases missing.symm.trans get
  | sleepMissing tid next missing =>
    rcases missing with missing | ⟨n, eq, missing⟩
    · exact absurd missing fits
    · subst eq
      obtain ⟨r, get, _⟩ := sound_running (c := c) (t := n) sound (by rw [here]; rfl)
      cases missing.symm.trans get
  | spawnNext t tid req cpu best bestLen foundIdle more pick picked =>
    refine ⟨⟨rfl, rfl, rfl, rfl⟩, ?_⟩
    subst picked
    exact spawnConsider_best more fits
  | spawnDone => exact ⟨⟨rfl, rfl, rfl, rfl⟩, fits⟩
  | _ => exact ⟨⟨rfl, rfl, rfl, rfl⟩, trivial⟩

theorem record_setThread (sound : Sound s) (sane : new.Sane s.kernel.nextTid s.kernel.numCpus t) :
    ∀ u r, (s.kernel.setThread t new).threads u = some r →
      r.Sane s.kernel.nextTid s.kernel.numCpus u := by
  intro u r get
  simp only [Kernel.setThread, update_apply] at get
  split at get
  · rename_i same
    subst same
    cases get
    exact sane
  · exact sound.record u r get

theorem sane_ctx (sane : r.Sane nextTid numCpus t) (tid : new.tid = r.tid)
    (home : new.homeCpu = r.homeCpu) (ctx : new.ctx.Fits t new.state) :
    new.Sane nextTid numCpus t :=
  ⟨tid.trans sane.tid, sane.slot, sane.used, home ▸ sane.home, ctx⟩

theorem ctx_alive {x : Resume} {old new : ThreadState} (fits : x.Fits t old) (alive : old ≠ .dead) :
    x.Fits t new := by
  cases x with
  | exited => exact absurd fits alive
  | child | waited => trivial
  | yielded => exact fits

theorem sound_save (sound : Sound s) (get : s.kernel.threads t = some old)
    (home : new.homeCpu = old.homeCpu) (state : new.state = old.state)
    (sane : new.Sane s.kernel.nextTid s.kernel.numCpus t) (view : SameView (s.pc c) p')
    (fits : p'.Fits (s.kernel.setThread t new)) :
    Sound (s.goto c (s.kernel.setThread t new) p') := by
  refine sound_goto sound rfl ?_ (fun _ _ => ⟨rfl, rfl⟩) (record_setThread sound sane) fits ?_ ?_ ?_
  · rw [view.current]
    exact ⟨sound.current c, sound.idle c⟩
  · intro d _ h
    exact fits_setThread get (fun _ => home) (fun dead => state.trans dead) h
  · intro tid h
    rw [view.reserves] at h
    cases h
  · rw [board_update_same _ s.pc view.runs view.spawns, board_setThread_same s.pc get home state]
    exact .keep

theorem sound_awaken (sound : Sound s) (get : s.kernel.threads t = some old)
    (blocked : old.state = .blocked) (ready : new.state = .ready) (tid : new.tid = old.tid)
    (home : new.homeCpu = old.homeCpu) (ctx : new.ctx = old.ctx) (view : SameView (s.pc c) p')
    (fits : ∀ k, p'.Fits k) :
    Sound (s.goto c ((s.kernel.setThread t new).setQueue old.homeCpu
      (s.kernel.queue old.homeCpu ++ [t])) p') := by
  have before := sound.record t old get
  have notDead : old.state ≠ .dead := by
    rw [blocked]
    decide
  have sane : new.Sane s.kernel.nextTid s.kernel.numCpus t :=
    sane_ctx before tid home (ctx ▸ ctx_alive before.ctx notDead)
  refine sound_goto sound rfl ?_ (fun _ _ => ⟨rfl, rfl⟩) (record_setThread sound sane) (fits _)
    ?_ ?_ ?_
  · rw [view.current]
    exact ⟨sound.current c, sound.idle c⟩
  · intro d _ h
    exact fits_same ⟨rfl, rfl, rfl⟩
      (fits_setThread get (fun _ => home) (fun dead => absurd dead notDead) h)
  · intro tid h
    rw [view.reserves] at h
    cases h
  · have asleep : (board s.kernel s.pc).status t = some .asleep := by
      rw [board_status_of s.pc get, blocked]
      rfl
    have moved := Move.wake t asleep
    rw [board_home_of s.pc get] at moved
    have shown := board_setThread s.pc get home
    rw [ready] at shown
    have queued : board ((s.kernel.setThread t new).setQueue old.homeCpu
        (s.kernel.queue old.homeCpu ++ [t])) s.pc = (board (s.kernel.setThread t new) s.pc).setQueue
          old.homeCpu (s.kernel.queue old.homeCpu ++ [t]) := rfl
    rw [board_update_same _ s.pc view.runs view.spawns, queued, shown]
    exact moved

theorem sound_alloc (sound : Sound s) (fresh : s.kernel.nextTid + 1 < 2 ^ 32)
    (view : p'.current = (s.pc c).current ∧ p'.runs = (s.pc c).runs ∧ p'.spawns = (s.pc c).spawns)
    (fits : p'.Fits { s.kernel with nextTid := s.kernel.nextTid + 1 })
    (reserved : p'.reserves = none ∨ p'.reserves = some s.kernel.nextTid) :
    Sound (s.goto c { s.kernel with nextTid := (s.kernel.nextTid + 1) % 2 ^ 32 } p') := by
  rw [Nat.mod_eq_of_lt fresh]
  refine sound_goto sound rfl ?_ (fun _ _ => ⟨rfl, rfl⟩) ?_ fits ?_ ?_ ?_
  · rw [view.1]
    exact ⟨sound.current c, sound.idle c⟩
  · intro t r get
    obtain ⟨tid, slot, used, home, ctx⟩ := sound.record t r get
    exact ⟨tid, slot, Nat.lt_succ_of_lt used, home, ctx⟩
  · intro d _ h
    exact fits_grows s.kernel _ (Nat.le_succ _) rfl (fun t r get => ⟨r, get, fun _ => rfl, id⟩)
      (fun _ _ absent => absent) h
  · intro tid h d _ other
    rcases reserved with none | next
    · cases none.symm.trans h
    have below := sound.fits d
    cases place : s.pc d with
    | spawnInsert =>
      rw [place] at below other
      cases next.symm.trans h
      cases other
      exact Nat.lt_irrefl _ below.1
    | _ =>
      rw [place] at other
      cases other
  · have same : board { s.kernel with nextTid := s.kernel.nextTid + 1 } s.pc =
        board s.kernel s.pc := rfl
    rw [board_update_same _ s.pc view.2.1 view.2.2, same]
    exact .keep

section
variable (sound : Sound s)
include sound

theorem sound_pop (head : s.kernel.queue c = next :: rest)
    (free : (s.pc c).runs = none) (table : SameTable s.kernel k')
    (queue : k'.queue = (s.kernel.setQueue c rest).queue)
    (own : k'.current c = p'.current ∧ k'.idle c = (k'.current c).isNone)
    (others : ∀ d, d ≠ c → k'.current d = s.kernel.current d ∧ k'.idle d = s.kernel.idle d)
    (runs : p'.runs = some next) (spawns : p'.spawns = (s.pc c).spawns)
    (reserves : p'.reserves = none) (fits : p'.Fits s.kernel) : Sound (s.goto c k' p') := by
  refine sound_table sound table own others fits reserves ?_
  have popped : board k' s.pc = (board s.kernel s.pc).setQueue c rest := by
    simp [board, Board.setQueue, table.threads, queue, Kernel.setQueue]
  rw [board_update_runs k' s.pc spawns, runs, popped]
  exact .pop c next rest head free

theorem sound_rotate (here : s.pc c = .yieldQueue y)
    (busy : s.kernel.current c = some cur) (head : s.kernel.queue c = next :: rest) :
    Sound (s.goto c ((s.kernel.setQueue c (rest ++ [cur])).setCurrent c (some next))
      (.yieldSwitch y cur next)) := by
  have thread : y.thread = some cur := by
    have same := sound.current c
    rw [busy, here] at same
    exact same.symm
  have runs : (s.pc c).runs = some cur := by
    rw [here]
    exact thread
  obtain ⟨r, get, _⟩ := sound_running sound runs
  refine sound_table sound ⟨rfl, rfl, rfl⟩ ⟨update_self _ _ _, ?_⟩ ?_ ?_ rfl ?_
  · simp only [Kernel.setCurrent, Kernel.setQueue, update_self, Option.isNone_some]
    rw [sound.idle c, busy]
    rfl
  · exact fun d other => ⟨update_of_ne other _ _, rfl⟩
  · refine ⟨?_, by simp [get]⟩
    cases y with
    | user t rax =>
      cases thread
      exact ⟨rax, rfl⟩
    | apMain => cases thread
  · rw [board_update_runs _ s.pc (by rw [here]; rfl)]
    exact .rotate c next cur rest head runs

theorem sound_mark (here : s.pc c = .waitMark t addr val deadline)
    (cur : s.kernel.current c = some tid) (get : s.kernel.threads tid = some r) :
    Sound (s.goto c (s.kernel.markBlocked tid r addr val deadline) (.waitQueue tid addr)) := by
  have same : t = tid := sound_current sound (by rw [here]; rfl) cur
  subst same
  have runs : (s.pc c).runs = some t := by
    rw [here]
    rfl
  obtain ⟨r', get', _, _, alive, _⟩ := sound_running sound runs
  cases get.symm.trans get'
  have sane := sound.record t r get
  refine sound_goto sound rfl ⟨cur, sound.idle c⟩ (fun _ _ => ⟨rfl, rfl⟩) ?_ ?_ ?_
    (fun _ h => nomatch h) ?_
  · refine record_setThread sound ⟨sane.tid, sane.slot, sane.used, sane.home, ?_⟩
    have ctx := sane.ctx
    cases saved : r.ctx with
    | exited =>
      rw [saved] at ctx
      exact absurd ctx alive
    | child | waited => trivial
    | yielded =>
      rw [saved] at ctx
      exact ctx
  · simp [Pc.Fits, Kernel.markBlocked, Kernel.setThread]
  · intro d _ h
    exact fits_setThread get (fun _ => rfl) (fun dead => absurd dead alive) h
  · rw [board_update_runs _ s.pc (by rw [here]; rfl)]
    have shown : board (s.kernel.markBlocked t r addr val deadline) s.pc =
        (board s.kernel s.pc).setStatus t .asleep := board_setThread s.pc get rfl
    rw [shown]
    exact .sleep c t runs

theorem sound_insert (here : s.pc c = .spawnInsert t tid req) :
    Sound (s.goto c { s.kernel.insertThread tid with threadLock := true }
      (.spawnScan t tid req 0 0 (2 ^ 64 - 1) false)) := by
  have fits := sound.fits c
  rw [here] at fits
  obtain ⟨used, slot, absent⟩ := fits
  refine sound_goto sound rfl ⟨?_, sound.idle c⟩ (fun _ _ => ⟨rfl, rfl⟩) ?_ sound.cpus.1 ?_
    (fun _ h => nomatch h) ?_
  · exact (sound.current c).trans (by rw [here]; rfl)
  · exact record_setThread sound ⟨rfl, slot, used, sound.cpus.1, trivial⟩
  · intro d other h
    have free : (s.pc d).reserves ≠ some tid := by
      intro same
      exact other (sound.reserved d c tid same (by rw [here]; rfl))
    exact fits_same ⟨rfl, rfl, rfl⟩ (fits_insert absent free h)
  · have status : (board s.kernel s.pc).status tid = none := by
      simp [board, absent]
    have free : (board s.kernel s.pc).spawns c = none := by
      simp [board, here, Pc.spawns]
    have shown : board { s.kernel.insertThread tid with threadLock := true } s.pc =
        ((board s.kernel s.pc).setStatus tid .ready).setHome tid 0 := by
      simp only [board, Board.setStatus, Board.setHome, Kernel.insertThread, Kernel.setThread,
        Board.mk.injEq, and_true]
      constructor
      · funext u
        simp only [update_apply]
        split <;> rfl
      · funext u
        simp only [update_apply]
        split <;> rfl
    rw [board_update, shown, Board.setRuns_self _ (c := c) (by simp [board, here, Pc.runs, Pc.current, Board.setStatus, Board.setHome])]
    exact .create c tid 0 status free

theorem sound_spawning (spawns : (s.pc c).spawns = some tid) :
    (∃ r, s.kernel.threads tid = some r) ∧ ∀ d, (s.pc d).spawns = some tid → d = c := by
  obtain ⟨ready, _, _, alone⟩ := sound.placed.spawning c tid spawns
  obtain ⟨r, get, _⟩ := board_status ready
  exact ⟨⟨r, get⟩, alone⟩

theorem sound_home (here : s.pc c = .spawnHome t tid req best) :
    Sound (s.goto c ((s.kernel.setHome tid best).settid tid req) (.spawnPush t tid best)) := by
  have spawns : (s.pc c).spawns = some tid := by
    rw [here]
    rfl
  have inRange : best < s.kernel.numCpus := by
    have fits := sound.fits c
    rwa [here] at fits
  obtain ⟨⟨r, get⟩, alone⟩ := sound_spawning sound spawns
  obtain ⟨mem, eq⟩ := settid_eq (s.kernel.setHome tid best) tid req
  have written : s.kernel.setHome tid best = s.kernel.setThread tid { r with homeCpu := best } := by
    simp [Kernel.setHome, get]
  have sane := sound.record tid r get
  rw [eq, written]
  refine sound_goto sound rfl ⟨?_, sound.idle c⟩ (fun _ _ => ⟨rfl, rfl⟩) ?_ ?_ ?_
    (fun _ h => nomatch h) ?_
  · exact (sound.current c).trans (by rw [here]; rfl)
  · exact record_setThread sound ⟨sane.tid, sane.slot, sane.used, inRange, sane.ctx⟩
  · exact ⟨_, update_self _ _ _, rfl⟩
  · intro d other h
    have elsewhere : (s.pc d).spawns = some tid → best = r.homeCpu :=
      fun same => absurd (alone d same) other
    exact fits_same ⟨rfl, rfl, rfl⟩ (fits_setThread get elsewhere id h)
  · have shown : board { s.kernel.setThread tid { r with homeCpu := best } with mem := mem } s.pc =
        (board s.kernel s.pc).setHome tid best := by
      simp only [board, Board.setHome, Kernel.setThread, Board.mk.injEq, and_true]
      constructor
      · funext u
        simp only [update_apply]
        split
        · rename_i same
          subst same
          simp [get]
        · rfl
      · funext u
        simp only [update_apply]
        split <;> rfl
    rw [board_update_same _ s.pc (by rw [here]; rfl) (by rw [here]; rfl), shown]
    exact .settle c tid best spawns

theorem sound_push (here : s.pc c = .spawnPush t tid best) :
    Sound (s.goto c (s.kernel.setQueue best (s.kernel.queue best ++ [tid]))
      (.spawnIpi t tid best)) := by
  have spawns : (s.pc c).spawns = some tid := by
    rw [here]
    rfl
  have fits := sound.fits c
  rw [here] at fits
  obtain ⟨r, get, home⟩ := fits
  refine sound_table sound ⟨rfl, rfl, rfl⟩ ⟨?_, sound.idle c⟩ (fun _ _ => ⟨rfl, rfl⟩) trivial rfl ?_
  · exact (sound.current c).trans (by rw [here]; rfl)
  have moved := Move.start (b := board s.kernel s.pc) c tid spawns
  rw [board_home_of s.pc get, home] at moved
  rw [board_update]
  have runs : (board s.kernel s.pc).runs c = (Pc.spawnIpi t tid best).runs := by
    simp only [board, here]
    rfl
  have shown : board (s.kernel.setQueue best (s.kernel.queue best ++ [tid])) s.pc =
      (board s.kernel s.pc).setQueue best (s.kernel.queue best ++ [tid]) := rfl
  rw [Board.setRuns_self _ (c := c) (by rw [shown]; exact runs), shown]
  exact moved

theorem sound_exit (here : s.pc c = .exitQueue t)
    (cur : s.kernel.current c = some tid) (get : s.kernel.threads tid = some r) :
    Sound (s.goto c (((s.kernel.setCurrent c none).setIdle c true).setThread tid
      { r with state := .dead }) (.exitSwitch tid)) := by
  have same : t = tid := sound_current sound (by rw [here]; rfl) cur
  subst same
  have runs : (s.pc c).runs = some t := by
    rw [here]
    rfl
  have sane := sound.record t r get
  refine sound_goto sound rfl ⟨update_self _ _ _, ?_⟩ ?_ ?_ ?_ ?_ (fun _ h => nomatch h) ?_
  · simp [Kernel.setThread, Kernel.setIdle, Kernel.setCurrent]
  · exact fun d other => ⟨update_of_ne other _ _, update_of_ne other _ _⟩
  · refine record_setThread sound ⟨sane.tid, sane.slot, sane.used, sane.home, ?_⟩
    have ctx := sane.ctx
    cases saved : r.ctx with
    | exited => rfl
    | child | waited => trivial
    | yielded =>
      rw [saved] at ctx
      exact ctx
  · exact ⟨_, update_self _ _ _, rfl⟩
  · intro d _ h
    exact fits_same ⟨rfl, rfl, rfl⟩ (fits_setThread get (fun _ => rfl) (fun _ => rfl) h)
  · rw [board_update_runs _ s.pc (by rw [here]; rfl)]
    have shown : board (((s.kernel.setCurrent c none).setIdle c true).setThread t
        { r with state := .dead }) s.pc = (board s.kernel s.pc).setStatus t .dead :=
      board_setThread s.pc get rfl
    rw [shown]
    exact .exit c t runs

theorem blocked_not_queued (get : s.kernel.threads t = some r)
    (blocked : r.state = .blocked) : t ∉ s.kernel.queue c := by
  intro member
  obtain ⟨r', get', _, notBlocked, _⟩ := sound_queued sound member
  cases get.symm.trans get'
  exact notBlocked blocked

theorem rescue_pushes (get : s.kernel.threads i = some r)
    (blocked : r.state = .blocked) :
    s.kernel.rescue i r = (s.kernel.setThread i (r.rescued s.kernel.now)).setQueue r.homeCpu
      (s.kernel.queue r.homeCpu ++ [i]) := by
  have sane := sound.record i r get
  have inRange : r.homeCpu < maxCpus := Nat.lt_of_lt_of_le sane.home sound.cpus.2
  have absent : r.tid ∉ s.kernel.queue r.homeCpu := by
    rw [sane.tid]
    exact blocked_not_queued sound get blocked
  unfold Kernel.rescue
  rw [if_pos ⟨inRange, absent⟩, sane.tid]

theorem fresh_absent : s.kernel.threads s.kernel.nextTid = none := by
  cases get : s.kernel.threads s.kernel.nextTid with
  | none => rfl
  | some r => exact absurd (sound.record _ r get).used (Nat.lt_irrefl _)

theorem sound_install (here : s.pc c = .idleInstall next) (get : s.kernel.threads next = some r) :
    Sound (s.goto c { (s.kernel.setCurrent c (some next)).setIdle c false with
      idleCtx := update s.kernel.idleCtx c .after } (r.ctx.pc next)) := by
  obtain ⟨r', get', _, _, alive, _⟩ := sound_running (c := c) (t := next) sound (by rw [here]; rfl)
  cases get.symm.trans get'
  obtain ⟨current, runs, spawns, reserves, fits⟩ := resume_view (sound.record next r get) alive
  exact sound_reseat sound ⟨rfl, rfl, rfl⟩ rfl rfl rfl current (by rw [here]; exact runs)
    (by rw [here]; exact spawns) reserves (fits _)

theorem sound_resume (here : s.pc c = .yieldQueue y) (vacant : s.kernel.current c = none)
    (head : s.kernel.queue c = next :: rest) (get : s.kernel.threads next = some r) :
    Sound (s.goto c (((s.kernel.setQueue c rest).setCurrent c (some next)).setIdle c false)
      (r.ctx.pc next)) := by
  obtain ⟨r', get', _, _, alive⟩ := sound_queued (c := c) (t := next) sound (by simp [head])
  cases get.symm.trans get'
  obtain ⟨current, runs, spawns, reserves, fits⟩ := resume_view (sound.record next r get) alive
  have free : (s.pc c).runs = none := by
    have same := sound.current c
    rw [here] at same ⊢
    exact same.symm.trans vacant
  refine sound_pop sound head free ⟨rfl, rfl, rfl⟩ rfl ⟨?_, ?_⟩ ?_ runs
    (by rw [here]; exact spawns) reserves (fits _)
  · simp [Kernel.setIdle, Kernel.setCurrent, current]
  · simp [Kernel.setIdle, Kernel.setCurrent]
  · exact fun d other => ⟨update_of_ne other _ _, update_of_ne other _ _⟩

theorem sound_sleepNext (here : s.pc c = .waitQueue tid addr)
    (head : s.kernel.queue c = next :: rest) :
    Sound (s.goto c ((s.kernel.setQueue c rest).setCurrent c (some next))
      (.waitHandoff tid addr (some next))) := by
  have fits := sound.fits c
  have current := sound.current c
  rw [here] at fits current
  refine sound_pop sound head (by rw [here]; rfl) ⟨rfl, rfl, rfl⟩ rfl
    ⟨update_self _ _ _, ?_⟩ ?_ rfl (by rw [here]; rfl) rfl fits
  · simp only [Kernel.setCurrent, Kernel.setQueue, update_self, Option.isNone_some]
    rw [sound.idle c, current]
    rfl
  · exact fun d other => ⟨update_of_ne other _ _, rfl⟩

end

theorem idleResume_view (x : IdleResume) :
    x.pc.current = none ∧ x.pc.runs = none ∧ x.pc.spawns = none ∧ x.pc.reserves = none ∧
      ∀ k, x.pc.Fits k := by
  cases x <;> exact ⟨rfl, rfl, rfl, rfl, fun _ => trivial⟩

theorem saved_sane {n : Thread} (ctx : Resume) (sound : Sound s)
    (get : s.kernel.threads cur = some r) (fits : ctx.Fits cur r.state)
    (runs : (s.pc c).runs = some next)
    (other : (s.kernel.setThread cur { r with ctx := ctx }).threads next = some n) :
    n.Sane s.kernel.nextTid s.kernel.numCpus next ∧ n.state ≠ .dead := by
  obtain ⟨r', get', _, _, alive, _⟩ := sound_running sound runs
  have sane := sound.record cur r get
  simp only [Kernel.setThread, update_apply] at other
  split at other
  · rename_i same
    subst same
    cases other
    cases get.symm.trans get'
    exact ⟨⟨sane.tid, sane.slot, sane.used, sane.home, fits⟩, alive⟩
  · cases other.symm.trans get'
    exact ⟨sound.record next n other, alive⟩

theorem sound_switch {n : Thread} (ctx : Resume) (sound : Sound s)
    (get : s.kernel.threads cur = some r) (fits : ctx.Fits cur r.state)
    (view : (s.pc c).current = some next ∧ (s.pc c).runs = some next ∧ (s.pc c).spawns = none)
    (other : (s.kernel.setThread cur { r with ctx := ctx }).threads next = some n) :
    Sound (s.goto c (s.kernel.setThread cur { r with ctx := ctx }) (n.ctx.pc next)) := by
  obtain ⟨sane, alive⟩ := saved_sane ctx sound get fits view.2.1 other
  obtain ⟨current, runs, spawns, reserves, fitsNext⟩ := resume_view sane alive
  exact sound_save sound get rfl rfl (sane_ctx (sound.record cur r get) rfl rfl fits)
    ⟨current.trans view.1.symm, runs.trans view.2.1.symm, spawns.trans view.2.2.symm, reserves⟩
    (fitsNext _)

theorem sound_toIdle (ctx : Resume) (sound : Sound s) (get : s.kernel.threads t = some r)
    (fits : ctx.Fits t r.state)
    (view : (s.pc c).current = none ∧ (s.pc c).runs = none ∧ (s.pc c).spawns = none) :
    Sound (s.goto c (s.kernel.setThread t { r with ctx := ctx }) (s.kernel.idleCtx c).pc) := by
  obtain ⟨current, runs, spawns, reserves, fitsIdle⟩ := idleResume_view (s.kernel.idleCtx c)
  exact sound_save sound get rfl rfl (sane_ctx (sound.record t r get) rfl rfl fits)
    ⟨current.trans view.1.symm, runs.trans view.2.1.symm, spawns.trans view.2.2.symm, reserves⟩
    (fitsIdle _)

theorem effect_sound (sound : Sound s) (here : s.pc c = p)
    (fresh : ∀ t req, p = .spawnTid t req → s.kernel.nextTid + 1 < 2 ^ 32)
    (effect : Effect s.kernel c p k' p') : Sound (s.goto c k' p') := by
  have calm : ∀ {k'' : Kernel} {q : Pc}, SameTable s.kernel k'' → k''.queue = s.kernel.queue →
      k''.current = s.kernel.current ∧ k''.idle = s.kernel.idle → SameView p q →
      q.Fits s.kernel → Sound (s.goto c k'' q) := by
    intro k'' q table queue current view fits
    exact sound_calm sound table queue current (by rw [here]; exact view) fits
  have currentHere : s.kernel.current c = p.current := by
    rw [← here]
    exact sound.current c
  have fits := sound.fits c
  rw [here] at fits
  cases effect with
  | quiet go =>
    obtain ⟨view, fits⟩ := quiet_view sound here go
    exact calm ⟨rfl, rfl, rfl⟩ rfl ⟨rfl, rfl⟩ view fits
  | forceUnlock b a | unlock b a =>
    obtain ⟨current, runs, spawns, reserves, fits⟩ := after_view a
    exact calm ⟨rfl, rfl, rfl⟩ rfl ⟨rfl, rfl⟩ ⟨current, runs, spawns, reserves⟩ (fits _)
  | handoff =>
    exact calm ⟨rfl, rfl, rfl⟩ rfl ⟨rfl, rfl⟩ ⟨rfl, rfl, rfl, rfl⟩ fits
  | pop next rest head =>
    refine sound_pop sound head (by rw [here]; rfl) ⟨rfl, rfl, rfl⟩ rfl
      ⟨currentHere, sound.idle c⟩ (fun _ _ => ⟨rfl, rfl⟩) rfl (by rw [here]; rfl) rfl trivial
  | install next r get => exact sound_install sound here get
  | installMissing next missing =>
    obtain ⟨r', get', _⟩ := sound_running (c := c) (t := next) sound (by rw [here]; rfl)
    cases missing.symm.trans get'
  | reset =>
    exact sound_reseat sound ⟨rfl, rfl, rfl⟩ rfl rfl rfl rfl (by rw [here]; rfl)
      (by rw [here]; rfl) rfl trivial
  | rescue i addr r th get blocked threads queue rescued =>
    rw [← rescued, rescue_pushes sound get blocked]
    exact sound_awaken sound get blocked rfl rfl rfl rfl (by rw [here]; exact ⟨rfl, rfl, rfl, rfl⟩)
      (fun _ => trivial)
  | resume y next rest r vacant head get => exact sound_resume sound here vacant head get
  | resumeMissing y next rest vacant head missing =>
    obtain ⟨r', get', _⟩ := sound_queued (c := c) (t := next) sound (by simp [head])
    cases missing.symm.trans get'
  | rotate y cur next rest busy head => exact sound_rotate sound here busy head
  | switch y cur next r n get other =>
    exact sound_switch (.yielded y) sound get fits.1 (by rw [here]; exact ⟨rfl, rfl, rfl⟩) other
  | mark t addr val deadline tid r cur get => exact sound_mark sound here cur get
  | sleepAlone =>
    exact sound_reseat sound ⟨rfl, rfl, rfl⟩ rfl rfl rfl rfl (by rw [here]; rfl)
      (by rw [here]; rfl) rfl fits
  | sleepNext tid addr next rest head => exact sound_sleepNext sound here head
  | sleepSwitch tid next r n get other =>
    exact sound_switch .waited sound get trivial (by rw [here]; exact ⟨rfl, rfl, rfl⟩) other
  | sleepIdle tid r get =>
    exact sound_toIdle .waited sound get trivial (by rw [here]; exact ⟨rfl, rfl, rfl⟩)
  | finish t r get =>
    have sane := sound.record t r get
    exact sound_save sound get rfl rfl (sane_ctx sane rfl rfl sane.ctx)
      (by rw [here]; exact ⟨rfl, rfl, rfl, rfl⟩) trivial
  | wake t addr count i woken th get blocked =>
    unfold Kernel.wake
    rw [(sound.record i th get).tid]
    exact sound_awaken sound get blocked rfl rfl rfl rfl (by rw [here]; exact ⟨rfl, rfl, rfl, rfl⟩)
      (fun _ => trivial)
  | allocFull t req =>
    exact sound_alloc sound (fresh t req rfl) (by rw [here]; exact ⟨rfl, rfl, rfl⟩) trivial
      (.inl rfl)
  | alloc t req room =>
    exact sound_alloc sound (fresh t req rfl) (by rw [here]; exact ⟨rfl, rfl, rfl⟩)
      ⟨Nat.lt_succ_self _, room, fresh_absent sound⟩ (.inr rfl)
  | insert => exact sound_insert sound here
  | home t tid req best threads mem written =>
    rw [← written]
    exact sound_home sound here
  | push => exact sound_push sound here
  | exit t tid r cur get => exact sound_exit sound here cur get
  | exitMissing t tid missing =>
    rcases missing with vacant | ⟨cur, missing⟩
    · cases vacant.symm.trans currentHere
    · cases cur.symm.trans currentHere
      obtain ⟨r', get', _⟩ := sound_running (c := c) (t := t) sound (by rw [here]; rfl)
      cases missing.symm.trans get'
  | exitIdle tid r get =>
    obtain ⟨r', get', dead⟩ := fits
    cases get.symm.trans get'
    exact sound_toIdle .exited sound get dead (by rw [here]; exact ⟨rfl, rfl, rfl⟩)
  | _ => exact calm ⟨rfl, rfl, rfl⟩ rfl ⟨rfl, rfl⟩ ⟨rfl, rfl, rfl, rfl⟩ trivial

theorem awake_view (p : Pc) : (SameView p p.awake ∧ ∀ k, p.awake.Fits k) ∨ p.awake = p := by
  cases p with
  | apHalted | idleHalted => exact .inl ⟨⟨rfl, rfl, rfl, rfl⟩, fun _ => trivial⟩
  | _ => exact .inr rfl

theorem sound_kernel (sound : Sound s) (table : SameTable s.kernel k')
    (queue : k'.queue = s.kernel.queue)
    (current : k'.current = s.kernel.current ∧ k'.idle = s.kernel.idle) :
    Sound { kernel := k', pc := s.pc } := by
  have sameBoard := board_same s.pc table queue
  refine ⟨table.numCpus ▸ sound.cpus, ?_, ?_, ?_, fun c => fits_same table (sound.fits c),
    sound.reserved, sameBoard ▸ sound.placed⟩
  · intro c
    rw [current.1]
    exact sound.current c
  · intro c
    rw [current.1, current.2]
    exact sound.idle c
  · intro t r get
    rw [table.threads] at get
    rw [table.nextTid, table.numCpus]
    exact sound.record t r get

theorem sound_awake (sound : Sound s) (table : SameTable s.kernel k')
    (queue : k'.queue = s.kernel.queue)
    (current : k'.current = s.kernel.current ∧ k'.idle = s.kernel.idle) :
    Sound (s.goto c k' (s.pc c).awake) := by
  rcases awake_view (s.pc c) with ⟨view, fits⟩ | same
  · exact sound_calm sound table queue current view (fits _)
  · rw [same]
    unfold System.goto
    rw [update_eq_self]
    exact sound_kernel sound table queue current

theorem enter_view (t : Nat) (rax : Int) (f : Call) :
    SameView (.user t rax) (f.enter t rax) ∧ ∀ k, (f.enter t rax).Fits k := by
  cases f <;> exact ⟨⟨rfl, rfl, rfl, rfl⟩, fun _ => trivial⟩

theorem step_sound (sound : Sound s) (fresh : NoWrap s a) (taken : step s a = some s') :
    Sound s' := by
  cases step_cases taken with
  | @cpu c k p bound own =>
    exact effect_sound sound rfl (fun t req here => fresh c t req rfl here) (cpuStep_effect own)
  | @call c t rax f bound here =>
    obtain ⟨view, fits⟩ := enter_view t rax f
    exact sound_calm sound ⟨rfl, rfl, rfl⟩ rfl ⟨rfl, rfl⟩ (by rw [here]; exact view) (fits _)
  | interrupt => exact sound_awake sound ⟨rfl, rfl, rfl⟩ rfl ⟨rfl, rfl⟩
  | timer bound open_ resched rescues blocking kernel =>
    rw [kernel]
    exact sound_awake sound ⟨rfl, rfl, rfl⟩ rfl ⟨rfl, rfl⟩
  | ambient => exact sound_kernel sound ⟨rfl, rfl, rfl⟩ rfl ⟨rfl, rfl⟩

theorem sound_boot (some : 0 < n) (few : n ≤ maxCpus) : Sound (boot n) := by
  have noReserve : ∀ c, ((boot n).pc c).reserves = none :=
    boot_place (P := fun p => p.reserves = none) rfl rfl n
  have noSpawn : ∀ c, ((boot n).pc c).spawns = none :=
    boot_place (P := fun p => p.spawns = none) rfl rfl n
  have runsMain : ∀ c t, ((boot n).pc c).runs = Option.some t → c = 0 ∧ t = 0 := by
    intro c t h
    simp only [boot] at h
    split at h
    · rename_i zero
      cases h
      exact ⟨zero, rfl⟩
    · cases h
  refine ⟨⟨some, few⟩, ?_, ?_, ?_, ?_, ?_, ⟨?_, ?_, ?_, ?_, ?_⟩⟩
  · intro c
    simp only [boot]
    split <;> rfl
  · intro c
    simp only [boot]
    split <;> simp_all
  · intro t r get
    simp only [boot] at get
    split at get
    · rename_i zero
      cases get
      exact ⟨zero.symm, by rw [zero]; decide, by rw [zero]; exact Nat.one_pos, some, trivial⟩
    · cases get
  · intro c
    simp only [boot]
    split <;> trivial
  · intro c d tid h
    cases (noReserve c).symm.trans h
  · exact fun _ => List.nodup_nil
  · intro c t member
    cases member
  · intro c t h
    obtain ⟨rfl, rfl⟩ := runsMain c t h
    exact ⟨rfl, rfl, List.not_mem_nil⟩
  · intro c t h
    cases (noSpawn c).symm.trans h
  · intro t h
    obtain ⟨r, get, _⟩ := board_status h
    simp only [boot] at get
    split at get
    · rename_i zero
      subst zero
      exact .inr (.inr rfl)
    · cases get

theorem run_sound (some : 0 < n) (few : n ≤ maxCpus) (run : Run step (boot n) past s)
    (fresh : ∀ e ∈ past, NoWrap e.1 e.2) : Sound s :=
  run_invariant_of NoWrap Sound (sound_boot some few)
    (fun _ _ _ sound ok taken => step_sound sound ok taken) run fresh

def Started (s : System) (t : Nat) : Prop :=
  s.kernel.threads t ≠ none ∧ ∀ c, (s.pc c).spawns ≠ some t

theorem runs_current (runs : p.runs = some t) :
    p.current = some t ∨ p = .idleInstall t := by
  cases p with
  | idleInstall =>
    cases runs
    exact .inr rfl
  | waitQueue => cases runs
  | _ => exact .inl runs

/-- No thread is queued twice; a queued thread is in the queue of its home CPU and can run;
    and a started thread that can run is queued on, current on, or just popped by its home. -/
theorem threads_stay_placed {n : Nat} {past : List (System × Action)} {s : System}
    (some_cpu : 0 < n) (few : n ≤ maxCpus) (run : Run step (boot n) past s)
    (fresh : ∀ e ∈ past, NoWrap e.1 e.2) :
    (∀ c, (s.kernel.queue c).Nodup) ∧
      (∀ c d t, t ∈ s.kernel.queue c → t ∈ s.kernel.queue d → c = d) ∧
      (∀ c t, t ∈ s.kernel.queue c → ∃ r, s.kernel.threads t = some r ∧ r.homeCpu = c ∧
        r.state ≠ .blocked ∧ r.state ≠ .dead) ∧
      ∀ t r, s.kernel.threads t = some r → Started s t → r.state ≠ .blocked → r.state ≠ .dead →
        t ∈ s.kernel.queue r.homeCpu ∨ s.kernel.current r.homeCpu = some t ∨
          s.pc r.homeCpu = .idleInstall t := by
  have sound := run_sound some_cpu few run fresh
  refine ⟨sound.placed.nodup, ?_, fun c t member => sound_queued sound member, ?_⟩
  · intro c d t hc hd
    exact (sound.placed.queued c t hc).2.symm.trans (sound.placed.queued d t hd).2
  intro t r get started notBlocked notDead
  have ready : (board s.kernel s.pc).status t = some .ready := by
    rw [board_status_of s.pc get]
    cases state : r.state with
    | ready | running => rfl
    | blocked => exact absurd state notBlocked
    | dead => exact absurd state notDead
  rcases sound.placed.placed t ready with ⟨c, spawns⟩ | queued | runs
  · exact absurd spawns (started.2 c)
  · rw [board_home_of s.pc get] at queued
    exact .inl queued
  · rw [board_home_of s.pc get] at runs
    rcases runs_current runs with current | popped
    · exact .inr (.inl ((sound.current _).trans current))
    · exact .inr (.inr popped)

def noWrap (s : System) : Action → Bool
  | .cpu c =>
    match s.pc c with
    | .spawnTid _ _ => decide (s.kernel.nextTid + 1 < 2 ^ 32)
    | _ => true
  | _ => true

theorem noWrap_sound (test : noWrap s a = true) : NoWrap s a := by
  intro c t req same here
  subst same
  simp only [noWrap, here, decide_eq_true_eq] at test
  exact test

def plainClone : CloneRequest := ⟨0, 0, 0⟩

def cpuSteps (c m : Nat) : List Action := List.replicate m (.cpu c)
def callSteps (c : Nat) (f : Call) (m : Nat) : List Action := .call c f :: cpuSteps c m
def interruptSteps (c m : Nat) : List Action := .interrupt c :: cpuSteps c m

def twoClones : List Action :=
  callSteps 0 (.spawn plainClone) 9 ++ callSteps 0 (.spawn plainClone) 9 ++ cpuSteps 1 1 ++
    interruptSteps 1 34

theorem placed_after_two_clones :
    ∃ past s, Run step (boot 2) past s ∧ s.kernel.current 1 = some 1 ∧ (s.kernel.queue 1).Nodup ∧
      ∀ t ∈ s.kernel.queue 1, s.kernel.threads t ≠ none := by
  obtain ⟨past, s, run, fresh, current⟩ := run_of_exec noWrap step (boot 2) twoClones
    (fun s => s.kernel.current 1 = some 1) (by decide)
  obtain ⟨nodup, _, queued, _⟩ := threads_stay_placed (n := 2) (by decide) (by decide) run
    (fun e member => noWrap_sound (fresh e member))
  refine ⟨past, s, run, by simpa using current, nodup 1, ?_⟩
  intro t member
  obtain ⟨r, get, _⟩ := queued 1 t member
  simp [get]

def System.withNextTid (s : System) (tid : Nat) : System :=
  { s with kernel := { s.kernel with nextTid := tid } }

section
variable (here : s.pc c = .user t 0) (bound : c < s.kernel.numCpus) (full : maxThreads ≤ s.kernel.nextTid)
include here bound full

theorem refused_clone :
    ∃ past, Run step s past (s.withNextTid ((s.kernel.nextTid + 1) % 2 ^ 32)) := by
  have called : step s (.call c (.spawn plainClone)) =
      some (s.goto c s.kernel (.spawnTid t plainClone)) := by
    simp [step, here, bound, Call.enter]
  have refused : step (s.goto c s.kernel (.spawnTid t plainClone)) (.cpu c) =
      some (s.withNextTid ((s.kernel.nextTid + 1) % 2 ^ 32)) := by
    have back : update s.pc c (.user t 0) = s.pc := by
      rw [← here, update_eq_self]
    simp [step, System.goto, bound, cpuStep, full, System.withNextTid, back]
  exact ⟨_, .snoc (.snoc .nil called) refused⟩

theorem refused_clones (m : Nat) (room : s.kernel.nextTid + m < 2 ^ 32) :
    ∃ past, Run step s past (s.withNextTid (s.kernel.nextTid + m)) := by
  induction m with
  | zero => exact ⟨[], .nil⟩
  | succ m ih =>
    obtain ⟨past, run⟩ := ih (by omega)
    obtain ⟨more, tail⟩ := refused_clone (s := s.withNextTid (s.kernel.nextTid + m)) here bound
      (Nat.le_trans full (Nat.le_add_right _ _))
    refine ⟨more ++ past, run_append run ?_⟩
    have next : ((s.withNextTid (s.kernel.nextTid + m)).kernel.nextTid + 1) % 2 ^ 32
        = s.kernel.nextTid + (m + 1) := Nat.mod_eq_of_lt room
    rw [next] at tail
    exact tail

theorem counter_wraps (room : s.kernel.nextTid < 2 ^ 32) :
    ∃ past, Run step s past (s.withNextTid 0) := by
  obtain ⟨past, run⟩ := refused_clones here bound full (2 ^ 32 - 1 - s.kernel.nextTid) (by omega)
  have last : s.kernel.nextTid + (2 ^ 32 - 1 - s.kernel.nextTid) = 2 ^ 32 - 1 := by omega
  rw [last] at run
  have full : maxThreads ≤ (s.withNextTid (2 ^ 32 - 1)).kernel.nextTid := by
    show maxThreads ≤ 2 ^ 32 - 1
    decide
  obtain ⟨more, tail⟩ := refused_clone (s := s.withNextTid (2 ^ 32 - 1)) here bound full
  have zero : ((s.withNextTid (2 ^ 32 - 1)).kernel.nextTid + 1) % 2 ^ 32 = 0 := by
    show (2 ^ 32 - 1 + 1) % 2 ^ 32 = 0
    decide
  rw [zero] at tail
  exact ⟨more ++ past, run_append run tail⟩

end

def System.inUser (s : System) (c : Nat) : Bool :=
  match s.pc c with
  | .user _ 0 => true
  | _ => false

theorem run_across_wrap (n c : Nat) (first second : List Action) (P : System → Bool)
    (done : (exec (fun _ _ => true) step (boot n) first).any (fun s => s.inUser c &&
      decide (c < s.kernel.numCpus ∧ maxThreads ≤ s.kernel.nextTid ∧ s.kernel.nextTid < 2 ^ 32) &&
      (exec (fun _ _ => true) step (s.withNextTid 0) second).any P) = true) :
    ∃ past s, Run step (boot n) past s ∧ P s = true := by
  obtain ⟨past, mid, run, _, holds⟩ := run_of_exec _ step (boot n) first _ done
  simp only [Bool.and_eq_true, decide_eq_true_eq] at holds
  obtain ⟨⟨inside, bound, full, room⟩, tail⟩ := holds
  obtain ⟨t, here⟩ : ∃ t, mid.pc c = .user t 0 := by
    unfold System.inUser at inside
    split at inside
    · exact ⟨_, by assumption⟩
    · cases inside
  obtain ⟨spun, wrap⟩ := counter_wraps here bound full room
  obtain ⟨more, final, after, _, last⟩ := run_of_exec _ step (mid.withNextTid 0) second P tail
  exact ⟨_, final, run_append (run_append run wrap) after, last⟩

def cloneSteps : List Action := callSteps 0 (.spawn plainClone) 8

def fillTable : List Action :=
  (List.replicate 31 cloneSteps).flatten ++ callSteps 0 (.spawn plainClone) 1

/-- With a full table main makes clone calls until the counter is back at zero, creates
    thread 0 a second time and yields. -/
theorem wrapped_tid_queued_twice :
    ∃ past s, Run step (boot 1) past s ∧ ¬ (s.kernel.queue 0).Nodup := by
  obtain ⟨past, s, run, twice⟩ := run_across_wrap 1 0 fillTable
    (cloneSteps ++ callSteps 0 .yieldCurrent 34)
    (fun s => decide (¬ (s.kernel.queue 0).Nodup)) (by decide +kernel)
  exact ⟨past, s, run, of_decide_eq_true twice⟩

end TynKernel.Sched
