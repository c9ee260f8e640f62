import TynKernel.Fd.PipeIo

/-!
Numbers that are not open. A free slot of the pipe table has -1 in the fields that every
search compares with the caller's number, and the close of a write end is ignored.
-/
namespace TynKernel.Fd.PipeIo
open Pipes Rings Rows Runs

/-- The number is no descriptor: none that the kernel has without a table, none of a table of
    files, directories or sockets, and no end of a pipe that was handed out and not closed
    since. -/
structure Dead (w : World) (fd : Int) : Prop where
  notReserved : fd ∉ reserved
  notEnd : fd ∉ w.ends
  notTmpfs : w.tables.tmpfs.isTmpfsFd fd = false
  notVfs : w.tables.vfs.isVfsFd fd = false
  notDir : fd ≠ -1 → w.tables.vfs.isDirFd fd = false
  notSocket : w.tables.sockets.isSocketFd fd = false

structure Tracked (w : World) : Prop where
  sound : AllSound w.tables.pipes
  ended : ∀ (j : Nat) (p : Pipe), w.tables.pipes.pipes.cells[j]? = some p → p.readFd ≠ -1 →
    p.readFd ∈ w.ends

theorem tracked_start (archive resolvConf : List UInt8) (network : Bool) :
    Tracked (start archive resolvConf network) := by
  constructor
  · exact sound_initial
  · intro j p here alive
    have empty_ : p = empty := List.eq_of_mem_replicate (List.mem_of_getElem? here)
    exact absurd (by rw [empty_]; rfl) alive

section
variable {w w' : World}

section
variable (tracked : Tracked w)
include tracked

theorem put_tracked (here : w.tables.pipes.pipes.cells[i]? = some p)
    (sound : Sound q) (same : q.readFd = p.readFd) (grants : List Grant) :
    Tracked ⟨{ w.tables with pipes := w.tables.pipes.put i q }, grants, w.ends⟩ := by
  constructor
  · exact put_sound tracked.sound i sound
  · apply Row.forall_set tracked.ended
    rw [same]
    exact tracked.ended i p here

theorem pipe_tracked (taken : step w (.pipe false) = some w') :
    Tracked w' := by
  simp only [step, sysPipe, Bool.false_eq_true, if_false, Option.some.injEq] at taken
  subst taken
  constructor
  · exact create_sound tracked.sound
  intro j p here alive
  by_cases free : w.tables.pipes.freeSlot = some j
  · have made := (create_made free).symm.trans here
    obtain rfl := Option.some.inj made
    simp only [create_numbers]
    exact List.mem_cons_self
  · have old := (create_elsewhere free).symm.trans here
    exact List.mem_cons_of_mem _ (List.mem_cons_of_mem _ (tracked.ended j p old alive))

theorem write_tracked (taken : step w (.write fd data) = some w') :
    Tracked w' := by
  simp only [step] at taken
  rcases sysWrite_spec w.tables fd data with ⟨j, found, reply⟩ | ⟨same, _⟩
  · obtain ⟨p, get⟩ := writeSlot_get found
    have wrote := write_wrote (tracked.sound j p get) data
    rw [reply, write_own get found data] at taken
    obtain rfl := Option.some.inj taken
    exact put_tracked tracked get wrote.sound wrote.readFd _
  · obtain rfl := Option.some.inj taken
    rw [same]
    exact ⟨tracked.sound, tracked.ended⟩

theorem read_tracked (taken : step w (.read fd count) = some w') :
    Tracked w' := by
  simp only [step] at taken
  rcases sysRead_spec w.tables fd count with ⟨j, found, reply⟩ | ⟨same, _⟩
  · obtain ⟨p, get⟩ := readSlot_get found
    have took := read_took (tracked.sound j p get) count
    rw [reply, (read_own get found count).1] at taken
    obtain rfl := Option.some.inj taken
    exact put_tracked tracked get took.sound (read_numbers p count).1 _
  · obtain rfl := Option.some.inj taken
    rw [same]
    exact ⟨tracked.sound, tracked.ended⟩

theorem setNonblock_tracked :
    Tracked { w with
      tables := { w.tables with pipes := w.tables.pipes.setNonblock fd nonblock } } := by
  constructor
  · exact setNonblock_sound tracked.sound fd nonblock
  unfold State.setNonblock
  split
  · rename_i i p found
    apply Row.forall_set tracked.ended
    exact tracked.ended i p (at_get found).2
  · exact tracked.ended

theorem fcntl_tracked (taken : step w (.fcntl fd cmd arg) = some w') :
    Tracked w' := by
  obtain rfl := Option.some.inj taken
  unfold sysFcntl
  split
  · split
    · exact setNonblock_tracked tracked
    · split
      · exact ⟨tracked.sound, tracked.ended⟩
      · exact tracked
  · exact tracked

theorem close_tracked (taken : step w (.close fd) = some w') :
    Tracked w' := by
  obtain rfl := Option.some.inj taken
  constructor
  · exact close_sound tracked.sound fd
  intro j p here alive
  have length : j < w.tables.pipes.pipes.cells.length := by
    rw [w.tables.pipes.pipes.size, ← (w.tables.pipes.close fd).pipes.size]
    exact (List.getElem?_eq_some_iff.mp here).1
  obtain ⟨same, other⟩ := close_alive (List.getElem?_eq_getElem length) here alive
  refine List.mem_filter.mpr ⟨?_, decide_eq_true other⟩
  exact tracked.ended j p ((List.getElem?_eq_getElem length).trans (congrArg some same)) alive

theorem step_tracked (taken : step w op = some w') : Tracked w' := by
  cases op with
  | pipe null =>
    cases null with
    | true =>
      obtain rfl := Option.some.inj taken
      exact tracked
    | false => exact pipe_tracked tracked taken
  | write => exact write_tracked tracked taken
  | read => exact read_tracked tracked taken
  | fcntl => exact fcntl_tracked tracked taken
  | close => exact close_tracked tracked taken
  | other =>
    obtain rfl := Option.some.inj taken
    exact ⟨tracked.sound, tracked.ended⟩

end

end

theorem run_tracked (run : Run step (start archive resolvConf network) past w) : Tracked w :=
  run_invariant Tracked (tracked_start archive resolvConf network)
    (fun _ _ _ tracked taken => step_tracked tracked taken) run

section
variable {w : World} {fd : Int}

theorem dead_write_target (dead : Dead w fd) :
    writeTarget w.tables fd =
      match w.tables.pipes.writeSlot fd with
      | some i => .pipe i
      | none => .nothing (-9) := by
  have distinct := dead.notReserved
  simp only [reserved, fdEpoll, fdTimer, fdDevnull, fdSynthZero, fdSynthDir, fdDevRandom,
    fdResolvConf, List.mem_cons, List.not_mem_nil, or_false, not_or] at distinct
  have output : ¬ (fd = 1 ∨ fd = 2) := by omega
  have null : ¬ fd = fdDevnull := distinct.2.2.2.2.2.1
  rw [writeTarget, dead.notTmpfs, if_neg Bool.false_ne_true, if_neg output, if_neg null]
  cases found : w.tables.pipes.writeSlot fd with
  | some => rw [if_pos (writeSlot_isPipeFd found)]
  | none => rw [dead.notSocket, if_neg Bool.false_ne_true, ite_self]

theorem dead_read_target (dead : Dead w fd) :
    (∃ i, w.tables.pipes.readSlot fd = some i ∧ readTarget w.tables fd = .pipe i) ∨
      (w.tables.pipes.readSlot fd = none ∧ ∃ code, readTarget w.tables fd = .nothing code) := by
  have distinct := dead.notReserved
  simp only [reserved, List.mem_cons, List.not_mem_nil, or_false, not_or] at distinct
  obtain ⟨input, _, _, _, timer, _, zero, _, random, resolv⟩ := distinct
  cases found : w.tables.pipes.readSlot fd with
  | some i => exact .inl ⟨i, rfl, readTarget_pipe input dead.notTmpfs dead.notVfs found⟩
  | none =>
    right
    refine ⟨rfl, ?_⟩
    rw [readTarget, if_neg input, dead.notTmpfs, if_neg Bool.false_ne_true, dead.notVfs,
      if_neg Bool.false_ne_true, found]
    by_cases pipe : w.tables.pipes.isPipeFd fd = true
    · rw [if_pos pipe]
      exact ⟨-9, rfl⟩
    · rw [if_neg pipe, if_neg random, if_neg resolv, if_neg zero, if_neg timer, dead.notSocket,
        if_neg Bool.false_ne_true]
      exact ⟨0, rfl⟩

theorem dead_write_iff (dead : Dead w fd) (data : List UInt8) :
    ((sysWrite w.tables fd data).2 = some (-9) ∧
        (sysWrite w.tables fd data).1.pipes = w.tables.pipes) ↔
      ∀ p ∈ w.tables.pipes.pipes.cells, p.writeFd ≠ fd := by
  have target := dead_write_target dead
  cases found : w.tables.pipes.writeSlot fd with
  | none =>
    have absent := List.findIdx?_eq_none_iff.mp found
    simp only [found] at target
    simp only [sysWrite, target, true_and, true_iff]
    intro p member
    exact of_decide_eq_false (absent p member)
  | some =>
    obtain ⟨p, get, test, _⟩ := findIdx_iff.mp found
    simp only [found] at target
    simp only [sysWrite, target, write_own get found data, Option.some.injEq]
    constructor
    · omega
    · intro none_
      exact absurd (of_decide_eq_true test) (none_ p (List.mem_of_getElem? get))

theorem dead_read_slot (tracked : Tracked w) (dead : Dead w fd)
    (found : w.tables.pipes.readSlot fd = some i) : fd = -1 := by
  obtain ⟨p, get, test, _⟩ := findIdx_iff.mp found
  have number : p.readFd = fd := of_decide_eq_true test
  apply Classical.byContradiction
  intro used
  exact dead.notEnd (number ▸ tracked.ended i p get (number ▸ used))

theorem dead_read_iff (tracked : Tracked w) (dead : Dead w fd) (count : Nat) :
    (∃ code, (sysRead w.tables fd count).2 = some (code, [])) ↔
      ¬ (fd = -1 ∧ 0 < count ∧ ∃ (i : Nat) (p : Pipe), w.tables.pipes.freeSlot = some i ∧
        w.tables.pipes.pipes.cells[i]? = some p ∧ p.contents ≠ []) := by
  rcases dead_read_target dead with ⟨i, found, target⟩ | ⟨found, code, target⟩
  · obtain ⟨p, get⟩ := readSlot_get found
    obtain rfl := dead_read_slot tracked dead found
    have bytes := (read_own get found count).2.1
    rw [(read_took (tracked.sound i p get) count).bytes] at bytes
    simp only [sysRead, target]
    constructor
    · rintro ⟨code, answer⟩ ⟨_, some_, j, q, free, here, full⟩
      have same : i = j := Option.some.inj (found.symm.trans free)
      subst same
      obtain rfl : p = q := Option.some.inj (get.symm.trans here)
      rw [Option.some.inj answer] at bytes
      rcases List.take_eq_nil_iff.mp bytes.symm with zero | none_
      · omega
      · exact full none_
    · intro quiet
      refine ⟨(w.tables.pipes.read (-1) count).2.1, ?_⟩
      have none_ : p.contents.take count = [] := by
        apply List.take_eq_nil_iff.mpr
        by_cases zero : count = 0
        · exact .inl zero
        · right
          apply Classical.byContradiction
          intro full
          exact quiet ⟨trivial, Nat.pos_of_ne_zero zero, i, p, found, get, full⟩
      rw [none_] at bytes
      rw [← bytes]
  · simp only [sysRead, target]
    constructor
    · rintro _ ⟨rfl, _, i, p, free, _⟩
      exact absurd (found.symm.trans free) (by simp)
    · intro _
      exact ⟨code, rfl⟩

def firstSlot (s : Pipes.State) (fd : Int) : Option Nat :=
  s.pipes.cells.findIdx? fun p => p.readFd = fd || p.writeFd = fd

theorem setNonblock_iff (found : firstSlot s fd = some i) (here : s.pipes.cells[i]? = some p)
    (nonblock : Bool) : s.setNonblock fd nonblock = s ↔ p.nonblock = nonblock := by
  have put : s.setNonblock fd nonblock = s.put i { p with nonblock := nonblock } := by
    unfold firstSlot at found
    simp [State.setNonblock, found, at_slot here]
  rw [put]
  constructor
  · intro same
    have after := put_own here { p with nonblock := nonblock }
    rw [same, here, Option.some.injEq] at after
    rw [after]
  · intro same
    subst same
    exact put_self here

theorem fcntl_iff (t : Tables) (fd : Int) (arg : BitVec 64) :
    (sysFcntl t fd fSetfl arg).1.pipes = t.pipes ↔
      ∀ (i : Nat) (p : Pipe), firstSlot t.pipes fd = some i → t.pipes.pipes.cells[i]? = some p →
        p.nonblock = decide (arg &&& oNonblock ≠ 0) := by
  rw [sysFcntl, if_pos rfl]
  cases found : firstSlot t.pipes fd with
  | none =>
    have absent : ¬ t.pipes.isPipeFd fd = true := by
      rw [State.isPipeFd, Bool.not_eq_true, List.any_eq_false]
      intro p member
      rw [List.findIdx?_eq_none_iff.mp found p member]
      exact Bool.false_ne_true
    simp only [if_neg absent, reduceCtorEq, false_implies, implies_true, iff_true]
    split
    · rfl
    · rfl
  | some i =>
    obtain ⟨p, get, test, _⟩ := findIdx_iff.mp found
    have present : t.pipes.isPipeFd fd = true :=
      List.any_eq_true.mpr ⟨p, List.mem_of_getElem? get, test⟩
    simp only [if_pos present]
    rw [setNonblock_iff found get]
    constructor
    · intro same j q slot here
      obtain rfl := Option.some.inj slot
      obtain rfl : p = q := Option.some.inj (get.symm.trans here)
      exact same
    · intro all
      exact all i p rfl get

end

/-- A number that is not open stays away from the pipes exactly if no slot has it as its write
    number, if it is not -1 or the first free slot is empty, and if the first slot that has it at
    all has the requested mode already. -/
theorem dead_number_iff {archive resolvConf : List UInt8} {network : Bool}
    {past : List (World × Op)} {w : World} {fd : Int}
    (run : Run step (start archive resolvConf network) past w) (dead : Dead w fd) :
    (∀ data, ((sysWrite w.tables fd data).2 = some (-9) ∧
        (sysWrite w.tables fd data).1.pipes = w.tables.pipes) ↔
      ∀ p ∈ w.tables.pipes.pipes.cells, p.writeFd ≠ fd) ∧
    (∀ count, (∃ code, (sysRead w.tables fd count).2 = some (code, [])) ↔
      ¬ (fd = -1 ∧ 0 < count ∧ ∃ (i : Nat) (p : Pipe), w.tables.pipes.freeSlot = some i ∧
        w.tables.pipes.pipes.cells[i]? = some p ∧ p.contents ≠ [])) ∧
    ∀ arg, (sysFcntl w.tables fd fSetfl arg).1.pipes = w.tables.pipes ↔
      ∀ (i : Nat) (p : Pipe), firstSlot w.tables.pipes fd = some i →
        w.tables.pipes.pipes.cells[i]? = some p → p.nonblock = decide (arg &&& oNonblock ≠ 0) := by
  have tracked := run_tracked run
  exact ⟨dead_write_iff dead, dead_read_iff tracked dead, fcntl_iff w.tables fd⟩

theorem dead_start (notReserved : fd ∉ reserved) :
    Dead (start [] [] false) fd where
  notReserved := notReserved
  notEnd := List.not_mem_nil
  notTmpfs := onlyPipes_tmpfs ⟨[], [], false, rfl⟩ fd
  notVfs := onlyPipes_vfs ⟨[], [], false, rfl⟩ fd
  notDir := by
    intro used
    apply List.any_eq_false.mpr
    intro slot member
    rw [List.eq_of_mem_replicate member]
    exact fun test => used (of_decide_eq_true test).symm
  notSocket := onlyPipes_sockets ⟨[], [], false, rfl⟩ fd

theorem dead_number_closed_pipe :
    ∃ past w, Run step (start [] [] false) past w ∧ Dead w 200 ∧
      (w.tables.pipes.pipes.cells.map Pipe.contents).head? = some [7] ∧
      (sysWrite w.tables 200 [7]).2 = some (-9) := by
  obtain ⟨past, w, run, _, last⟩ := run_of_exec (fun _ _ => true) step (start [] [] false)
    [.pipe false, .write 201 [7], .close 200]
    (fun w => decide (200 ∉ reserved ∧ 200 ∉ w.ends ∧ w.tables.tmpfs.isTmpfsFd 200 = false ∧
      w.tables.vfs.isVfsFd 200 = false ∧ w.tables.vfs.isDirFd 200 = false ∧
      w.tables.sockets.isSocketFd 200 = false ∧
      (w.tables.pipes.pipes.cells.map Pipe.contents).head? = some [7] ∧
      ∀ p ∈ w.tables.pipes.pipes.cells, p.writeFd ≠ 200)) (by decide +kernel)
  obtain ⟨notReserved, notEnd, notTmpfs, notVfs, notDir, notSocket, bytes, apart⟩ :=
    of_decide_eq_true last
  have dead : Dead w 200 := ⟨notReserved, notEnd, notTmpfs, notVfs, fun _ => notDir, notSocket⟩
  exact ⟨past, w, run, dead, bytes, (((dead_number_iff run dead).1 [7]).mpr apart).1⟩

/-- In a kernel that has made no pipe, -1 is written to, read from and set to non-blocking. -/
theorem minus_one_reaches_free_slot :
    Dead (start [] [] false) (-1) ∧
      (sysWrite (start [] [] false).tables (-1) [7]).2 = some 1 ∧
      (sysRead (sysWrite (start [] [] false).tables (-1) [7]).1 (-1) 1).2 = some (1, [7]) ∧
      (sysFcntl (start [] [] false).tables (-1) fSetfl 0x800).1.pipes.pipes.cells.map
          Pipe.nonblock =
        true :: List.replicate 15 false :=
  ⟨dead_start (by decide), by decide +kernel⟩

end TynKernel.Fd.PipeIo
