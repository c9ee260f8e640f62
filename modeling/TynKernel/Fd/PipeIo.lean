import TynKernel.Fd.Syscalls
import TynKernel.Pipes.Queue

/-!
Pipes as programs use them, by the numbers of their ends. pipe and socketpair hand out a pair
of numbers whether or not the table has a slot for the pipe.
-/
namespace TynKernel.Fd.PipeIo
open Numbers Pipes Rings Rows Runs

def fSetfl : Int := 4
def oNonblock : BitVec 64 := 0x800

/-- sys_write, with the answer of the console, of /dev/null, of a pipe and of a bad number; other
    objects do not touch the pipes. -/
def sysWrite (t : Tables) (fd : Int) (data : List UInt8) : Tables × Option Int :=
  match writeTarget t fd with
  | .pipe _ => ({ t with pipes := (t.pipes.write fd data).1 }, some (t.pipes.write fd data).2)
  | .console | .null => (t, some data.length)
  | .nothing code => (t, some code)
  | _ => (t, none)

def sysRead (t : Tables) (fd : Int) (count : Nat) : Tables × Option (Int × List UInt8) :=
  match readTarget t fd with
  | .pipe _ => ({ t with pipes := (t.pipes.read fd count).1 }, some (t.pipes.read fd count).2)
  | .nothing code => (t, some (code, []))
  | _ => (t, none)

def sysFcntl (t : Tables) (fd cmd : Int) (arg : BitVec 64) : Tables × Int :=
  if cmd = fSetfl then
    let nonblock : Bool := arg &&& oNonblock ≠ 0
    if t.pipes.isPipeFd fd then ({ t with pipes := t.pipes.setNonblock fd nonblock }, 0)
    else if t.sockets.isSocketFd fd then
      ({ t with sockets := t.sockets.setNonblock fd nonblock }, 0)
    else (t, 0)
  else (t, 0)

inductive Op where
  | pipe (null : Bool)
  | write (fd : Int) (data : List UInt8)
  | read (fd : Int) (count : Nat)
  | fcntl (fd cmd : Int) (arg : BitVec 64)
  | close (fd : Int)
  | other (tmpfs : Tmpfs.State) (vfs : Vfs.State) (sockets : Sockets.State)

/-- A pair of numbers that was returned, the slot in which a pipe was made for it, and the bytes
    that writes to the one number took and reads from the other gave since. -/
structure Grant where
  readFd : Int
  writeFd : Int
  slot : Option Nat
  accepted : List UInt8
  returned : List UInt8

/-- The tables, and what is not part of the kernel: the pairs whose read number was not closed
    since, and the numbers of ends that were handed out and not closed since. -/
structure World where
  tables : Tables
  grants : List Grant
  ends : List Int

def start (archive resolvConf : List UInt8) (network : Bool) : World :=
  ⟨boot archive resolvConf network, [], []⟩

def Grant.wrote (fd : Int) (bytes : List UInt8) (g : Grant) : Grant :=
  if g.writeFd = fd then { g with accepted := g.accepted ++ bytes } else g

def Grant.gave (fd : Int) (bytes : List UInt8) (g : Grant) : Grant :=
  if g.readFd = fd then { g with returned := g.returned ++ bytes } else g

def step (w : World) : Op → Option World
  | .pipe null =>
    match sysPipe w.tables null with
    | (tables, _, some (readFd, writeFd)) =>
      some ⟨tables, ⟨readFd, writeFd, w.tables.pipes.freeSlot, [], []⟩ :: w.grants,
        readFd :: writeFd :: w.ends⟩
    | (tables, _, none) => some { w with tables := tables }
  | .write fd data =>
    let wrote := sysWrite w.tables fd data
    some { w with
      tables := wrote.1
      grants := w.grants.map (Grant.wrote fd (data.take (wrote.2.getD 0).toNat)) }
  | .read fd count =>
    let gave := sysRead w.tables fd count
    some { w with
      tables := gave.1
      grants := w.grants.map (Grant.gave fd ((gave.2.map Prod.snd).getD [])) }
  | .fcntl fd cmd arg => some { w with tables := (sysFcntl w.tables fd cmd arg).1 }
  | .close fd =>
    some ⟨sysClose w.tables fd, w.grants.filter fun g => g.readFd ≠ fd,
      w.ends.filter fun number => number ≠ fd⟩
  | .other tmpfs vfs sockets =>
    some { w with tables := { w.tables with tmpfs := tmpfs, vfs := vfs, sockets := sockets } }

def Op.Listed : Op → Prop
  | .fcntl _ _ _ | .other _ _ _ => False
  | _ => True

/-- Both numbers lead to the pipe that was made for them; what was written and not yet read is
    there to be read, in order, and a write is taken as far as there is room. -/
def Works (t : Tables) (g : Grant) : Prop :=
  ∃ i rest, g.slot = some i ∧ readTarget t g.readFd = .pipe i ∧ writeTarget t g.writeFd = .pipe i ∧
    g.accepted = g.returned ++ rest ∧ rest.length ≤ 4095 ∧
    (∀ count, rest ≠ [] → (sysRead t g.readFd count).2 =
      some (((min count rest.length : Nat) : Int), rest.take count)) ∧
    ∀ data, (sysWrite t g.writeFd data).2 =
      some ((min data.length (4095 - rest.length) : Nat) : Int)

def Room (t : Tables) : Prop :=
  t.pipes.freeSlot ≠ none ∧ asI32 t.pipes.nextPipeFd ≠ 0 ∧
    asI32 (t.pipes.nextPipeFd + 1) ∉ [1, 2, fdDevnull] ∧
    ∀ (j : Nat) (p : Pipe), t.pipes.pipes.cells[j]? = some p → p.readFd ≠ -1 →
      p.readFd ≠ asI32 t.pipes.nextPipeFd ∧ p.writeFd ≠ asI32 (t.pipes.nextPipeFd + 1)

def Starved (w : World) : Op → Prop
  | .pipe false => ¬ Room w.tables
  | _ => False

def OnlyPipes (t : Tables) : Prop :=
  ∃ archive resolvConf network, t = { boot archive resolvConf network with pipes := t.pipes }

variable {pipes s : Pipes.State} {j next : Nat} {q old : Pipe} {op : Op}

section
variable {t : Tables} {fd : Int} {i : Nat}

theorem onlyPipes_tmpfs (only : OnlyPipes t) (fd : Int) : t.tmpfs.isTmpfsFd fd = false := by
  obtain ⟨archive, resolvConf, network, eq⟩ := only
  rw [eq]
  unfold Tmpfs.State.isTmpfsFd
  split
  · rfl
  · rfl

theorem onlyPipes_vfs (only : OnlyPipes t) (fd : Int) : t.vfs.isVfsFd fd = false := by
  obtain ⟨archive, resolvConf, network, eq⟩ := only
  rw [eq]
  apply List.any_eq_false.mpr
  intro slot member
  rw [List.eq_of_mem_replicate member]
  exact Bool.false_ne_true

theorem onlyPipes_sockets (only : OnlyPipes t) (fd : Int) : t.sockets.isSocketFd fd = false := by
  obtain ⟨archive, resolvConf, network, eq⟩ := only
  rw [eq]
  rfl

theorem onlyPipes_with (only : OnlyPipes t) (pipes : Pipes.State) :
    OnlyPipes { t with pipes := pipes } := by
  obtain ⟨archive, resolvConf, network, eq⟩ := only
  refine ⟨archive, resolvConf, network, ?_⟩
  rw [eq]

theorem vfs_close_initial (archive : List UInt8) (fd : Int) :
    (Vfs.initial archive).close fd = Vfs.initial archive := by
  unfold Vfs.State.close
  split
  · rename_i i found
    obtain ⟨slot, get, test, _⟩ := findIdx_iff.mp found
    rw [List.eq_of_mem_replicate (List.mem_of_getElem? get)] at test
    cases test
  · rfl

theorem vfs_closeDir_initial (archive : List UInt8) (fd : Int) :
    (Vfs.initial archive).closeDir fd = Vfs.initial archive := by
  unfold Vfs.State.closeDir
  split
  · rename_i i found
    have same : (Vfs.initial archive).dirSlots.set i Vfs.emptySlot =
        (Vfs.initial archive).dirSlots := by
      simp [Vfs.initial, Row.set, Row.replicate]
    rw [same]
  · rfl

theorem onlyPipes_close (only : OnlyPipes t) (fd : Int) : OnlyPipes (sysClose t fd) := by
  obtain ⟨archive, resolvConf, network, eq⟩ := only
  have tmpfs : Tmpfs.initial.close fd = Tmpfs.initial := by
    unfold Tmpfs.State.close
    split
    · rfl
    · rfl
  have vfs : ((Vfs.initial archive).close fd).closeDir fd = Vfs.initial archive := by
    rw [vfs_close_initial, vfs_closeDir_initial]
  have sockets : (Sockets.initial network).close fd = Sockets.initial network := rfl
  refine ⟨archive, resolvConf, network, ?_⟩
  rw [eq]
  simp [sysClose, boot, tmpfs, vfs, sockets]

theorem readTarget_spec (t : Tables) (fd : Int) :
    match readTarget t fd with
    | .pipe i => t.pipes.readSlot fd = some i
    | .nothing code => code ≤ 0
    | _ => True := by
  have bad : (-9 : Int) ≤ 0 := by decide
  unfold readTarget
  by_cases input : fd = 0
  · rw [if_pos input]
    trivial
  rw [if_neg input]
  by_cases tmpfs : t.tmpfs.isTmpfsFd fd = true
  · rw [if_pos tmpfs]
    cases t.tmpfs.descriptor fd with
    | none => exact bad
    | some => trivial
  rw [if_neg tmpfs]
  by_cases vfs : t.vfs.isVfsFd fd = true
  · rw [if_pos vfs]
    cases t.vfs.file fd with
    | none => exact bad
    | some => trivial
  rw [if_neg vfs]
  by_cases pipe : t.pipes.isPipeFd fd = true
  · rw [if_pos pipe]
    cases t.pipes.readSlot fd with
    | none => exact bad
    | some => rfl
  split_ifs
  all_goals trivial

theorem writeTarget_spec (t : Tables) (fd : Int) :
    match writeTarget t fd with
    | .pipe i => t.pipes.writeSlot fd = some i
    | .console | .null => fd ∈ [1, 2, fdDevnull]
    | .nothing code => code = -9
    | _ => True := by
  unfold writeTarget
  by_cases tmpfs : t.tmpfs.isTmpfsFd fd = true
  · rw [if_pos tmpfs]
    cases t.tmpfs.descriptor fd with
    | none => rfl
    | some => trivial
  rw [if_neg tmpfs]
  by_cases output : fd = 1 ∨ fd = 2
  · rw [if_pos output]
    simp only [List.mem_cons]
    exact output.elim .inl fun two => .inr (.inl two)
  rw [if_neg output]
  by_cases null : fd = fdDevnull
  · rw [if_pos null]
    simp only [List.mem_cons]
    exact .inr (.inr (.inl null))
  rw [if_neg null]
  by_cases pipe : t.pipes.isPipeFd fd = true
  · rw [if_pos pipe]
    cases t.pipes.writeSlot fd with
    | none | some slot => rfl
  rw [if_neg pipe]
  by_cases socket : t.sockets.isSocketFd fd = true
  · rw [if_pos socket]
    trivial
  · rw [if_neg socket]

theorem readTarget_input (target : readTarget t fd = .pipe i) : fd ≠ 0 := by
  intro input
  rw [readTarget, if_pos input] at target
  cases target

theorem writeTarget_output (target : writeTarget t fd = .pipe i)
    (tmpfs : t.tmpfs.isTmpfsFd fd = false) : fd ∉ [1, 2, fdDevnull] := by
  intro output
  rw [writeTarget, if_neg (by rw [tmpfs]; exact Bool.false_ne_true)] at target
  by_cases console : fd = 1 ∨ fd = 2
  · rw [if_pos console] at target
    cases target
  · simp only [List.mem_cons, List.not_mem_nil, or_false, ← or_assoc] at output
    rw [if_neg console, if_pos (output.resolve_left console)] at target
    cases target

theorem readTarget_pipe (input : fd ≠ 0) (tmpfs : t.tmpfs.isTmpfsFd fd = false)
    (vfs : t.vfs.isVfsFd fd = false) (found : t.pipes.readSlot fd = some i) :
    readTarget t fd = .pipe i := by
  simp [readTarget, if_neg input, tmpfs, vfs, readSlot_isPipeFd found, found]

theorem writeTarget_pipe (output : fd ∉ [1, 2, fdDevnull]) (tmpfs : t.tmpfs.isTmpfsFd fd = false)
    (found : t.pipes.writeSlot fd = some i) : writeTarget t fd = .pipe i := by
  simp only [List.mem_cons, List.not_mem_nil, or_false, not_or] at output
  obtain ⟨one, two, null⟩ := output
  simp [writeTarget, tmpfs, one, two, null, or_self, writeSlot_isPipeFd found, found]

end

/-- The pair has a slot of its own, both numbers are found there first, and the ring holds what
    was written and not yet read. -/
structure Backing (pipes : Pipes.State) (g : Grant) (i : Nat) (p : Pipe) : Prop where
  slot : g.slot = some i
  here : pipes.pipes.cells[i]? = some p
  reads : p.readFd = g.readFd
  writes : p.writeFd = g.writeFd
  used : g.readFd ≠ -1
  input : g.readFd ≠ 0
  output : g.writeFd ∉ [1, 2, fdDevnull]
  readSlot : pipes.readSlot g.readFd = some i
  writeSlot : pipes.writeSlot g.writeFd = some i
  queue : g.returned ++ p.contents = g.accepted

structure Backed (w : World) : Prop where
  only : OnlyPipes w.tables
  sound : AllSound w.tables.pipes
  even : w.tables.pipes.nextPipeFd % 2 = 0
  backed : ∀ g ∈ w.grants, ∃ i p, Backing w.tables.pipes g i p
  owned : ∀ (j : Nat) (p : Pipe), w.tables.pipes.pipes.cells[j]? = some p → p.readFd ≠ -1 →
    ∃ g ∈ w.grants, g.slot = some j ∧ g.readFd = p.readFd ∧ g.writeFd = p.writeFd

theorem backed_start (archive resolvConf : List UInt8) (network : Bool) :
    Backed (start archive resolvConf network) := by
  constructor
  · exact ⟨archive, resolvConf, network, rfl⟩
  · exact sound_initial
  · exact (by decide : 200 % 2 = 0)
  · intro g member
    cases member
  · intro j p here alive
    have empty_ : p = empty := List.eq_of_mem_replicate (List.mem_of_getElem? here)
    exact absurd (by rw [empty_]; rfl) alive

section
variable {w : World} {g : Grant} {i : Nat} {p : Pipe}

theorem backing_works (backed : Backed w) (backing : Backing w.tables.pipes g i p) :
    Works w.tables g := by
  have sound := backed.sound i p backing.here
  have reads := readTarget_pipe backing.input (onlyPipes_tmpfs backed.only _)
    (onlyPipes_vfs backed.only _) backing.readSlot
  have writes := writeTarget_pipe backing.output (onlyPipes_tmpfs backed.only _) backing.writeSlot
  have room : p.room = 4095 - p.contents.length := by
    rw [contents_length]
    rfl
  refine ⟨i, p.contents, backing.slot, reads, writes, backing.queue.symm, ?_, ?_, ?_⟩
  · have less : p.used < pipeBufSize := used_lt sound.head sound.tail
    rw [contents_length]
    exact Nat.le_of_lt_succ less
  · intro count some_
    have answer := read_full backing.here backing.readSlot sound some_ count
    simp [sysRead, reads, answer]
  · intro data
    have answer := write_own backing.here backing.writeSlot data
    simp [sysWrite, writes, answer, (write_wrote sound data).written, room]

theorem backing_new_other (other : j ≠ i) (backing : Backing pipes g i p)
    (reads : q.readFd ≠ g.readFd) (writes : q.writeFd ≠ g.writeFd) :
    Backing ⟨next, pipes.pipes.set j q⟩ g i p :=
  { backing with
    here := (List.getElem?_set_ne other).trans backing.here
    readSlot := findIdx_write_other backing.readSlot other (decide_eq_false reads)
    writeSlot := findIdx_write_other backing.writeSlot other (decide_eq_false writes) }

theorem backing_put_other (other : j ≠ i) (get : pipes.pipes.cells[j]? = some old)
    (reads : q.readFd = old.readFd) (writes : q.writeFd = old.writeFd)
    (backing : Backing pipes g i p) :
    Backing (pipes.put j q) g i p :=
  { backing with
    here := (put_other other q).trans backing.here
    readSlot := (put_readSlot get reads _).trans backing.readSlot
    writeSlot := (put_writeSlot get writes _).trans backing.writeSlot }

theorem backing_put_own {accepted returned : List UInt8} (reads : q.readFd = p.readFd)
    (writes : q.writeFd = p.writeFd) (backing : Backing pipes g i p)
    (queue : returned ++ q.contents = accepted) :
    Backing (pipes.put i q) { g with accepted := accepted, returned := returned } i q :=
  { backing with
    here := put_own backing.here q
    reads := reads.trans backing.reads
    writes := writes.trans backing.writes
    readSlot := (put_readSlot backing.here reads _).trans backing.readSlot
    writeSlot := (put_writeSlot backing.here writes _).trans backing.writeSlot
    queue := queue }

theorem backing_close (other : g.readFd ≠ fd) (backing : Backing pipes g i p) :
    Backing (pipes.close fd) g i p :=
  { backing with
    here := by rw [close_slot backing.here, if_neg (backing.reads ▸ other)]
    readSlot := (close_readSlot other backing.used).trans backing.readSlot
    writeSlot := (close_writeSlot fd _).trans backing.writeSlot }

theorem readFd_used {n : Nat} (even : n % 2 = 0) : asI32 n ≠ -1 := by
  unfold asI32
  intro same
  have := Int.bmod_emod (x := (n : Int)) (m := 2 ^ 32)
  omega

theorem backing_new {pipes : Pipes.State} {next : Nat} {readFd writeFd : Int}
    (free : pipes.freeSlot = some i) (used : readFd ≠ -1) (input : readFd ≠ 0)
    (output : writeFd ∉ [1, 2, fdDevnull])
    (fresh : ∀ (j : Nat) (p : Pipe), pipes.pipes.cells[j]? = some p → p.readFd ≠ -1 →
      p.readFd ≠ readFd ∧ p.writeFd ≠ writeFd) :
    Backing ⟨next, pipes.pipes.set i { empty with readFd := readFd, writeFd := writeFd }⟩
      ⟨readFd, writeFd, some i, [], []⟩ i { empty with readFd := readFd, writeFd := writeFd } := by
  obtain ⟨old, get, _, earlier⟩ := findIdx_iff.mp free
  have before : ∀ (j : Nat) (p : Pipe), j < i → pipes.pipes.cells[j]? = some p →
      p.readFd ≠ readFd ∧ p.writeFd ≠ writeFd := by
    intro j p less here
    exact fresh j p here (of_decide_eq_false (earlier j p less here))
  constructor
  · rfl
  · exact List.getElem?_set_self (List.getElem?_eq_some_iff.mp get).1
  · rfl
  · rfl
  · exact used
  · exact input
  · exact output
  · apply findIdx_write_here get (decide_eq_true rfl)
    intro j p less here
    exact decide_eq_false (before j p less here).1
  · apply findIdx_write_here get (decide_eq_true rfl)
    intro j p less here
    exact decide_eq_false (before j p less here).2
  · rw [List.nil_append]
    exact contents_new readFd writeFd

end

theorem sysWrite_spec (t : Tables) (fd : Int) (data : List UInt8) :
    (∃ i, t.pipes.writeSlot fd = some i ∧ sysWrite t fd data =
        ({ t with pipes := (t.pipes.write fd data).1 }, some (t.pipes.write fd data).2)) ∨
      ((sysWrite t fd data).1 = t ∧
        (fd ∈ [1, 2, fdDevnull] ∨ data.take ((sysWrite t fd data).2.getD 0).toNat = [])) := by
  have spec := writeTarget_spec t fd
  unfold sysWrite
  cases target : writeTarget t fd with
  | pipe i =>
    rw [target] at spec
    exact .inl ⟨i, spec, rfl⟩
  | console | null =>
    rw [target] at spec
    exact .inr ⟨rfl, .inl spec⟩
  | nothing =>
    rw [target] at spec
    subst spec
    exact .inr ⟨rfl, .inr rfl⟩
  | stdin | random | resolvConf | zero | timer | tmpfs path | file place | socket fd =>
    exact .inr ⟨rfl, .inr rfl⟩

theorem sysRead_spec (t : Tables) (fd : Int) (count : Nat) :
    (∃ i, t.pipes.readSlot fd = some i ∧ sysRead t fd count =
        ({ t with pipes := (t.pipes.read fd count).1 }, some (t.pipes.read fd count).2)) ∨
      ((sysRead t fd count).1 = t ∧ ((sysRead t fd count).2.map Prod.snd).getD [] = []) := by
  have spec := readTarget_spec t fd
  unfold sysRead
  cases target : readTarget t fd with
  | pipe i =>
    rw [target] at spec
    exact .inl ⟨i, spec, rfl⟩
  | stdin | console | null | random | resolvConf | zero | timer | tmpfs path | file place
  | socket fd | nothing code => exact .inr ⟨rfl, rfl⟩

theorem readSlot_get (found : s.readSlot fd = some i) : ∃ p, s.pipes.cells[i]? = some p := by
  obtain ⟨p, get, _⟩ := findIdx_iff.mp found
  exact ⟨p, get⟩

theorem writeSlot_get (found : s.writeSlot fd = some i) : ∃ p, s.pipes.cells[i]? = some p := by
  obtain ⟨p, get, _⟩ := findIdx_iff.mp found
  exact ⟨p, get⟩

section
variable {w w' : World}

theorem pipe_backed (backed : Backed w) (room : Room w.tables)
    (taken : step w (.pipe false) = some w') : Backed w' := by
  obtain ⟨free, input, output, fresh⟩ := room
  obtain ⟨i, free⟩ := Option.ne_none_iff_exists'.mp free
  have made := create_some free
  simp only [step, sysPipe, Bool.false_eq_true, if_false, made] at taken
  obtain rfl := Option.some.inj taken
  have used := readFd_used backed.even
  constructor
  · exact onlyPipes_with backed.only _
  · have sound := create_sound backed.sound
    rw [made] at sound
    exact sound
  · have even := backed.even
    simp only
    omega
  · intro g member
    rcases List.mem_cons.mp member with new | old
    · subst new
      rw [free]
      exact ⟨i, _, backing_new free used input output fresh⟩
    obtain ⟨k, p, backing⟩ := backed.backed g old
    have alive : p.readFd ≠ -1 := backing.reads ▸ backing.used
    have other : i ≠ k := by
      intro same
      subst same
      exact alive (freeSlot_closed backing.here free)
    obtain ⟨reads, writes⟩ := fresh k p backing.here alive
    refine ⟨k, p, backing_new_other other backing ?_ ?_⟩
    · simp only [← backing.reads]
      exact reads.symm
    · simp only [← backing.writes]
      exact writes.symm
  · intro j p here alive
    simp only [Row.set, List.getElem?_set] at here
    split at here
    · rename_i same
      subst same
      split at here
      · cases here
        exact ⟨_, List.mem_cons_self, free, rfl, rfl⟩
      · cases here
    · obtain ⟨g, member, facts⟩ := backed.owned j p here alive
      exact ⟨g, List.mem_cons_of_mem _ member, facts⟩

theorem put_backed {j : Nat} {old q : Pipe} {update : Grant → Grant} (backed : Backed w)
    (get : w.tables.pipes.pipes.cells[j]? = some old) (sound : Sound q)
    (reads : q.readFd = old.readFd) (writes : q.writeFd = old.writeFd)
    (numbers : ∀ g, (update g).slot = g.slot ∧ (update g).readFd = g.readFd ∧
      (update g).writeFd = g.writeFd)
    (own : ∀ g ∈ w.grants, Backing w.tables.pipes g j old →
      Backing (w.tables.pipes.put j q) (update g) j q)
    (others : ∀ g ∈ w.grants, ∀ i p, i ≠ j → Backing w.tables.pipes g i p → update g = g) :
    Backed { w with
      tables := { w.tables with pipes := w.tables.pipes.put j q }
      grants := w.grants.map update } := by
  constructor
  · exact onlyPipes_with backed.only _
  · exact put_sound backed.sound j sound
  · exact backed.even
  · intro g member
    obtain ⟨g, inside, rfl⟩ := List.mem_map.mp member
    obtain ⟨i, p, backing⟩ := backed.backed g inside
    by_cases same : i = j
    · subst same
      have here := backing.here
      rw [get, Option.some.injEq] at here
      subst here
      exact ⟨i, q, own g inside backing⟩
    · rw [others g inside i p same backing]
      exact ⟨i, p, backing_put_other (Ne.symm same) get reads writes backing⟩
  · intro i p here alive
    have before : ∃ p', w.tables.pipes.pipes.cells[i]? = some p' ∧ p'.readFd = p.readFd ∧
        p'.writeFd = p.writeFd := by
      by_cases same : i = j
      · subst same
        have now := put_own get q
        rw [here, Option.some.injEq] at now
        subst now
        exact ⟨old, get, reads.symm, writes.symm⟩
      · exact ⟨p, (put_other (Ne.symm same) q).symm.trans here, rfl, rfl⟩
    obtain ⟨p', get', readSame, writeSame⟩ := before
    obtain ⟨g, member, slot, r, wr⟩ := backed.owned i p' get' (readSame ▸ alive)
    obtain ⟨slotSame, rSame, wSame⟩ := numbers g
    exact ⟨update g, List.mem_map_of_mem member, slotSame.trans slot,
      rSame.trans (r.trans readSame), wSame.trans (wr.trans writeSame)⟩

theorem wrote_numbers (fd : Int) (bytes : List UInt8) (g : Grant) :
    (g.wrote fd bytes).slot = g.slot ∧ (g.wrote fd bytes).readFd = g.readFd ∧
      (g.wrote fd bytes).writeFd = g.writeFd := by
  unfold Grant.wrote
  split
  · exact ⟨rfl, rfl, rfl⟩
  · exact ⟨rfl, rfl, rfl⟩

theorem gave_numbers (fd : Int) (bytes : List UInt8) (g : Grant) :
    (g.gave fd bytes).slot = g.slot ∧ (g.gave fd bytes).readFd = g.readFd ∧
      (g.gave fd bytes).writeFd = g.writeFd := by
  unfold Grant.gave
  split
  · exact ⟨rfl, rfl, rfl⟩
  · exact ⟨rfl, rfl, rfl⟩

theorem map_wrote_id {fd : Int} {bytes : List UInt8} {grants : List Grant}
    (none_ : ∀ g ∈ grants, g.writeFd = fd → bytes = []) :
    grants.map (Grant.wrote fd bytes) = grants := by
  induction grants with
  | nil => rfl
  | cons g rest ih =>
    have head : g.wrote fd bytes = g := by
      unfold Grant.wrote
      split
      · rename_i own
        rw [none_ g List.mem_cons_self own, List.append_nil]
      · rfl
    rw [List.map_cons, head, ih fun x hx => none_ x (List.mem_cons_of_mem _ hx)]

theorem map_gave_nil (fd : Int) (grants : List Grant) : grants.map (Grant.gave fd []) = grants := by
  induction grants with
  | nil => rfl
  | cons g rest ih =>
    have head : g.gave fd [] = g := by
      unfold Grant.gave
      split
      · rw [List.append_nil]
      · rfl
    rw [List.map_cons, head, ih]

theorem write_backed {fd : Int} (backed : Backed w)
    (taken : step w (.write fd data) = some w') : Backed w' := by
  simp only [step] at taken
  rcases sysWrite_spec w.tables fd data with ⟨j, found, reply⟩ | ⟨same, elsewhere⟩
  · obtain ⟨p, get⟩ := writeSlot_get found
    have wrote := write_wrote (backed.sound j p get) data
    rw [reply, write_own get found data] at taken
    obtain rfl := Option.some.inj taken
    refine put_backed backed get wrote.sound wrote.readFd wrote.writeFd (wrote_numbers fd _) ?_ ?_
    · intro g _ backing
      have number : g.writeFd = fd := backing.writes.symm.trans (number_of_writeSlot get found)
      rw [Grant.wrote, if_pos number]
      apply backing_put_own wrote.readFd wrote.writeFd backing
      simp only [Option.getD_some, Int.toNat_natCast]
      rw [wrote.contents, ← List.append_assoc, backing.queue]
    · intro g _ i q other backing
      have missed : g.writeFd ≠ fd := by
        intro number
        have slot := backing.writeSlot
        rw [number, found, Option.some.injEq] at slot
        exact other slot.symm
      rw [Grant.wrote, if_neg missed]
  · obtain rfl := Option.some.inj taken
    rw [same, map_wrote_id]
    · exact backed
    · intro g member number
      obtain ⟨i, p, backing⟩ := backed.backed g member
      exact elsewhere.resolve_left fun output => backing.output (number ▸ output)

theorem read_backed (backed : Backed w) (taken : step w (.read fd count) = some w') :
    Backed w' := by
  simp only [step] at taken
  rcases sysRead_spec w.tables fd count with ⟨j, found, reply⟩ | ⟨same, none_⟩
  · obtain ⟨p, get⟩ := readSlot_get found
    have took := read_took (backed.sound j p get) count
    obtain ⟨put, bytes, _⟩ := read_own get found count
    have numbers := read_numbers p count
    rw [reply] at taken
    obtain rfl := Option.some.inj taken
    simp only [Option.map_some, Option.getD_some, bytes, put]
    refine put_backed backed get took.sound numbers.1 numbers.2 (gave_numbers fd _) ?_ ?_
    · intro g _ backing
      have number : g.readFd = fd := backing.reads.symm.trans (number_of_readSlot get found)
      rw [Grant.gave, if_pos number]
      apply backing_put_own numbers.1 numbers.2 backing
      rw [took.bytes, took.contents, List.append_assoc, List.take_append_drop, backing.queue]
    · intro g _ i q other backing
      have missed : g.readFd ≠ fd := by
        intro number
        have slot := backing.readSlot
        rw [number, found, Option.some.injEq] at slot
        exact other slot.symm
      rw [Grant.gave, if_neg missed]
  · obtain rfl := Option.some.inj taken
    rw [same, none_, map_gave_nil]
    exact backed

theorem close_backed (backed : Backed w) (taken : step w (.close fd) = some w') : Backed w' := by
  obtain rfl := Option.some.inj taken
  constructor
  · exact onlyPipes_close backed.only fd
  · exact close_sound backed.sound fd
  · exact backed.even
  · intro g member
    obtain ⟨inside, kept⟩ := List.mem_filter.mp member
    obtain ⟨i, p, backing⟩ := backed.backed g inside
    exact ⟨i, p, backing_close (of_decide_eq_true kept) backing⟩
  · intro j p here alive
    have length : j < w.tables.pipes.pipes.cells.length := by
      rw [w.tables.pipes.pipes.size, ← (w.tables.pipes.close fd).pipes.size]
      exact (List.getElem?_eq_some_iff.mp here).1
    obtain ⟨same, other⟩ := close_alive (List.getElem?_eq_getElem length) here alive
    obtain ⟨g, member, slot, reads, writes⟩ :=
      backed.owned j _ ((List.getElem?_eq_getElem length).trans (congrArg some same)) alive
    refine ⟨g, List.mem_filter.mpr ⟨member, decide_eq_true ?_⟩, slot, reads, writes⟩
    rw [reads]
    exact other

theorem step_backed (backed : Backed w) (listed : op.Listed) (fed : ¬ Starved w op)
    (taken : step w op = some w') : Backed w' := by
  cases op with
  | pipe null =>
    cases null with
    | true =>
      obtain rfl := Option.some.inj taken
      exact backed
    | false => exact pipe_backed backed (Classical.not_not.mp fed) taken
  | write => exact write_backed backed taken
  | read => exact read_backed backed taken
  | close => exact close_backed backed taken
  | fcntl fd cmd arg | other tmpfs vfs sockets => exact listed.elim

theorem step_starved (backed : Backed w) (starved : Starved w op) (taken : step w op = some w') :
    ¬ ∀ g ∈ w'.grants, Works w'.tables g := by
  cases op with
  | write | read | close | fcntl | other => exact starved.elim
  | pipe null =>
    cases null with
    | true => exact starved.elim
    | false =>
      intro all
      apply starved
      simp only [step, sysPipe, Bool.false_eq_true, if_false, Option.some.injEq] at taken
      obtain rfl := taken
      obtain ⟨i, _, free, reads, writes, _⟩ := all _ List.mem_cons_self
      simp only [create_numbers] at free reads writes
      have input := readTarget_input reads
      have output := writeTarget_output writes (onlyPipes_tmpfs backed.only _)
      have some_ : w.tables.pipes.freeSlot ≠ none := by
        rw [free]
        exact Option.some_ne_none i
      refine ⟨some_, input, output, ?_⟩
      intro j p here alive
      have other : i ≠ j := by
        intro same
        subst same
        exact alive (freeSlot_closed here free)
      obtain ⟨g, member, slot, r, wr⟩ := backed.owned j p here alive
      obtain ⟨k, _, slot', reads', writes', _⟩ := all g (List.mem_cons_of_mem _ member)
      rw [slot, Option.some.injEq] at slot'
      subst slot'
      constructor
      · intro same
        rw [r, same, reads] at reads'
        exact other (Target.pipe.inj reads')
      · intro same
        rw [wr, same, writes] at writes'
        exact other (Target.pipe.inj writes')

end

/-- Every granted pair leads to the pipe that was made for it, with the bytes written to it in
    order, and pipe reports an error when there is none to give, exactly as long as every call of
    pipe finds a free slot and numbers that mean nothing else. No call of pipe touches a slot
    whose read end is open. -/
theorem granted_pipe_works_iff {archive resolvConf : List UInt8} {network : Bool}
    {past : List (World × Op)} {w : World}
    (run : Run step (start archive resolvConf network) past w)
    (listed : ∀ e ∈ past, e.2.Listed) :
    (Throughout (fun w => ∀ g ∈ w.grants, Works w.tables g) past w ∧
      (∀ e ∈ past, e.2 = .pipe false → e.1.tables.pipes.freeSlot = none →
        (sysPipe e.1.tables false).2.1 < 0) ∧
      ∀ e ∈ past, ∀ null (j : Nat) (p : Pipe), e.2 = .pipe null →
        e.1.tables.pipes.pipes.cells[j]? = some p → p.readFd ≠ -1 →
        (sysPipe e.1.tables null).1.pipes.pipes.cells[j]? = some p) ↔
      ∀ e ∈ past, e.2 = .pipe false → Room e.1.tables := by
  have first := throughout_iff_first (fun _ op => op.Listed) Backed
    (fun w => ∀ g ∈ w.grants, Works w.tables g) Starved (backed_start archive resolvConf network)
    (by
      intro w backed g member
      obtain ⟨i, p, backing⟩ := backed.backed g member
      exact backing_works backed backing)
    (fun _ _ _ backed listed fed taken => step_backed backed listed fed taken)
    (fun _ _ _ backed _ starved taken => step_starved backed starved taken) run listed
  have fed : (∀ e ∈ past, ¬ Starved e.1 e.2) ↔
      ∀ e ∈ past, e.2 = .pipe false → Room e.1.tables := by
    constructor
    · intro quiet e member eq
      have := quiet e member
      rw [eq] at this
      exact Classical.not_not.mp this
    · intro room e member starved
      cases act : e.2 with
      | pipe null =>
        rw [act] at starved
        cases null with
        | true => exact starved
        | false => exact starved (room e member act)
      | write | read | close | fcntl | other =>
        rw [act] at starved
        exact starved
  rw [← fed]
  constructor
  · intro held
    exact first.mp held.1
  intro quiet
  refine ⟨first.mpr quiet, ?_, ?_⟩
  · intro e member eq full
    exact absurd full ((fed.mp quiet) e member eq).1
  intro e member null j p eq here alive
  cases null with
  | true => exact here
  | false =>
    exact (create_elsewhere fun free => alive (freeSlot_closed here free)).trans here

def hasRoom (t : Tables) : Bool :=
  t.pipes.freeSlot.isSome && (asI32 t.pipes.nextPipeFd ≠ 0 &&
    (asI32 (t.pipes.nextPipeFd + 1) ∉ [1, 2, fdDevnull] && t.pipes.pipes.cells.all fun p =>
      p.readFd = -1 || (p.readFd ≠ asI32 t.pipes.nextPipeFd &&
        p.writeFd ≠ asI32 (t.pipes.nextPipeFd + 1))))

theorem hasRoom_room (test : hasRoom t = true) : Room t := by
  simp only [hasRoom, Bool.and_eq_true, Bool.or_eq_true, decide_eq_true_eq, List.all_eq_true,
    Option.isSome_iff_ne_none] at test
  refine ⟨test.1, test.2.1, test.2.2.1, fun j p here alive => ?_⟩
  exact (test.2.2.2 p (List.mem_of_getElem? here)).resolve_left alive

def Op.isListed : Op → Bool
  | .fcntl .. | .other .. => false
  | _ => true

theorem isListed_listed (test : op.isListed = true) : op.Listed := by
  cases op with
  | fcntl | other => cases test
  | _ => trivial

theorem granted_pipe_in_use :
    ∃ past w g, Run step (start [] [] false) past w ∧ g ∈ w.grants ∧ g.readFd = 200 ∧
      g.accepted = [7, 8, 9] ∧ g.returned = [7] ∧ w.grants.length = 2 ∧ Works w.tables g := by
  obtain ⟨past, w, run, tested, last⟩ := run_of_exec (fun w op => op.isListed && hasRoom w.tables)
    step (start [] [] false) [.pipe false, .write 201 [7, 8, 9], .read 200 1, .pipe false]
    (fun w => w.grants.length = 2 && w.grants.any fun g =>
      g.readFd = 200 && (g.accepted = [7, 8, 9] && g.returned = [7])) (by decide +kernel)
  simp only [Bool.and_eq_true, decide_eq_true_eq, List.any_eq_true] at last tested
  obtain ⟨both, g, member, number, accepted, returned⟩ := last
  have works := (granted_pipe_works_iff run fun e inside => isListed_listed (tested e inside).1).mpr
    fun e inside _ => hasRoom_room (tested e inside).2
  exact ⟨past, w, g, run, member, number, accepted, returned, both, works.1.1 g member⟩

/-- With sixteen pipes open the next call of pipe returns 0 and two numbers that reach nothing. -/
theorem pipe_granted_without_slot :
    ∃ past w, Run step (start [] [] false) past w ∧ (∀ e ∈ past, e.2.Listed) ∧
      w.tables.pipes.freeSlot = none ∧ (sysPipe w.tables false).2 = (0, some (232, 233)) ∧
      (sysWrite (sysPipe w.tables false).1 233 [7]).2 = some (-9) ∧
      (sysRead (sysPipe w.tables false).1 232 1).2 = some (0, []) := by
  obtain ⟨past, w, run, listed, last⟩ := run_of_exec
    (fun _ op => match op with | .pipe _ => true | _ => false) step (start [] [] false)
    (List.replicate 16 (.pipe false))
    (fun w => w.tables.pipes.freeSlot = none && (sysPipe w.tables false).2 = (0, some (232, 233)) &&
      (sysWrite (sysPipe w.tables false).1 233 [7]).2 = some (-9) &&
      (sysRead (sysPipe w.tables false).1 232 1).2 = some (0, [])) (by decide +kernel)
  simp only [Bool.and_eq_true, decide_eq_true_eq] at last
  refine ⟨past, w, run, ?_, last.1.1.1, last.1.1.2, last.1.2, last.2⟩
  intro e member
  have test := listed e member
  cases act : e.2 with
  | pipe => trivial
  | write | read | close | fcntl | other =>
    rw [act] at test
    cases test

end TynKernel.Fd.PipeIo
