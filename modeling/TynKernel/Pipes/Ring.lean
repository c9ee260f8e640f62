import TynKernel.Lib.Rings
import TynKernel.Lib.Streams
import TynKernel.Pipes.Ends

/-!
The bytes in a pipe. They stand in a ring that is never filled completely, and a write end is
a sink whose stream is what the pipe holds.
-/
namespace TynKernel.Pipes
open Numbers Rings Rows Runs Streams

/-- What the loop of write leaves: the pipe, how many bytes went into it, and how many were
    loaded from the buffer. -/
structure Written where
  pipe : Pipe
  written : Nat
  loaded : Nat
  deriving DecidableEq, Repr

namespace Pipe

def isEmpty (p : Pipe) : Bool := p.head = p.tail

def push (p : Pipe) (byte : UInt8) : Pipe :=
  { p with buf := p.buf.set p.tail byte, tail := (p.tail + 1) % pipeBufSize }

/-- The loop of write. A byte is loaded before the test for room. -/
def write (p : Pipe) : List UInt8 → Written
  | [] => ⟨p, 0, 0⟩
  | byte :: rest =>
    let nextTail := (p.tail + 1) % pipeBufSize
    if nextTail = p.head then ⟨p, 0, 1⟩
    else
      let w := write (p.push byte) rest
      ⟨w.pipe, w.written + 1, w.loaded + 1⟩

def read (p : Pipe) : (count : Nat) → Pipe × List UInt8
  | 0 => (p, [])
  | count + 1 =>
    if p.head = p.tail then (p, [])
    else
      let r := read { p with head := (p.head + 1) % pipeBufSize } count
      (r.1, p.buf.getD p.head default :: r.2)

end Pipe

namespace State

def at_ (s : State) (slot : Option Nat) : Option (Nat × Pipe) :=
  slot.bind fun i => (s.pipes.cells[i]?).map fun p => (i, p)

def put (s : State) (i : Nat) (p : Pipe) : State := { s with pipes := s.pipes.set i p }

def writer (s : State) (fd : Int) : Option (Nat × Pipe) := s.at_ (s.writeSlot fd)

def write (s : State) (fd : Int) (data : List UInt8) : State × Int :=
  match s.writer fd with
  | some (i, p) => (s.put i (p.write data).pipe, (p.write data).written)
  | none => (s, -9)

def loads (s : State) (fd : Int) (data : List UInt8) : Nat :=
  match s.writer fd with
  | some (_, p) => (p.write data).loaded
  | none => 0

def read (s : State) (fd : Int) (count : Nat) : State × Int × List UInt8 :=
  match s.at_ (s.readSlot fd) with
  | some (i, p) =>
    if !p.isEmpty then (s.put i (p.read count).1, (p.read count).2.length, (p.read count).2)
    else if p.writeFd = -1 then (s, 0, [])
    else if p.nonblock then (s, -11, [])
    else (s, -4, [])
  | none => (s, -9, [])

def hasData (s : State) (fd : Int) : Bool :=
  s.pipes.cells.any fun pipe => pipe.readFd = fd && !pipe.isEmpty

def setNonblock (s : State) (fd : Int) (nonblock : Bool) : State :=
  match s.at_ (s.pipes.cells.findIdx? fun p => p.readFd = fd || p.writeFd = fd) with
  | some (i, p) => s.put i { p with nonblock := nonblock }
  | none => s

end State

inductive Call where
  | create
  | write (fd : Int) (data : List UInt8)
  | read (fd : Int) (count : Nat)
  | setNonblock (fd : Int) (nonblock : Bool)
  | close (fd : Int)
  deriving DecidableEq, Repr

def step (s : State) : Call → Option State
  | .create => some s.create.1
  | .write fd data => some (s.write fd data).1
  | .read fd count => some (s.read fd count).1
  | .setNonblock fd nonblock => some (s.setNonblock fd nonblock)
  | .close fd => some (s.close fd)

structure Sound (p : Pipe) : Prop where
  cells : p.buf.length = pipeBufSize
  head : p.head < pipeBufSize
  tail : p.tail < pipeBufSize

variable {p : Pipe} {s : State} {i : Nat} {fd : Int}

theorem sound_empty (readFd writeFd : Int) :
    Sound { empty with readFd := readFd, writeFd := writeFd } :=
  ⟨List.length_replicate, Nat.zero_lt_succ _, Nat.zero_lt_succ _⟩

def Pipe.used (p : Pipe) : Nat := Rings.used pipeBufSize p.head p.tail

def Pipe.contents (p : Pipe) : List UInt8 := turn p.buf p.head p.used

def Pipe.room (p : Pipe) : Nat := pipeBufSize - 1 - p.used

theorem contents_length (p : Pipe) : p.contents.length = p.used := turn_length _ _ _

theorem push_sound (sound : Sound p) (byte : UInt8) : Sound (p.push byte) :=
  ⟨(List.length_set ..).trans sound.cells, sound.head, Nat.mod_lt _ (by decide)⟩

theorem contents_push (sound : Sound p) (room : (p.tail + 1) % pipeBufSize ≠ p.head)
    (byte : UInt8) : (p.push byte).contents = p.contents ++ [byte] := by
  have more : (p.push byte).used = p.used + 1 := used_push sound.head sound.tail room
  have place : (p.head + p.used) % p.buf.length = p.tail := by
    rw [sound.cells]
    exact tail_place sound.head sound.tail
  have part : p.used < p.buf.length := by
    rw [sound.cells]
    exact used_lt sound.head sound.tail
  rw [Pipe.contents, more, Pipe.push, ← place]
  exact turn_set part byte

theorem room_push (sound : Sound p) (room : (p.tail + 1) % pipeBufSize ≠ p.head) (byte : UInt8) :
    p.room = (p.push byte).room + 1 := by
  have more : (p.push byte).used = p.used + 1 := used_push sound.head sound.tail room
  have part := used_lt (push_sound sound byte).head (push_sound sound byte).tail
  change (p.push byte).used < pipeBufSize at part
  unfold Pipe.room
  omega

theorem room_full (sound : Sound p) (full : (p.tail + 1) % pipeBufSize = p.head) :
    p.room = 0 := by
  have last : p.used + 1 = pipeBufSize := (used_full sound.head sound.tail).mp full
  unfold Pipe.room
  omega

structure Wrote (p : Pipe) (data : List UInt8) (w : Written) : Prop where
  sound : Sound w.pipe
  written : w.written = min data.length p.room
  loaded : w.loaded = min data.length (p.room + 1)
  contents : w.pipe.contents = p.contents ++ data.take w.written
  readFd : w.pipe.readFd = p.readFd
  writeFd : w.pipe.writeFd = p.writeFd

theorem write_wrote (sound : Sound p) (data : List UInt8) :
    Wrote p data (p.write data) := by
  induction data generalizing p with
  | nil =>
    refine ⟨sound, (Nat.zero_min _).symm, (Nat.zero_min _).symm, ?_, rfl, rfl⟩
    exact (List.append_nil _).symm
  | cons byte rest ih =>
    simp only [Pipe.write]
    split
    · rename_i full
      have none_ := room_full sound full
      refine ⟨sound, ?_, ?_, (List.append_nil _).symm, rfl, rfl⟩
      · rw [none_, Nat.min_zero]
      · rw [none_, Nat.zero_add]
        exact (Nat.min_eq_right (Nat.succ_le_succ (Nat.zero_le _))).symm
    · rename_i room
      have more := room_push sound room byte
      obtain ⟨sound', written, loaded, contents, readFd, writeFd⟩ := ih (push_sound sound byte)
      refine ⟨sound', ?_, ?_, ?_, readFd, writeFd⟩
      · rw [List.length_cons, more, written, Nat.add_min_add_right]
      · rw [List.length_cons, more, loaded, Nat.add_min_add_right]
      · rw [contents, contents_push sound room, List.take_succ_cons, List.append_assoc,
          List.singleton_append]

theorem wrote_room (wrote : Wrote p data w) : w.pipe.room = p.room - w.written := by
  have length := congrArg List.length wrote.contents
  have written := wrote.written
  rw [List.length_append, List.length_take, contents_length, contents_length] at length
  unfold Pipe.room at *
  omega

structure Took (p : Pipe) (count : Nat) (r : Pipe × List UInt8) : Prop where
  sound : Sound r.1
  bytes : r.2 = p.contents.take count
  contents : r.1.contents = p.contents.drop count

theorem contents_pop (sound : Sound p) (some_ : p.head ≠ p.tail) :
    p.contents = p.buf.getD p.head default ::
      Pipe.contents { p with head := (p.head + 1) % pipeBufSize } := by
  have less : p.used = Pipe.used { p with head := (p.head + 1) % pipeBufSize } + 1 :=
    used_pop sound.head sound.tail some_
  rw [Pipe.contents, less, turn_first (by rw [sound.cells]; exact sound.head), sound.cells]
  rfl

theorem read_took (sound : Sound p) (count : Nat) : Took p count (p.read count) := by
  induction count generalizing p with
  | zero => exact ⟨sound, rfl, rfl⟩
  | succ count ih =>
    simp only [Pipe.read]
    split
    · rename_i same
      have none_ : p.contents = [] := by
        rw [Pipe.contents, Pipe.used, (used_zero sound.head sound.tail).mpr same, turn_zero]
      refine ⟨sound, ?_, ?_⟩
      · rw [none_, List.take_nil]
      · rw [none_, List.drop_nil]
    · rename_i some_
      have next : Sound { p with head := (p.head + 1) % pipeBufSize } :=
        ⟨sound.cells, Nat.mod_lt _ (by decide), sound.tail⟩
      obtain ⟨sound', bytes, contents⟩ := ih next
      refine ⟨sound', ?_, ?_⟩
      · rw [contents_pop sound some_, List.take_succ_cons, bytes]
      · rw [contents_pop sound some_, List.drop_succ_cons, contents]

def AllSound (s : State) : Prop := ∀ (i : Nat) (p : Pipe), s.pipes.cells[i]? = some p → Sound p

theorem at_get (found : s.at_ slot = some (i, p)) : slot = some i ∧ s.pipes.cells[i]? = some p := by
  obtain ⟨j, here, inside⟩ := Option.bind_eq_some_iff.mp found
  obtain ⟨q, get, same⟩ := Option.map_eq_some_iff.mp inside
  cases same
  exact ⟨here, get⟩

theorem put_sound (all : AllSound s) (i : Nat) (sound : Sound p) :
    AllSound (s.put i p) :=
  Row.forall_set all sound

theorem sound_initial : AllSound initial := by
  intro i p get
  rw [List.eq_of_mem_replicate (List.mem_of_getElem? get)]
  exact sound_empty (-1) (-1)

section
variable (all : AllSound s)
include all

theorem create_sound : AllSound s.create.1 := by
  unfold State.create
  simp only
  split
  · exact Row.forall_set all (sound_empty _ _)
  · exact all

theorem write_sound (fd : Int) (data : List UInt8) :
    AllSound (s.write fd data).1 := by
  unfold State.write
  split
  · rename_i i p found
    exact put_sound all i (write_wrote (all i p (at_get found).2) data).sound
  · exact all

theorem read_sound (fd : Int) (count : Nat) :
    AllSound (s.read fd count).1 := by
  unfold State.read
  split
  · rename_i i p found
    split
    · exact put_sound all i (read_took (all i p (at_get found).2) count).sound
    · split
      · exact all
      · split <;> exact all
  · exact all

theorem setNonblock_sound (fd : Int) (nonblock : Bool) :
    AllSound (s.setNonblock fd nonblock) := by
  unfold State.setNonblock
  split
  · rename_i i p found
    obtain ⟨cells, head, tail⟩ := all i p (at_get found).2
    exact put_sound all i ⟨cells, head, tail⟩
  · exact all

theorem close_sound (fd : Int) : AllSound (s.close fd) := by
  intro i p get
  obtain ⟨q, old, same⟩ := Option.map_eq_some_iff.mp (List.getElem?_map ▸ get)
  have sound := all i q old
  subst same
  split
  · split
    · exact sound_empty (-1) (-1)
    · exact ⟨sound.cells, sound.head, sound.tail⟩
  · exact sound

theorem step_sound (taken : step s call = some s') : AllSound s' := by
  cases call with
  | create => exact Option.some.inj taken ▸ create_sound all
  | write fd data => exact Option.some.inj taken ▸ write_sound all fd data
  | read fd count => exact Option.some.inj taken ▸ read_sound all fd count
  | setNonblock fd nonblock => exact Option.some.inj taken ▸ setNonblock_sound all fd nonblock
  | close fd => exact Option.some.inj taken ▸ close_sound all fd

end

theorem run_sound (run : Run step initial past s) : AllSound s :=
  run_invariant AllSound sound_initial (fun _ _ _ all taken => step_sound all taken) run

structure WriteEnd (fd : Int) where
  state : State
  slot : Nat
  pipe : Pipe
  found : state.writer fd = some (slot, pipe)
  sound : Sound pipe

theorem writer_put (found : s.writer fd = some (i, p)) (same : q.writeFd = p.writeFd) :
    (s.put i q).writer fd = some (i, q) := by
  obtain ⟨slot, get⟩ := at_get found
  have inside : i < s.pipes.cells.length := (List.getElem?_eq_some_iff.mp get).1
  have again : (s.put i q).writeSlot fd = some i := by
    rw [← slot]
    exact findIdx_write_same get (by rw [same])
  rw [State.writer, again, State.at_, Option.bind_some]
  change ((s.pipes.cells.set i q)[i]?).map _ = _
  rw [List.getElem?_set_self inside]
  rfl

theorem writer_isPipeFd (found : s.writer fd = some (i, p)) : s.isPipeFd fd = true := by
  obtain ⟨slot, get⟩ := at_get found
  obtain ⟨inside, test, _⟩ := List.findIdx?_eq_some_iff_getElem.mp slot
  refine List.any_eq_true.mpr ⟨_, List.getElem_mem inside, ?_⟩
  rw [Bool.or_eq_true]
  exact .inr test

theorem write_found (found : s.writer fd = some (i, p)) (data : List UInt8) :
    s.write fd data = (s.put i (p.write data).pipe, ((p.write data).written : Int)) := by
  rw [State.write.eq_def, found]

def pipeSink (fd : Int) : Sink UInt8 (WriteEnd fd) where
  write e data :=
    (⟨(e.state.write fd data).1, e.slot, (e.pipe.write data).pipe, by
        rw [write_found e.found]
        exact writer_put e.found (write_wrote e.sound data).writeFd,
      (write_wrote e.sound data).sound⟩, (e.state.write fd data).2)
  stream e := e.pipe.contents
  took e data _ := by
    have wrote := write_wrote e.sound data
    simp only [write_found e.found, Int.toNat_natCast]
    refine ⟨?_, wrote.contents⟩
    rw [wrote.written]
    exact Nat.min_le_left _ _
  refused e data error := by
    simp only [write_found e.found] at error
    omega
  word e data := by
    simp only [write_found e.found, (write_wrote e.sound data).written, Pipe.room, pipeBufSize]
    omega

theorem pipeSink_write (e : WriteEnd fd) (data : List UInt8) :
    ((pipeSink fd).write e data).2 = (min data.length e.pipe.room : Nat) ∧
      ((pipeSink fd).write e data).1.pipe.room = e.pipe.room - min data.length e.pipe.room := by
  have wrote := write_wrote e.sound data
  constructor
  · change (e.state.write fd data).2 = _
    rw [write_found e.found, wrote.written]
  · rw [← wrote.written]
    exact wrote_room wrote

theorem pipeSink_fills (fd : Int) :
    Fills (pipeSink fd) (fun e => e.pipe.room) (fun _ => True) := by
  constructor
  · intro e data _
    exact (pipeSink_write e data).1
  · intro e data _ fits
    refine ⟨trivial, ?_⟩
    rw [(pipeSink_write e data).2, Nat.min_eq_left (Nat.le_of_lt fits)]
  · intro e data more _ full
    rw [(pipeSink_write _ more).1, (pipeSink_write e data).2]
    omega

end TynKernel.Pipes
