import TynKernel.Fd.Syscalls
import TynKernel.Io.StreamSockets
import TynKernel.Pipes.Ring

/-!
sendmsg (call 46) beside sys_writev. sendmsg writes the bytes from the first base on, as many
as all buffers have, to a pipe, and nothing to a socket.
-/
namespace TynKernel.Io
open Bytes List Numbers Pipes Runs Streams

@[irreducible] def word (mem : Memory) (pointer : Nat) : Nat := readLE mem 8 (pointer % 2 ^ 64)

structure IoVec where
  base : Nat
  len : Nat
  deriving DecidableEq, Repr

@[irreducible] def address (base i : Nat) : Nat := (base + i) % 2 ^ 64

def bytesAt (mem : Memory) (base len : Nat) : List UInt8 :=
  (List.range len).map fun i => mem (address base i)

def ioVecs (mem : Memory) (iov iovcnt : Nat) : List IoVec :=
  (List.range iovcnt).map fun i => ⟨word mem (iov + i * 16), word mem (iov + i * 16 + 8)⟩

def buffers (mem : Memory) (vecs : List IoVec) : List (List UInt8) :=
  vecs.map fun v => bytesAt mem v.base v.len

def iovPtr (mem : Memory) (msg : Nat) : Nat := word mem (msg + 16)

def iovLen (mem : Memory) (msg : Nat) : Nat := word mem (msg + 24)

def iovTotal (mem : Memory) (iov iovcnt : Nat) : Int :=
  (List.range iovcnt).foldl
    (fun total i => asI64 (total + asI64 (word mem (iov + i * 16 + 8)))) 0

def oneBuffer (mem : Memory) (msg : Nat) : List UInt8 :=
  bytesAt mem (word mem (iovPtr mem msg)) (asU64 (iovTotal mem (iovPtr mem msg) (iovLen mem msg)))

def sysSendmsg (mem : Memory) (s : Pipes.State) (fd : Int) (msg : Nat) : Pipes.State × Int :=
  let total := iovTotal mem (iovPtr mem msg) (iovLen mem msg)
  if s.isPipeFd fd then ((s.write fd (oneBuffer mem msg)).1, total)
  else (s, total)

def sendmsgLoads (mem : Memory) (s : Pipes.State) (fd : Int) (msg : Nat) : List Nat :=
  if s.isPipeFd fd then
    (List.range (s.loads fd (oneBuffer mem msg))).map (address (word mem (iovPtr mem msg)))
  else []

section Buffers
variable (mem : Memory) (msg : Nat)

def vecs : List IoVec := ioVecs mem (iovPtr mem msg) (iovLen mem msg)

def message : List UInt8 := (buffers mem (vecs mem msg)).flatten

def Inside (a : Nat) : Prop := ∃ v ∈ vecs mem msg, ∃ j < v.len, a = address v.base j

variable {mem msg}

theorem bytesAt_length (base len : Nat) : (bytesAt mem base len).length = len := by
  rw [bytesAt, length_map, length_range]

theorem foldl_total (f : Nat → Nat) (is : List Nat) (n : Nat) :
    is.foldl (fun total i => asI64 (total + asI64 (f i))) (asI64 n) =
      asI64 (n + (is.map f).sum : Nat) := by
  induction is generalizing n with
  | nil => rw [foldl_nil, map_nil, sum_nil, Nat.add_zero]
  | cons i rest ih =>
    have first : asI64 (asI64 n + asI64 (f i)) = asI64 (n + f i : Nat) := by
      rw [asI64_add, Int.add_comm, asI64_add, Int.add_comm, Int.natCast_add]
    rw [foldl_cons, first, ih, map_cons, sum_cons, Nat.add_assoc]

theorem total_eq : iovTotal mem (iovPtr mem msg) (iovLen mem msg) =
    asI64 (message mem msg).length := by
  have sum := foldl_total (fun i => word mem (iovPtr mem msg + i * 16 + 8))
    (List.range (iovLen mem msg)) 0
  have lengths : (buffers mem (vecs mem msg)).map List.length =
      (List.range (iovLen mem msg)).map fun i => word mem (iovPtr mem msg + i * 16 + 8) := by
    rw [buffers, vecs, ioVecs, map_map, map_map]
    apply map_congr_left
    intro i _
    simp [bytesAt_length]
  rw [asI64_nat (by decide), Int.natCast_zero, Nat.zero_add] at sum
  rw [iovTotal, sum, message, length_flatten, lengths]

theorem oneBuffer_eq : oneBuffer mem msg =
    bytesAt mem (word mem (iovPtr mem msg)) ((message mem msg).length % 2 ^ 64) := by
  rw [oneBuffer, total_eq, asU64_asI64]

end Buffers

theorem target_outlet (all : AllSound t.pipes) :
    (∀ slot, Fd.writeTarget t fd = .pipe slot →
      ∃ e : WriteEnd fd, e.state = t.pipes ∧ e.slot = slot) ∧
    (Fd.writeTarget t fd = .socket fd → t.pipes.isPipeFd fd = false) := by
  unfold Fd.writeTarget
  split
  · split <;> exact ⟨nofun, nofun⟩
  split
  · exact ⟨nofun, nofun⟩
  split
  · exact ⟨nofun, nofun⟩
  split
  · split
    · rename_i i found
      refine ⟨?_, nofun⟩
      intro slot same
      cases same
      obtain ⟨inside, _, _⟩ := findIdx?_eq_some_iff_getElem.mp found
      have get := getElem?_eq_getElem inside
      refine ⟨⟨t.pipes, i, _, ?_, all i _ get⟩, rfl, rfl⟩
      rw [State.writer, found, State.at_, Option.bind_some, get]
      rfl
    · exact ⟨nofun, nofun⟩
  · rename_i apart
    refine ⟨?_, fun _ => Bool.eq_false_iff.mpr apart⟩
    intro slot same
    split at same <;> cases same

theorem pipe_room_small (e : WriteEnd fd) : e.pipe.room < 2 ^ 63 := by
  unfold Pipe.room pipeBufSize
  omega

section
variable [Net.Stack]

/-- A state in which sys_write reaches the write end of a pipe or a stream socket. -/
inductive Outlet (fd : Int) where
  | pipe (e : WriteEnd fd)
  | socket (pipes : Pipes.State) (apart : pipes.isPipeFd fd = false) (p : Sender fd)

namespace Outlet
variable {fd : Int}

def pipes : Outlet fd → Pipes.State
  | .pipe e => e.state
  | .socket pipes _ _ => pipes

def queued : Outlet fd → List UInt8
  | .pipe e => e.pipe.contents
  | .socket _ _ p => p.tcp.sent

def queuedIn (o : Outlet fd) (s : Pipes.State) : List UInt8 :=
  match o with
  | .pipe _ => ((s.writer fd).map fun found => found.2.contents).getD []
  | .socket _ _ p => p.tcp.sent

def writev (o : Outlet fd) (iov : List (List UInt8)) : List UInt8 × Int :=
  match o with
  | .pipe e =>
    ((sysWritev (pipeSink fd) e iov).1.pipe.contents, (sysWritev (pipeSink fd) e iov).2)
  | .socket _ _ p =>
    ((sysWritev (socketSink fd) p iov).1.tcp.sent, (sysWritev (socketSink fd) p iov).2)

def sendmsg (o : Outlet fd) (mem : Memory) (msg : Nat) : List UInt8 × Int :=
  let result := sysSendmsg mem o.pipes fd msg
  (o.queuedIn result.1, result.2)

end Outlet

section Message
variable (mem : Memory) (msg : Nat)

structure Agrees {fd : Int} (o : Outlet fd) : Prop where
  bytes : (o.sendmsg mem msg).1 = (o.writev (buffers mem (vecs mem msg))).1
  answer : (o.sendmsg mem msg).2 = (o.writev (buffers mem (vecs mem msg))).2
  taken : ∃ n ≤ (message mem msg).length,
    (o.sendmsg mem msg).1 = o.queued ++ (message mem msg).take n ∧
      ((o.sendmsg mem msg).2 = n ∨ (o.sendmsg mem msg).2 < 0 ∧ n = 0)
  inside : ∀ a ∈ sendmsgLoads mem o.pipes fd msg, Inside mem msg a

def InOnePiece (n : Nat) : Prop :=
  bytesAt mem (word mem (iovPtr mem msg)) n = (message mem msg).take n ∧
    ∀ i < n, Inside mem msg (address (word mem (iovPtr mem msg)) i)

/-- A pipe has room for the message, or for what a word keeps of its length, and the bytes that go
    in stand in one piece. A socket takes nothing, and the length of the message looks like its
    error. -/
def Suits {fd : Int} : Outlet fd → Prop
  | .pipe e =>
    (message mem msg).length % 2 ^ 64 = min (message mem msg).length e.pipe.room ∧
      InOnePiece mem msg (min (message mem msg).length e.pipe.room)
  | .socket _ _ p =>
    (message mem msg).length = 0 ∨
      p.tcp.canSend = false ∧ (message mem msg).length % 2 ^ 64 = 2 ^ 64 - 11

variable {mem msg}

theorem sendmsg_answer (o : Outlet fd) :
    (o.sendmsg mem msg).2 = asI64 (message mem msg).length := by
  unfold Outlet.sendmsg sysSendmsg
  simp only [total_eq]
  split
  · simp only
  · simp only

section Pipe
variable {fd : Int} (e : WriteEnd fd)

theorem pipe_writev : (Outlet.pipe e).writev (buffers mem (vecs mem msg)) =
    (e.pipe.contents ++ (message mem msg).take (min (message mem msg).length e.pipe.room),
      ((min (message mem msg).length e.pipe.room : Nat) : Int)) := by
  have small : 0 + e.pipe.room < 2 ^ 63 := by
    rw [Nat.zero_add]
    exact pipe_room_small e
  obtain ⟨answer, took⟩ :=
    writevFrom_fills (pipeSink_fills fd) (buffers mem (vecs mem msg)) trivial 0 small
  rw [Nat.zero_add] at answer
  exact Prod.ext took answer

theorem pipe_sendmsg : ((Outlet.pipe e).sendmsg mem msg).1 =
    e.pipe.contents ++ (oneBuffer mem msg).take (min (oneBuffer mem msg).length e.pipe.room) := by
  have wrote := write_wrote e.sound (oneBuffer mem msg)
  have found := writer_put e.found wrote.writeFd
  unfold Outlet.sendmsg sysSendmsg
  simp only [Outlet.pipes, writer_isPipeFd e.found, if_true, write_found e.found, Outlet.queuedIn,
    found, Option.map_some, Option.getD_some]
  rw [wrote.contents, wrote.written]

theorem pipe_loads : sendmsgLoads mem (Outlet.pipe e).pipes fd msg =
    (List.range (min (oneBuffer mem msg).length (e.pipe.room + 1))).map
      (address (word mem (iovPtr mem msg))) := by
  have wrote := write_wrote e.sound (oneBuffer mem msg)
  unfold sendmsgLoads State.loads
  simp [Outlet.pipes, writer_isPipeFd e.found, e.found, wrote.loaded]

theorem pipe_sendmsg_fits (kept : (message mem msg).length % 2 ^ 64 = n) (room : n ≤ e.pipe.room) :
    ((Outlet.pipe e).sendmsg mem msg).1 =
      e.pipe.contents ++ bytesAt mem (word mem (iovPtr mem msg)) n := by
  have whole := take_of_length_le
    (Nat.le_of_eq (@bytesAt_length mem (word mem (iovPtr mem msg)) n))
  rw [pipe_sendmsg, oneBuffer_eq, kept, bytesAt_length, Nat.min_eq_left room, whole]

theorem pipe_agrees_iff : Agrees mem msg (.pipe e) ↔ Suits mem msg (.pipe e) := by
  have small := pipe_room_small e
  have writev := @pipe_writev _ mem msg fd e
  have length : (oneBuffer mem msg).length = (message mem msg).length % 2 ^ 64 := by
    rw [oneBuffer_eq, bytesAt_length]
  have room := Nat.min_le_right (message mem msg).length e.pipe.room
  have bound := Nat.min_le_left (message mem msg).length e.pipe.room
  have loads := @pipe_loads _ mem msg fd e
  rw [length] at loads
  simp only [Suits]
  generalize min (message mem msg).length e.pipe.room = n at *
  constructor
  · rintro ⟨bytes, answer, _, inside⟩
    have kept : (message mem msg).length % 2 ^ 64 = n := by
      rw [sendmsg_answer, writev] at answer
      rw [← asU64_asI64, answer, asU64]
      omega
    refine ⟨kept, ?_, ?_⟩
    · rw [pipe_sendmsg_fits e kept room, writev] at bytes
      exact append_cancel_left bytes
    · intro i before
      apply inside
      rw [loads]
      exact mem_map.mpr ⟨i, mem_range.mpr (by omega), rfl⟩
  · rintro ⟨kept, same, inside⟩
    have bytes : ((Outlet.pipe e).sendmsg mem msg).1 =
        e.pipe.contents ++ (message mem msg).take n := by
      rw [pipe_sendmsg_fits e kept room, same]
    have answer : ((Outlet.pipe e).sendmsg mem msg).2 = n := by
      rw [sendmsg_answer, ← asI64_mod, kept, asI64_nat (by omega)]
    constructor
    · rw [bytes, writev]
    · rw [answer, writev]
    · exact ⟨n, bound, bytes, .inl answer⟩
    · intro a member
      rw [loads] at member
      obtain ⟨i, before, here⟩ := mem_map.mp member
      rw [← here]
      exact inside i (by rw [mem_range] at before; omega)

end Pipe

section Socket
variable {fd : Int} {pipes : Pipes.State} {apart : pipes.isPipeFd fd = false} (p : Sender fd)

theorem socket_writev_open (open_ : p.tcp.canSend = true) :
    (Outlet.socket pipes apart p).writev (buffers mem (vecs mem msg)) =
      (p.tcp.sent ++ (message mem msg).take (min (message mem msg).length p.tcp.txFree),
        ((min (message mem msg).length p.tcp.txFree : Nat) : Int)) := by
  obtain ⟨answer, took⟩ := writevFrom_fills (socketSink_fills fd) (buffers mem (vecs mem msg)) open_
    0 (Nat.zero_add _ ▸ p.small)
  rw [Nat.zero_add] at answer
  exact Prod.ext took answer

theorem socket_writev_shut (shut : p.tcp.canSend = false) :
    (Outlet.socket pipes apart p).writev (buffers mem (vecs mem msg)) =
      (p.tcp.sent, if (message mem msg).length = 0 then 0 else -11) := by
  obtain ⟨answer, took⟩ :=
    writevFrom_refused (by decide) (socketSink_shut shut) (buffers mem (vecs mem msg))
  exact Prod.ext (took.trans (append_nil _)) answer

theorem socket_agrees_of
    (writev : (Outlet.socket pipes apart p).writev (buffers mem (vecs mem msg)) = (p.tcp.sent, code))
    (answer : asI64 (message mem msg).length = code) (none_ : code = 0 ∨ code < 0) :
    Agrees mem msg (.socket pipes apart p) := by
  have bytes : ((Outlet.socket pipes apart p).sendmsg mem msg).1 = p.tcp.sent := rfl
  have result := (@sendmsg_answer _ mem msg fd (.socket pipes apart p)).trans answer
  constructor
  · rw [bytes, writev]
  · rw [result, writev]
  · refine ⟨0, Nat.zero_le _, (append_nil _).symm, ?_⟩
    rw [result]
    exact none_.imp id fun error => ⟨error, rfl⟩
  · unfold sendmsgLoads
    simp only [Outlet.pipes, apart, Bool.false_eq_true, if_false]
    intro a member
    cases member

theorem socket_agrees_iff :
    Agrees mem msg (.socket pipes apart p) ↔ Suits mem msg (.socket pipes apart p) := by
  have bytes : ((Outlet.socket pipes apart p).sendmsg mem msg).1 = p.tcp.sent := rfl
  have answer := @sendmsg_answer _ mem msg fd (.socket pipes apart p)
  simp only [Suits]
  cases open_ : p.tcp.canSend with
  | true =>
    have writev := @socket_writev_open _ mem msg fd pipes apart p open_
    have room := ((Net.Stack.canSend_iff p.tcp).mp open_).2
    constructor
    · -- sys_writev has sent something, unless there is nothing to send
      intro agrees
      have same := agrees.bytes
      rw [bytes, writev] at same
      have nothing := append_right_eq_self.mp same.symm
      rw [take_eq_nil_iff] at nothing
      rcases nothing with zero | none_
      · exact .inl (by omega)
      · exact .inl (length_eq_zero_iff.mpr none_)
    · rintro (empty | ⟨shut, _⟩)
      · rw [empty, Nat.zero_min, take_zero, append_nil] at writev
        exact socket_agrees_of p writev (by rw [empty, asI64_nat (by decide)]) (.inl rfl)
      · cases shut
  | false =>
    have writev := @socket_writev_shut _ mem msg fd pipes apart p open_
    by_cases empty : (message mem msg).length = 0
    · rw [if_pos empty] at writev
      refine iff_of_true ?_ (.inl empty)
      exact socket_agrees_of p writev (by rw [empty]; exact asI64_nat (by decide)) (.inl rfl)
    rw [if_neg empty] at writev
    constructor
    · intro agrees
      have same := agrees.answer
      rw [answer, writev] at same
      refine .inr ⟨rfl, ?_⟩
      rw [← asU64_asI64, same]
      rfl
    · rintro (zero | ⟨_, length⟩)
      · exact absurd zero empty
      · have code : asI64 (message mem msg).length = -11 := by
          rw [← asI64_mod, length]
          decide
        exact socket_agrees_of p writev code (.inr (by decide))

end Socket

end Message

/-- sendmsg agrees with sys_writev on an outlet if and only if the message suits it. In every
    state that the calls on pipes lead to, the outlets are what sys_write reaches. -/
theorem sendmsg_agrees_iff (mem : Memory) (msg : Nat) (fd : Int) :
    (∀ o : Outlet fd, Agrees mem msg o ↔ Suits mem msg o) ∧
    ∀ (past : List (Pipes.State × Pipes.Call)) (t : Fd.Tables),
      Run Pipes.step Pipes.initial past t.pipes →
      (∀ slot, Fd.writeTarget t fd = .pipe slot →
        ∃ e : WriteEnd fd, e.state = t.pipes ∧ e.slot = slot) ∧
      (Fd.writeTarget t fd = .socket fd → t.pipes.isPipeFd fd = false) := by
  constructor
  · intro o
    cases o with
    | pipe e => exact pipe_agrees_iff e
    | socket pipes apart p => exact socket_agrees_iff p
  · intro past t run
    exact target_outlet (run_sound run)

end

def twoPieces : Memory
  | 16 => 64
  | 24 => 2
  | 64 => 128
  | 72 => 1
  | 80 => 130
  | 88 => 1
  | 128 => 97
  | 129 => 120
  | 130 => 98
  | _ => 0

/-- The byte after the first buffer goes into a new pipe, and the second buffer does not. -/
theorem sendmsg_past_first_buffer : ∃ past s, Run Pipes.step Pipes.initial past s ∧
    ∃ e : WriteEnd 201, e.state = s ∧
      (Outlet.pipe e).sendmsg twoPieces 0 = ([97, 120], 2) ∧
      (Outlet.pipe e).writev (buffers twoPieces (vecs twoPieces 0)) = ([97, 98], 2) ∧
      ¬ Agrees twoPieces 0 (.pipe e) := by
  have run : Run Pipes.step Pipes.initial [(Pipes.initial, .create)] Pipes.initial.create.1 :=
    .snoc .nil rfl
  have fresh : (Pipes.initial.create.1.writer 201).any
      (fun found => found.2.head = 0 && found.2.tail = 0) = true := by decide
  obtain ⟨e, state, places⟩ : ∃ e : WriteEnd 201, e.state = Pipes.initial.create.1 ∧
      e.pipe.head = 0 ∧ e.pipe.tail = 0 := by
    cases found : Pipes.initial.create.1.writer 201 with
    | none =>
      rw [found] at fresh
      cases fresh
    | some pair =>
      obtain ⟨slot, p⟩ := pair
      rw [found] at fresh
      exact ⟨⟨_, slot, p, found, run_sound run slot p (at_get found).2⟩, rfl,
        by simpa using fresh⟩
  refine ⟨_, _, run, e, state, ?_⟩
  have used : e.pipe.used = 0 := by
    rw [Pipe.used, places.1, places.2]
    rfl
  have room : e.pipe.room = 4095 := by rw [Pipe.room, used, pipeBufSize]
  have contents : e.pipe.contents = [] := by rw [Pipe.contents, used, Rings.turn_zero]
  have bytes : message twoPieces 0 = [97, 98] := by decide +kernel
  have piece : bytesAt twoPieces (word twoPieces (iovPtr twoPieces 0)) 2 = [97, 120] := by
    decide +kernel
  have writev := @pipe_writev _ twoPieces 0 201 e
  have sent := @pipe_sendmsg_fits _ twoPieces 0 201 e 2 (by rw [bytes]; decide) (by omega)
  have answer := @sendmsg_answer _ twoPieces 0 201 (.pipe e)
  rw [bytes, room, contents] at writev
  rw [piece, contents] at sent
  rw [bytes] at answer
  refine ⟨Prod.ext sent (answer.trans (by decide)), writev.trans (by decide), ?_⟩
  intro agrees
  have equal := agrees.bytes
  rw [sent, writev] at equal
  exact absurd equal (by decide)

end TynKernel.Io
