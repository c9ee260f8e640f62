import TynKernel.Io.StreamSockets
import TynKernel.Net.Receive

/-!
The answer EAGAIN of a send. The call asks the stack whether it can send, which is false with
a full buffer and also on a connection that is over, so the answer is the same for both.
-/
namespace TynKernel.Net

namespace Tcp
variable [Stack]

def maySend (t : Tcp) : Bool := t.state = .established ∨ t.state = .closeWait

def sendsLater (t : Tcp) : Bool :=
  t.state = .synSent ∨ t.state = .synReceived ∨ (t.maySend ∧ t.txFree = 0)

def isOver (t : Tcp) : Bool := t.state = .closed ∨ t.state = .timeWait

def isLive (t : Tcp) : Bool := t.state = .synSent ∨ t.state = .synReceived ∨ t.maySend

theorem canSend_maySend (t : Tcp) : t.canSend = true ↔ t.maySend = true ∧ 0 < t.txFree := by
  rw [Stack.canSend_iff, maySend, decide_eq_true_iff]

theorem sendsLater_iff (t : Tcp) : t.sendsLater = true ↔ t.isLive = true ∧ t.canSend = false := by
  rw [← Bool.not_eq_true, canSend_maySend]
  cases state : t.state <;> simp [sendsLater, isLive, maySend, state]

theorem isOver_not_live {t : Tcp} (over_ : t.isOver = true) : ¬ t.isLive = true := by
  rcases of_decide_eq_true over_ with state | state <;> simp [isLive, maySend, state]

theorem isOver_shut {t : Tcp} (over_ : t.isOver = true) : t.canSend = false := by
  rw [← Bool.not_eq_true, canSend_maySend]
  rcases of_decide_eq_true over_ with state | state <;> simp [maySend, state]

theorem on_isOver {t : Tcp} (over_ : t.isOver = true) (event : TcpEvent) :
    (t.on event).isOver = true := by
  rcases of_decide_eq_true over_ with state | state <;> cases event <;>
    simp [Stack.on_state, TcpState.next, isOver, state]

end Tcp

def Reply.writable : Reply → Bool
  | .events _ pollOut _ _ => pollOut
  | _ => false

end TynKernel.Net

namespace TynKernel.Io
open Net Numbers Runs Streams

section Errors
variable {S : Type} {sink : Sink UInt8 S} {v : Vfs.State} {fd : Int}

theorem sysSendfile_error (within_ : Vfs.Within v)
    (done : sysSendfile sink true s v fd offset count = some sent) (error : sent.answer < 0) :
    sent.answer = -22 ∨ ∃ buf, (sink.write s buf).2 = sent.answer := by
  obtain ⟨_, answered, delivered⟩ := sysSendfile_delivers sink true s within_ fd offset count
  cases done.symm.trans answered
  have first : firstAnswer sink true s v fd offset count < 0 :=
    Int.not_le.mp fun valid => Int.not_lt.mpr (delivered.accepted valid) error
  have same := delivered.refused first
  cases found : v.file fd with
  | none => exact .inl (same.trans (firstAnswer_refused (.inr found)))
  | some f =>
    rw [firstAnswer_open found] at same
    split at same
    · omega
    · exact .inr ⟨_, same.symm⟩

end Errors

section Sends
variable [Stack] {fd : Int}

theorem sendCode_again (t : Tcp) (data : List UInt8) :
    sendCode t data = -11 ↔ t.canSend = false := by
  unfold sendCode
  split
  · rename_i open_
    rw [open_]
    exact ⟨fun no => absurd no (by omega), nofun⟩
  · rename_i shut
    exact ⟨fun _ => (Bool.not_eq_true _).mp shut, fun _ => rfl⟩

theorem stream_destination (conn : Conn s fd sock t) (data : List UInt8) (dest : Option SockAddr)
    (room : Bool) : s.call (.sendto fd data dest room) = s.call (.sendto fd data none true) := by
  obtain ⟨before, after, found⟩ := conn.found
  simp [State.call, State.withSocket, found, Socket.sendto, conn.stream]

theorem writev_again (p : Sender fd) (again : (sysWritev (socketSink fd) p iov).2 = -11) :
    p.tcp.canSend = false := by
  rw [← Bool.not_eq_true]
  intro open_
  obtain ⟨answer, _⟩ := writevFrom_fills (socketSink_fills fd) iov open_ 0 (by
    have := p.small
    omega)
  unfold sysWritev at again
  have : (writevFrom (socketSink fd) p 0 iov).2 = _ := answer
  omega

/-- What the answers of a connection's senders say. sys_write is sys_sendto without an address. -/
structure HonestSends (p : Sender fd) : Prop where
  sendto : ∀ data dest room s' code,
    p.state.call (.sendto fd data dest room) = some (s', .code code) →
      (code = -11 → p.tcp.sendsLater = true) ∧ (p.tcp.isOver = true → code < 0 ∧ code ≠ -11)
  writev : ∀ iov, (sysWritev (socketSink fd) p iov).2 = -11 → p.tcp.sendsLater = true
  sendfile : ∀ archive past v, Run Vfs.step (Vfs.initial archive) past v →
    ∀ inFd offset count sent, sysSendfile (socketSink fd) true p v inFd offset count = some sent →
      sent.answer = -11 → p.tcp.sendsLater = true

theorem live_honest (live : p.tcp.isLive = true) : HonestSends p := by
  have later : p.tcp.canSend = false → p.tcp.sendsLater = true :=
    fun shut => (Tcp.sendsLater_iff _).mpr ⟨live, shut⟩
  constructor
  · intro data dest room s' code done
    rw [stream_destination p.conn] at done
    obtain ⟨s'', answered, _⟩ := conn_sendto p.conn data true
    rw [answered] at done
    cases done
    refine ⟨fun again => later ((sendCode_again _ _).mp again), ?_⟩
    intro over_
    exact absurd live (Tcp.isOver_not_live over_)
  · intro iov again
    exact later (writev_again p again)
  · intro archive past v reached inFd offset count sent done again
    have error : sent.answer < 0 := by omega
    rcases sysSendfile_error (Vfs.run_within reached) done error with invalid | ⟨buf, same⟩
    · omega
    · exact later ((sendCode_again _ buf).mp (same.trans again))

theorem honest_live (honest : HonestSends p) : p.tcp.isLive = true := by
  by_contra dead
  have shut : p.tcp.canSend = false := by
    rw [← Bool.not_eq_true, Tcp.canSend_maySend]
    rintro ⟨may, _⟩
    exact dead (decide_eq_true (.inr (.inr may)))
  obtain ⟨s', answered, _⟩ := conn_sendto p.conn [] true
  have later := (honest.sendto [] none true s' _ answered).1 ((sendCode_again _ _).mpr shut)
  exact dead ((Tcp.sendsLater_iff _).mp later).1

end Sends

/-- In every state of the network and of a stream socket's connection: the senders ask to try
    again only where the connection may take data later, and answer a connection that is over with
    another error, if and only if the connection is being established or may send. -/
theorem sends_honest_iff [Stack] (fd : Int) (p : Sender fd) : HonestSends p ↔ p.tcp.isLive = true :=
  ⟨honest_live, live_honest⟩

/-- What a sender does that tries again when the socket is writable, while the network does what
    it wants. -/
def Retrying (fd : Int) : Action → Bool
  | .call (.sendto fd' _ _ _) => fd' = fd
  | .call (.pollSocket fd' _) => fd' = fd
  | .call (.recvfrom fd' _) => fd' = fd
  | .call _ => false
  | .accepting _ => false
  | .poll => true
  | .tcp _ _ => true
  | .datagram _ _ _ => true

section Waiting
variable [Stack] {s s' : Net.State} {fd : Int}

def Ended (s : Net.State) (fd : Int) : Prop :=
  ∃ sock t, Conn s fd sock t ∧ t.isOver = true ∧ sock.connecting = false

theorem ended_polled {sock : Socket} (settled : sock.connecting = false) (t : Tcp) :
    sock.polled t = sock := by
  simp [Socket.polled, settled]

theorem ended_step (ended : Ended s fd) (retrying : Retrying fd action = true)
    (taken : step s action = some s') : Ended s' fd := by
  obtain ⟨sock, t, conn, over_, settled⟩ := ended
  cases action with
  | call c =>
    cases c with
    | sendto fd' data =>
      have own : fd' = fd := of_decide_eq_true retrying
      subst own
      obtain ⟨s'', done, next⟩ := conn_sendto conn data true
      rw [step, stream_destination conn, done] at taken
      cases taken
      refine ⟨sock, _, next, ?_, settled⟩
      rw [afterSend, Tcp.isOver_shut over_]
      exact over_
    | pollSocket fd' room =>
      have own : fd' = fd := of_decide_eq_true retrying
      subst own
      obtain ⟨s'', done, next⟩ := conn_pollSocket conn room
      rw [step, done] at taken
      cases taken
      rw [ended_polled settled] at next
      exact ⟨sock, t, next, over_, settled⟩
    | recvfrom fd' len =>
      have own : fd' = fd := of_decide_eq_true retrying
      subst own
      obtain ⟨s'', t', done, next, state, _⟩ := conn_recvfrom conn len
      rw [step, done] at taken
      cases taken
      refine ⟨sock, t', next, ?_, settled⟩
      rw [Tcp.isOver, state]
      exact over_
    | _ => cases retrying
  | accepting => cases retrying
  | poll =>
    obtain ⟨net, polled, same⟩ := Option.map_eq_some_iff.mp taken
    subst same
    exact ⟨sock, t, conn_poll conn polled, over_, settled⟩
  | datagram => exact ⟨sock, t, conn_datagram conn taken, over_, settled⟩
  | tcp h event =>
    refine ⟨sock, _, conn_tcp conn taken, ?_, settled⟩
    split
    · exact Tcp.on_isOver over_ event
    · exact over_

theorem ended_waits (ended : Ended s fd) (run : Run step s past s')
    (retrying : ∀ e ∈ past, Retrying fd e.2 = true) (data : List UInt8) (room : Bool) :
    (∃ s'', s'.call (.sendto fd data none room) = some (s'', .code (-11))) ∧
      ∃ s'' r, s'.call (.pollSocket fd room) = some (s'', r) ∧ r.writable = false := by
  obtain ⟨sock, t, conn, over_, settled⟩ := run_invariant_of (fun _ a => Retrying fd a = true)
    (Ended · fd) ended (fun _ _ _ held ok taken => ended_step held ok taken) run retrying
  have shut := Tcp.isOver_shut over_
  constructor
  · obtain ⟨s'', done, _⟩ := conn_sendto conn data room
    rw [(sendCode_again t data).mpr shut] at done
    exact ⟨s'', done⟩
  · obtain ⟨s'', done, _⟩ := conn_pollSocket conn room
    refine ⟨s'', _, done, ?_⟩
    rw [Socket.pollReply, if_neg (by rw [settled]; decide)]
    exact shut

end Waiting

/-- After a reset of its peer a sender is told to try again, and waits for the socket to become
    writable for as long as it tries. -/
theorem reset_sender_waits : ∃ past s, Run step (initial .fixed) past s ∧
    (∃ p : Sender 500, p.state = s ∧ ¬ HonestSends p) ∧
    ∀ later s', Run step s later s' → (∀ e ∈ later, Retrying 500 e.2 = true) →
      ∀ data room, (∃ s'', s'.call (.sendto 500 data none room) = some (s'', .code (-11))) ∧
        ∃ s'' r, s'.call (.pollSocket 500 room) = some (s'', r) ∧ r.writable = false := by
  obtain ⟨past, s, run, _, test⟩ := run_of_exec (fun _ _ => true) step (initial .fixed)
    (clientSteps ++ [.tcp 0 .rst])
    (fun s => s.connAt 500 fun sock t => sock.sockType = .tcpStream ∧ t.state = .closed ∧
      t.txFree = 8192 ∧ sock.connecting = false) (by decide)
  obtain ⟨sock, t, found, got, holds⟩ := connAt_spec test
  obtain ⟨stream, closed, room, settled⟩ := of_decide_eq_true holds
  have conn : Conn s 500 sock t := ⟨⟨_, run_accounted run⟩, found, got, stream⟩
  have over_ : t.isOver = true := decide_eq_true (.inl closed)
  refine ⟨past, s, run, ⟨⟨s, sock, t, conn, by omega⟩, rfl, ?_⟩, ?_⟩
  · intro honest
    exact Tcp.isOver_not_live over_ (honest_live honest)
  · intro later s' onward retrying data room
    exact ended_waits ⟨sock, t, conn, over_, settled⟩ onward retrying data room

theorem recvCode_again [Stack] (t : Tcp) (len : Nat) :
    t.recvCode len = -11 ↔ t.canRecv = false ∧ t.isActive = true := by
  unfold Tcp.recvCode
  cases t.canRecv
  · cases t.isActive <;> simp
  · exact ⟨fun code => by simp only [if_true] at code; omega, fun again => nomatch again.1⟩

/-- A poll of a stream tells whether a write is to be tried again. It tells the same of a read,
    unless the stack socket listens and has no byte: then the poll reports nothing and the read
    reports the end. -/
theorem poll_tells_calls [Stack] {s : Net.State} {fd : Int} {sock : Socket} {t : Tcp}
    (conn : Conn s fd sock t) (settled : sock.connecting = false) (len : Nat) (data : List UInt8)
    (room : Bool) :
    ∃ s₁ s₂ s₃ input output hangup count bytes sent,
      s.call (.pollSocket fd room) = some (s₁, .events input output false hangup) ∧
      s.call (.recvfrom fd len) = some (s₂, .bytes count bytes none) ∧
      s.call (.sendto fd data none room) = some (s₃, .code sent) ∧
      (sent = -11 ↔ output = false) ∧
      ((count = -11 ↔ input = false ∧ hangup = false) ↔
        t.isListening = false ∨ t.canRecv = true) := by
  obtain ⟨s₁, polled, _⟩ := conn_pollSocket conn room
  obtain ⟨s₂, _, read, _⟩ := conn_recvfrom conn len
  obtain ⟨s₃, wrote, _⟩ := conn_sendto conn data room
  rw [Socket.pollReply, settled] at polled
  refine ⟨s₁, s₂, s₃, _, _, _, _, _, _, polled, read, wrote, sendCode_again t data, ?_⟩
  have quiet : t.isListening = true → t.isActive = false := by
    rw [Stack.isListening_iff, ← Bool.not_eq_true, Stack.isActive_iff]
    exact fun listens active => active.2.2 listens
  rw [recvCode_again]
  revert quiet
  cases t.canRecv <;> cases t.isActive <;> cases t.isListening <;> decide

theorem refused_listener_polls_silent : ∃ past s s₁ s₂ input hangup count bytes output,
    Run step (initial .fixed) past s ∧
      s.call (.pollSocket 500 true) = some (s₁, .events input output false hangup) ∧
      s.call (.recvfrom 500 1) = some (s₂, .bytes count bytes none) ∧
      ¬ (count = -11 ↔ input = false ∧ hangup = false) := by
  obtain ⟨past, s, run, _, test⟩ := run_of_exec (fun _ _ => true) step (initial .fixed)
    [.call (.socket 2 1), .call (.bind 500 ⟨2, 80, 0⟩), .call (.listen 500),
      .call (.connect 500 ⟨2, 80, 1⟩ true)]
    (fun s => s.connAt 500 fun sock t => sock.sockType = .tcpStream ∧ sock.connecting = false ∧
      t.isListening = true ∧ t.canRecv = false) (by decide +kernel)
  obtain ⟨sock, t, found, got, holds⟩ := connAt_spec test
  obtain ⟨stream, settled, listens, none_⟩ := of_decide_eq_true holds
  obtain ⟨s₁, s₂, _, input, output, hangup, count, bytes, _, polled, read, _, _, agree⟩ :=
    poll_tells_calls ⟨⟨_, run_accounted run⟩, found, got, stream⟩ settled 1 [] true
  refine ⟨past, s, s₁, s₂, input, hangup, count, bytes, output, run, polled, read, ?_⟩
  rw [agree, listens, none_]
  decide

end TynKernel.Io
