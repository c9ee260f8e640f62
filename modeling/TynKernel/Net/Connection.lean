import TynKernel.Net.Pool

/-!
One stream socket of the table and its connection in the stack. The calls on it are computed from
the two records alone, and no event of the network but its own touches them.
-/
namespace TynKernel.Net
open Arenas Option Rows Runs
open Sockets (SockType)
variable [Stack]

structure Conn (s : State) (fd : Int) (sock : Socket) (t : Tcp) : Prop where
  accounted : ∃ leaked, Accounted s leaked
  found : ∃ before after, s.find fd = some (before, sock, after)
  tcp : s.net.tcp sock.handle = some t
  stream : sock.sockType = .tcpStream

def State.established (s : State) (h : Nat) : Bool :=
  (s.net.tcp h).any fun t => t.state = .established

def Tcp.failed (t : Tcp) : Bool :=
  t.state = .closed ∨ t.state = .timeWait ∨ t.state = .closeWait

variable {net : NetState} {h : Nat} {r : Reply}

section Conn
variable {s s' : State} {fd : Int} {sock : Socket} {t : Tcp}

section
variable (conn : Conn s fd sock t)
include conn

theorem conn_established :
    s.established sock.handle = decide (t.state = .established) := by
  rw [State.established, conn.tcp, any_some]

theorem conn_mem : sock ∈ s.sockets := by
  obtain ⟨before, after, found⟩ := conn.found
  exact found_mem found

theorem conn_poll (polled : s.net.poll = some net) :
    Conn { s with net := net } fd sock t := by
  obtain ⟨leaked, accounted⟩ := conn.accounted
  obtain ⟨net', polled', accounted'⟩ := accounted_poll accounted
  rw [polled] at polled'
  cases polled'
  refine ⟨⟨leaked, accounted'⟩, conn.found, ?_, conn.stream⟩
  rw [← conn.tcp]
  exact poll_tcp accounted polled (conn_mem conn) List.mem_cons_self

theorem conn_tcp (taken : step s (.tcp h event) = some s') :
    Conn s' fd sock (if h = sock.handle then t.on event else t) := by
  obtain ⟨leaked, accounted⟩ := conn.accounted
  have accounted' := step_accounted accounted taken
  obtain ⟨t', got, same⟩ := map_eq_some_iff.mp taken
  subst same
  refine ⟨⟨_, accounted'⟩, conn.found, ?_, conn.stream⟩
  rw [tcp_put]
  split
  · rename_i here
    rw [here, conn.tcp] at got
    rw [Option.some.inj got]
  · exact conn.tcp

theorem conn_datagram (taken : step s (.datagram h src data) = some s') :
    Conn s' fd sock t := by
  obtain ⟨leaked, accounted⟩ := conn.accounted
  have accounted' := step_accounted accounted taken
  obtain ⟨u, got, same⟩ := map_eq_some_iff.mp taken
  subst same
  refine ⟨⟨_, accounted'⟩, conn.found, ?_, conn.stream⟩
  rw [tcp_put_udp got]
  exact conn.tcp

end

theorem call_keeps_account (accounted : ∃ leaked, Accounted s leaked)
    (done : s.call c = some (s', r)) : ∃ leaked, Accounted s' leaked := by
  obtain ⟨leaked, held⟩ := accounted
  have taken : step s (.call c) = some s' := by
    rw [step, done]
    rfl
  exact ⟨_, step_accounted held taken⟩

theorem conn_withSocket (conn : Conn s fd sock t) (done : f s.net sock = some (net, sock', r))
    (got : net.tcp sock'.handle = some t') (number : sock'.fd = sock.fd)
    (stream : sock'.sockType = .tcpStream)
    (accounted : ∀ s', s.withSocket fd missing f = some (s', r) → ∃ leaked, Accounted s' leaked) :
    ∃ s', s.withSocket fd missing f = some (s', r) ∧ Conn s' fd sock' t' := by
  obtain ⟨before, after, found⟩ := conn.found
  have result : s.withSocket fd missing f =
      some ({ s with net := net, sockets := before ++ sock' :: after }, r) := by
    rw [State.withSocket]
    simp [found, done]
  exact ⟨_, result, accounted _ result, ⟨before, after, find_replace found rfl number⟩, got, stream⟩

def Tcp.recvCode (t : Tcp) (len : Nat) : Int :=
  if t.canRecv then (t.rx.take len).length else if t.isActive then -11 else 0

theorem conn_recvfrom (conn : Conn s fd sock t) (len : Nat) :
    ∃ s' t', s.call (.recvfrom fd len) = some (s', .bytes (t.recvCode len) (t.rx.take len) none) ∧
      Conn s' fd sock t' ∧ t'.state = t.state ∧ t'.rx = t.rx.drop len := by
  obtain ⟨leaked, accounted⟩ := conn.accounted
  obtain ⟨net, polled, _⟩ := accounted_poll accounted
  have polledConn := conn_poll conn polled
  have got : net.tcp sock.handle = some t := polledConn.tcp
  have call : s.call (.recvfrom fd len) =
      State.withSocket { s with net := net } fd (.bytes (-9) [] none) (Socket.recvfrom len) := by
    simp [State.call, State.poll, polled]
  have account : ∀ s' r, State.withSocket { s with net := net } fd (.bytes (-9) [] none)
      (Socket.recvfrom len) = some (s', r) → ∃ leaked, Accounted s' leaked := by
    intro s' r done
    exact call_keeps_account ⟨leaked, accounted⟩ (call.trans done)
  rw [call]
  unfold Tcp.recvCode
  split
  · rename_i some_
    obtain ⟨t', received, kept⟩ := Stack.recvSlice_spec t len some_
    have done : Socket.recvfrom len net sock = some (net.put sock.handle (.tcp t'), sock,
        .bytes (t.rx.take len).length (t.rx.take len) none) := by
      simp only [Socket.recvfrom, conn.stream, got, map_some, some_, if_true, received]
    obtain ⟨s', answered, next⟩ := conn_withSocket polledConn done
      ((tcp_put net _ _ _).trans (if_pos rfl)) rfl conn.stream (account · _)
    exact ⟨s', t', answered, next, kept⟩
  · rename_i none_
    have empty : t.rx = [] := by
      rw [Stack.canRecv_iff] at none_
      exact not_not.mp none_
    have done : Socket.recvfrom len net sock =
        some (net, sock, .bytes (if t.isActive then -11 else 0) [] none) := by
      simp only [Socket.recvfrom, conn.stream, got, map_some, if_neg none_]
      split <;> rfl
    obtain ⟨s', answered, next⟩ :=
      conn_withSocket polledConn done got rfl conn.stream (account · _)
    rw [empty, List.take_nil]
    exact ⟨s', t, answered, next, rfl, empty.trans List.drop_nil.symm⟩

def Socket.polled (sock : Socket) (t : Tcp) : Socket :=
  if sock.connecting ∧ t.state = .established then { sock with connecting := false } else sock

theorem polled_handle (sock : Socket) (t : Tcp) : (sock.polled t).handle = sock.handle := by
  unfold Socket.polled
  split <;> rfl

def Socket.pollReply (sock : Socket) (t : Tcp) : Reply :=
  if sock.connecting then
    if t.state = .established then .events false true false false
    else if t.failed then .events false true true false
    else .events false false false false
  else .events t.canRecv t.canSend false (!t.isActive && !t.isListening)

theorem pollSocket_stream (stream : sock.sockType = .tcpStream) (got : net.tcp sock.handle = some t)
    (room : Bool) :
    Socket.pollSocket room net sock = some (net, sock.polled t, sock.pollReply t) := by
  cases pending : sock.connecting <;> cases state : t.state <;>
    simp [Socket.pollSocket, Socket.polled, Socket.pollReply, Tcp.failed, stream, got, pending,
      state]

theorem conn_pollSocket (conn : Conn s fd sock t) (room : Bool) :
    ∃ s', s.call (.pollSocket fd room) = some (s', sock.pollReply t) ∧
      Conn s' fd (sock.polled t) t := by
  have account : ∀ s' r, s.withSocket fd (.events false false false false)
      (Socket.pollSocket room) = some (s', r) → ∃ leaked, Accounted s' leaked :=
    fun s' r done => call_keeps_account conn.accounted (c := .pollSocket fd room) done
  have done := pollSocket_stream conn.stream conn.tcp room
  have kept : (sock.polled t).handle = sock.handle ∧ (sock.polled t).fd = sock.fd ∧
      (sock.polled t).sockType = sock.sockType := by
    unfold Socket.polled
    split <;> exact ⟨rfl, rfl, rfl⟩
  refine conn_withSocket conn done ?_ kept.2.1 (kept.2.2.trans conn.stream) (account · _)
  rw [kept.1]
  exact conn.tcp

def Socket.asked (sock : Socket) (t : Tcp) : Socket :=
  if sock.connecting ∧ (t.state = .established ∨ t.failed) then { sock with connecting := false }
  else sock

theorem asked_handle (sock : Socket) (t : Tcp) : (sock.asked t).handle = sock.handle := by
  unfold Socket.asked
  split <;> rfl

def Socket.errorValue (sock : Socket) (t : Tcp) : Int :=
  if sock.connecting ∧ t.failed then 111 else 0

theorem soError_stream (stream : sock.sockType = .tcpStream) (got : net.tcp sock.handle = some t) :
    Socket.soError net sock = some (net, sock.asked t, sock.errorValue t) := by
  cases pending : sock.connecting <;> cases state : t.state <;>
    simp [Socket.soError, Socket.asked, Socket.errorValue, Tcp.failed, stream, got, pending, state]

theorem conn_getsockopt (conn : Conn s fd sock t) (level optname : Int) (len : Nat) :
    ∃ s', s.call (.getsockopt fd level optname (some len)) =
        some (s', .option (Socket.optionWords level optname len (sock.errorValue t))) ∧
      Conn s' fd (sock.asked t) t := by
  have account : ∀ s' r, s.withSocket fd (.code (-9)) (Socket.getsockopt level optname len) =
      some (s', r) → ∃ leaked, Accounted s' leaked :=
    fun s' r done => call_keeps_account conn.accounted
      (c := .getsockopt fd level optname (some len)) done
  have error := soError_stream conn.stream conn.tcp
  have done : Socket.getsockopt level optname len s.net sock = some (s.net, sock.asked t,
      .option (Socket.optionWords level optname len (sock.errorValue t))) := by
    simp [Socket.getsockopt, error]
  have kept : (sock.asked t).handle = sock.handle ∧ (sock.asked t).fd = sock.fd ∧
      (sock.asked t).sockType = sock.sockType := by
    unfold Socket.asked
    split <;> exact ⟨rfl, rfl, rfl⟩
  refine conn_withSocket conn done ?_ kept.2.1 (kept.2.2.trans conn.stream) (account · _)
  rw [kept.1]
  exact conn.tcp

end Conn

def State.connAt (s : State) (fd : Int) (P : Socket → Tcp → Bool) : Bool :=
  (s.find fd).any fun place => (s.net.tcp place.2.1.handle).any fun t => P place.2.1 t

theorem connAt_spec {s : State} {fd : Int} {P : Socket → Tcp → Bool} (at_ : s.connAt fd P = true) :
    ∃ sock t, (∃ before after, s.find fd = some (before, sock, after)) ∧
      s.net.tcp sock.handle = some t ∧ P sock t = true := by
  obtain ⟨⟨before, sock, after⟩, found, rest⟩ := (any_eq_true _ _).mp at_
  obtain ⟨t, got, holds⟩ := (any_eq_true _ _).mp rest
  exact ⟨sock, t, ⟨before, after, found⟩, got, holds⟩

end TynKernel.Net
