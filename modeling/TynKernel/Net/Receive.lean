import TynKernel.Net.Connection

/-!
The stream that recvfrom returns. The bytes come in the order of the peer, whatever the
segments and the sizes of the reads are.
-/
namespace TynKernel.Net
open List Runs
open Sockets (SockType)

section
variable [Stack]

def Receiving (fd : Int) : Action → Bool
  | .call (.recvfrom fd' _) => fd' = fd
  | .call (.pollSocket fd' _) => fd' = fd
  | .call _ => false
  | .accepting _ => false
  | .poll => true
  | .tcp _ _ => true
  | .datagram _ _ _ => true

def arrival (h : Nat) (e : State × Action) : List UInt8 :=
  match e.2 with
  | .tcp h' (.data bytes) => if h' = h ∧ e.1.established h then bytes else []
  | _ => []

def returnedBy (e : State × Action) : List UInt8 :=
  match e.2 with
  | .call c =>
    match e.1.call c with
    | some (_, .bytes _ data _) => data
    | _ => []
  | _ => []

def arrived (h : Nat) (past : List (State × Action)) : List UInt8 :=
  past.reverse.flatMap (arrival h)

def returned (past : List (State × Action)) : List UInt8 := past.reverse.flatMap returnedBy

def Finished (h : Nat) (past : List (State × Action)) : Prop :=
  ∃ e ∈ past, e.2 = .tcp h .fin ∧ e.1.established h = true

def EofReported (s : State) (fd : Int) : Prop :=
  (∀ len, ∃ s', s.call (.recvfrom fd len) = some (s', .bytes 0 [] none)) ∧
    ∀ room, ∃ s' pollIn pollOut pollErr pollHup, s.call (.pollSocket fd room) =
      some (s', .events pollIn pollOut pollErr pollHup) ∧ (pollIn = true ∨ pollHup = true)

theorem arrived_cons (h : Nat) (e : State × Action) (past : List (State × Action)) :
    arrived h (e :: past) = arrived h past ++ arrival h e := by
  simp [arrived]

theorem returned_cons (e : State × Action) (past : List (State × Action)) :
    returned (e :: past) = returned past ++ returnedBy e := by
  simp [returned]

def Tcp.opened (t : Tcp) : Bool :=
  t.state = .established ∨ t.state = .closeWait ∨ t.state = .closed

theorem opened_cases {t : Tcp} (opened : t.opened = true) :
    t.state = .established ∨ t.state = .closeWait ∨ t.state = .closed :=
  of_decide_eq_true opened

theorem on_opened {t : Tcp} (opened : t.opened = true) (event : TcpEvent) :
    (t.on event).opened = true ∧
      (t.on event).rx = t.rx ++ t.state.delivered event ∧
      (t.state ≠ .established → (t.on event).state ≠ .established) ∧
      (event = .fin → (t.on event).state ≠ .established) := by
  rw [Stack.on_rx t event (opened_cases opened)]
  rcases opened_cases opened with state | state | state <;> cases event <;>
    simp [Stack.on_state, TcpState.next, Tcp.opened, state]

section Run
variable {s s' : State} {fd : Int} {sock : Socket} {t : Tcp}

theorem receiving_step (conn : Conn s fd sock t) (opened : t.opened = true) {action : Action}
    (receiving : Receiving fd action = true) (taken : step s action = some s') :
    ∃ sock' t', Conn s' fd sock' t' ∧ sock'.handle = sock.handle ∧ t'.opened = true ∧
      t.rx ++ arrival sock.handle (s, action) = returnedBy (s, action) ++ t'.rx ∧
      (t.state ≠ .established → t'.state ≠ .established) ∧
      (action = .tcp sock.handle .fin → t'.state ≠ .established) := by
  have quiet : ∀ sock', Conn s' fd sock' t → sock'.handle = sock.handle →
      arrival sock.handle (s, action) = [] → returnedBy (s, action) = [] →
      action ≠ .tcp sock.handle .fin → ∃ sock' t', Conn s' fd sock' t' ∧
        sock'.handle = sock.handle ∧ t'.opened = true ∧
        t.rx ++ arrival sock.handle (s, action) = returnedBy (s, action) ++ t'.rx ∧
        (t.state ≠ .established → t'.state ≠ .established) ∧
        (action = .tcp sock.handle .fin → t'.state ≠ .established) := by
    intro sock' next same none_ nothing other
    refine ⟨sock', t, next, same, opened, ?_, id, fun isFin => absurd isFin other⟩
    rw [none_, nothing, append_nil, nil_append]
  cases action with
  | call c =>
    cases c with
    | recvfrom fd' len =>
      have own : fd' = fd := of_decide_eq_true receiving
      subst own
      obtain ⟨s'', t', done, next, state, rest⟩ := conn_recvfrom conn len
      rw [step, done] at taken
      cases taken
      refine ⟨sock, t', next, rfl, ?_, ?_, ?_, fun isFin => by cases isFin⟩
      · rw [Tcp.opened, state]
        exact opened
      · simp [arrival, returnedBy, done, rest]
      · rw [state]
        exact id
    | pollSocket fd' room =>
      have own : fd' = fd := of_decide_eq_true receiving
      subst own
      obtain ⟨s'', done, next⟩ := conn_pollSocket conn room
      rw [step, done] at taken
      cases taken
      refine quiet (sock.polled t) next (polled_handle sock t) rfl ?_ (fun isFin => by cases isFin)
      simp only [returnedBy, done, Socket.pollReply]
      split
      · rename_i bytes
        split at bytes
        · split at bytes
          · cases bytes
          · split at bytes <;> cases bytes
        · cases bytes
      · rfl
    | _ => cases receiving
  | accepting => cases receiving
  | poll =>
    obtain ⟨net, polled, same⟩ := Option.map_eq_some_iff.mp taken
    subst same
    exact quiet sock (conn_poll conn polled) rfl rfl rfl (fun isFin => by cases isFin)
  | datagram =>
    exact quiet sock (conn_datagram conn taken) rfl rfl rfl (fun isFin => by cases isFin)
  | tcp h event =>
    have next := conn_tcp conn taken
    by_cases own : h = sock.handle
    · subst own
      rw [if_pos rfl] at next
      obtain ⟨opened', rx, ended, fin⟩ := on_opened opened event
      refine ⟨sock, _, next, rfl, opened', ?_, ended, ?_⟩
      · have here := conn_established conn
        rw [rx]
        simp only [returnedBy, nil_append]
        rcases opened_cases opened with state | state | state <;> cases event <;>
          simp [arrival, here, state, TcpState.delivered]
      · intro isFin
        cases isFin
        exact fin rfl
    · rw [if_neg own] at next
      refine quiet sock next rfl ?_ rfl ?_
      · cases event <;> simp [arrival, own]
      · intro isFin
        cases isFin
        exact own rfl

end Run

theorem eof_iff {s : State} {fd : Int} {sock : Socket} {t : Tcp} (conn : Conn s fd sock t)
    (opened : t.opened = true) (ended : t.state ≠ .established) (drained : t.rx = []) :
    EofReported s fd ↔ t.state = .closed ∧ sock.connecting = false := by
  have empty : t.canRecv = false := by simp [← Bool.not_eq_true, Stack.canRecv_iff, drained]
  have code : ∀ len, t.recvCode len = if t.isActive then -11 else 0 := by
    intro len
    rw [Tcp.recvCode, empty]
    rfl
  rcases opened_cases opened with state | state | state
  · exact absurd state ended
  · have active : t.isActive = true := by simp [Stack.isActive_iff, state]
    constructor
    · rintro ⟨reads, _⟩
      obtain ⟨s', done⟩ := reads 1
      obtain ⟨s'', _, done', _⟩ := conn_recvfrom conn 1
      rw [done, code, active] at done'
      cases done'
    · rintro ⟨closed, _⟩
      rw [state] at closed
      cases closed
  · have inactive : t.isActive = false := by
      simp [← Bool.not_eq_true, Stack.isActive_iff, state]
    have failed : t.failed = true := by simp [Tcp.failed, state]
    have reads : ∀ len, ∃ s', s.call (.recvfrom fd len) = some (s', .bytes 0 [] none) := by
      intro len
      obtain ⟨s', _, done, _⟩ := conn_recvfrom conn len
      rw [code, inactive, drained, take_nil] at done
      exact ⟨s', done⟩
    constructor
    · rintro ⟨_, polls⟩
      refine ⟨state, ?_⟩
      by_contra pending
      have pending : sock.connecting = true := by simpa using pending
      obtain ⟨s', pollIn, pollOut, pollErr, pollHup, done, readable⟩ := polls true
      obtain ⟨s'', done', _⟩ := conn_pollSocket conn true
      rw [done, Socket.pollReply, if_pos pending, if_neg ended, if_pos failed] at done'
      cases done'
      rcases readable with no | no <;> cases no
    · rintro ⟨_, settled⟩
      refine ⟨reads, ?_⟩
      intro room
      obtain ⟨s', done, _⟩ := conn_pollSocket conn room
      refine ⟨s', t.canRecv, t.canSend, false, !t.isActive && !t.isListening, ?_, .inr ?_⟩
      · rw [done, Socket.pollReply, settled]
        rfl
      · simp [inactive, ← Bool.not_eq_true, Stack.isListening_iff, state]

theorem recvCode_counts (t : Tcp) (len : Nat) : t.recvCode len = (t.rx.take len).length ∨
    t.recvCode len < 0 ∧ t.rx.take len = [] := by
  rw [Tcp.recvCode]
  split
  · left
    rfl
  rename_i empty
  have empty : t.rx = [] := by
    rw [Stack.canRecv_iff] at empty
    exact not_not.mp empty
  rw [empty, take_nil]
  split
  · right
    exact ⟨by decide, rfl⟩
  · left
    rfl

/-- For a connected stream, with any events of the network, reads and polls: the bytes that have
    arrived are those that were returned, in order, and those in the buffer. Once the peer has
    ended and the buffer is empty, the end is reported if and only if the connection was reset
    since and no connect is pending. -/
theorem recv_stream_law (setup : Setup) (earlier : List (State × Action)) (s₀ : State) (fd : Int)
    (sock₀ : Socket) (t₀ : Tcp) (reached : Run step (initial setup) earlier s₀)
    (found : ∃ before after, s₀.find fd = some (before, sock₀, after))
    (got : s₀.net.tcp sock₀.handle = some t₀) (stream : sock₀.sockType = .tcpStream)
    (connected : t₀.state = .established ∨ t₀.state = .closeWait)
    (past : List (State × Action)) (s : State) (run : Run step s₀ past s)
    (receiving : ∀ e ∈ past, Receiving fd e.2 = true) :
    ∃ sock t, (∃ before after, s.find fd = some (before, sock, after)) ∧
      s.net.tcp sock.handle = some t ∧
      t₀.rx ++ arrived sock₀.handle past = returned past ++ t.rx ∧
      (∀ len, ∃ s' n, s.call (.recvfrom fd len) = some (s', .bytes n (t.rx.take len) none) ∧
        (n = (t.rx.take len).length ∨ n < 0 ∧ t.rx.take len = [])) ∧
      (t₀.state = .closeWait ∨ Finished sock₀.handle past → t.rx = [] →
        (EofReported s fd ↔ t.state = .closed ∧ sock.connecting = false)) := by
  have start : Conn s₀ fd sock₀ t₀ := ⟨⟨_, run_accounted reached⟩, found, got, stream⟩
  have whole : ∃ sock t, Conn s fd sock t ∧ sock.handle = sock₀.handle ∧ t.opened = true ∧
      t₀.rx ++ arrived sock₀.handle past = returned past ++ t.rx ∧
      (t₀.state = .closeWait ∨ Finished sock₀.handle past → t.state ≠ .established) := by
    induction run with
    | nil =>
      refine ⟨sock₀, t₀, start, rfl, ?_, by simp [arrived, returned], ?_⟩
      · rcases connected with state | state <;> simp [Tcp.opened, state]
      · rintro (state | ⟨e, member, _⟩)
        · rw [state]
          decide
        · cases member
    | @snoc past s s' action before taken ih =>
      rw [forall_mem_cons] at receiving
      obtain ⟨sock, t, conn, same, opened, law, ended⟩ := ih receiving.2
      obtain ⟨sock', t', next, same', opened', one, kept, fin⟩ :=
        receiving_step conn opened receiving.1 taken
      rw [same] at one fin
      refine ⟨sock', t', next, same'.trans same, opened', ?_, ?_⟩
      · rw [arrived_cons, returned_cons, ← append_assoc, law, append_assoc, one,
          append_assoc]
      rintro (state | ⟨e, member, isFin, here⟩)
      · exact kept (ended (.inl state))
      · rcases mem_cons.mp member with now | earlier
        · subst now
          exact fin isFin
        · exact kept (ended (.inr ⟨e, earlier, isFin, here⟩))
  obtain ⟨sock, t, conn, _, opened, law, ended⟩ := whole
  refine ⟨sock, t, conn.found, conn.tcp, law, ?_, ?_⟩
  · intro len
    obtain ⟨s', _, done, _⟩ := conn_recvfrom conn len
    exact ⟨s', _, done, recvCode_counts t len⟩
  · intro finished drained
    exact eof_iff conn opened (ended finished) drained

end

def clientSteps : List Action :=
  [.call (.socket 2 1), .call (.connect 500 ⟨2, 80, 1⟩ true), .tcp 0 .ack,
    .call (.getsockopt 500 1 4 (some 4))]

theorem recv_stream_reset : ∃ earlier s₀ past s, Run step (initial .fixed) earlier s₀ ∧
    Run step s₀ past s ∧ Finished 0 past ∧ arrived 0 past = returned past ∧ EofReported s 500 := by
  obtain ⟨earlier, s₀, reached, _, opened⟩ := run_of_exec (fun _ _ => true) step (initial .fixed)
    clientSteps
    (fun s => s.connAt 500 (fun sock t => sock.handle = 0 ∧ sock.sockType = .tcpStream ∧
        t.state = .established ∧ t.rx = []) &&
      (exec (fun _ a => Receiving 500 a) step s [.tcp 0 (.data [104, 105]),
        .call (.recvfrom 500 1), .tcp 0 (.data [33]), .call (.pollSocket 500 true),
        .call (.recvfrom 500 16)]).any fun w => w.established 0 &&
          (step w (.tcp 0 .fin)).any fun mid =>
            (exec (fun _ a => Receiving 500 a) step mid [.tcp 0 .rst]).any fun s =>
              s.connAt 500 fun sock t => t.rx = [] ∧ t.state = .closed ∧ sock.connecting = false)
    (by decide)
  rw [Bool.and_eq_true] at opened
  obtain ⟨sock₀, t₀, found, got, holds⟩ := connAt_spec opened.1
  obtain ⟨handle, stream, connected, empty⟩ := of_decide_eq_true holds
  obtain ⟨later, w, before, s, run, here, first, second, ends⟩ :=
    run_through _ _ step s₀ _ _ _ _ _ opened.2
  have receiving : ∀ e ∈ later ++ (w, .tcp 0 .fin) :: before,
      Receiving 500 e.2 = true :=
    forall_mem_append.mpr ⟨second, forall_mem_cons.mpr ⟨rfl, first⟩⟩
  have finished : Finished 0 (later ++ (w, .tcp 0 .fin) :: before) :=
    ⟨_, mem_append_right _ mem_cons_self, rfl, here⟩
  obtain ⟨sock, t, found', got', law, _, ended⟩ := recv_stream_law .fixed earlier s₀ 500 sock₀ t₀
    reached found got stream (.inl connected) _ s run receiving
  obtain ⟨sock', t', ⟨b, a, found''⟩, got'', holds'⟩ := connAt_spec ends
  obtain ⟨drained, closed, settled⟩ := of_decide_eq_true holds'
  obtain ⟨b', a', found'⟩ := found'
  rw [found'] at found''
  cases found''
  rw [got'] at got''
  cases got''
  rw [handle] at law ended
  refine ⟨earlier, s₀, _, s, reached, run, finished, ?_, ?_⟩
  · rw [empty, drained, nil_append, append_nil] at law
    exact law
  · exact (ended (.inr finished) drained).mpr ⟨closed, settled⟩

/-- The peer sends and ends. When everything was read, a read asks to try again and a poll has
    the socket neither readable nor hung up. -/
theorem recv_after_fin_tries_again : ∃ earlier s₀ past s, Run step (initial .fixed) earlier s₀ ∧
    Run step s₀ past s ∧ (∀ e ∈ past, Receiving 500 e.2 = true) ∧ Finished 0 past ∧
    (s.call (.recvfrom 500 16)).map Prod.snd = some (.bytes (-11) [] none) ∧
    (s.call (.pollSocket 500 true)).map Prod.snd = some (.events false true false false) := by
  obtain ⟨earlier, s₀, reached, _, opened⟩ := run_of_exec (fun _ _ => true) step (initial .fixed)
    clientSteps
    (fun s => (exec (fun _ a => Receiving 500 a) step s [.tcp 0 (.data [104, 105])]).any fun w =>
      w.established 0 && (step w (.tcp 0 .fin)).any fun mid =>
        (exec (fun _ a => Receiving 500 a) step mid [.call (.recvfrom 500 16)]).any fun s =>
          (s.call (.recvfrom 500 16)).map Prod.snd = some (.bytes (-11) [] none) ∧
          (s.call (.pollSocket 500 true)).map Prod.snd = some (.events false true false false))
    (by decide)
  obtain ⟨later, w, before, s, run, here, first, second, ends⟩ :=
    run_through _ _ step s₀ _ _ _ _ _ opened
  refine ⟨earlier, s₀, _, s, reached, run, ?_, ?_, of_decide_eq_true ends⟩
  · exact forall_mem_append.mpr ⟨second, forall_mem_cons.mpr ⟨rfl, first⟩⟩
  · exact ⟨_, mem_append_right _ mem_cons_self, rfl, here⟩

end TynKernel.Net
