import TynKernel.Net.Connection

/-!
The outcome of a connect that was under way. It is read from the state that the connection has
when it is asked for and from a flag that the first look clears, whatever was looked for.
-/
namespace TynKernel.Net
open List Option Runs
open Sockets (SockType)

section
variable [Stack]

def Polls (fd : Int) : Action → Bool
  | .call (.pollSocket fd' _) => fd' = fd
  | _ => false

def Asks (fd : Int) : Action → Bool
  | .call (.getsockopt fd' _ _ (some _)) => fd' = fd
  | _ => false

/-- Polls and questions for options on one socket, while the network does what it wants, except
    that no peer opens a connection from its own side at the same time. -/
def Attempting (fd : Int) (h : Nat) (s : State) : Action → Bool
  | .call (.pollSocket fd' _) => fd' = fd
  | .call (.getsockopt fd' _ _ _) => fd' = fd
  | .call _ => false
  | .accepting _ => false
  | .poll => true
  | .tcp h' (.syn _) => ¬ (h' = h ∧ (s.net.tcp h).any fun t => t.state = .synSent)
  | .tcp _ _ => true
  | .datagram _ _ _ => true

def State.connFailed (s : State) (h : Nat) : Bool := (s.net.tcp h).any Tcp.failed

def Completed (h : Nat) (past : List (State × Action)) (s : State) : Prop :=
  s.established h = true ∨ ∃ e ∈ past, e.1.established h = true

def Resolved (h : Nat) (s : State) : Prop :=
  ∃ t, s.net.tcp h = some t ∧ t.state ≠ .synSent

def Seen (fd : Int) (h : Nat) (past : List (State × Action)) : Prop :=
  ∃ e ∈ past, (Polls fd e.2 = true ∨ Asks fd e.2 = true) ∧ e.1.established h = true

def Consumed (fd : Int) (h : Nat) (past : List (State × Action)) : Prop :=
  ∃ e ∈ past, Asks fd e.2 = true ∧ e.1.connFailed h = true

/-- The outcome can still be told: a completed connection was seen, or has not been left; and
    nothing was asked for since a failure. -/
def Tellable (fd : Int) (h : Nat) (past : List (State × Action)) (s : State) : Prop :=
  (Completed h past s → Seen fd h past ∨ Consumed fd h past ∨ s.connFailed h = false) ∧
    (¬ Completed h past s → ¬ Consumed fd h past)

theorem connectStream_started
    (done : Socket.connectStream remote routed net sock = some (net', sock', .code (-115))) :
    sock'.fd = sock.fd ∧ sock'.sockType = .tcpStream ∧ sock'.connecting = true ∧
      ∃ t, net'.tcp sock'.handle = some t ∧ t.state = .synSent := by
  obtain ⟨t, got, result⟩ := map_eq_some_iff.mp done
  split at result
  · rename_i t' opened
    obtain ⟨rfl, rest⟩ := Prod.mk.inj result
    obtain ⟨rfl, _⟩ := Prod.mk.inj rest
    refine ⟨(bindEphemeral_kept net sock).fd, rfl, rfl, t', ?_, ?_⟩
    · rw [tcp_put, if_pos rfl]
    · exact (Stack.connect_some _ _ _ _ _ opened).2
  · obtain ⟨_, rest⟩ := Prod.mk.inj result
    obtain ⟨_, code⟩ := Prod.mk.inj rest
    cases code

theorem connect_started (accounted : ∃ leaked, Accounted s leaked)
    (called : s.call (.connect fd addr routed) = some (s₀, .code (-115))) :
    ∃ sock t, Conn s₀ fd sock t ∧ sock.connecting = true ∧ t.state = .synSent := by
  have accounted' := call_keeps_account accounted called
  rw [State.call] at called
  split at called
  · cases called
  unfold State.withSocket at called
  split at called
  · cases called
  rename_i before sock after found
  obtain ⟨⟨net, sock', r⟩, done, same⟩ := map_eq_some_iff.mp called
  obtain ⟨rfl, rfl⟩ := Prod.mk.inj same
  have streamed : Socket.connectStream ⟨addr.addr, addr.port⟩ routed s.net sock =
      some (net, sock', .code (-115)) := by
    unfold Socket.connect at done
    split at done
    · obtain ⟨bound, _, result⟩ := map_eq_some_iff.mp done
      cases result
    · exact done
    · exact done
  obtain ⟨number, stream, connecting, t, got, state⟩ := connectStream_started streamed
  exact ⟨sock', t, ⟨accounted', ⟨before, after, find_replace found rfl number⟩, got, stream⟩,
    connecting, state⟩

def Tcp.attempted (t : Tcp) : Bool :=
  t.state = .synSent ∨ t.state = .established ∨ t.state = .closeWait ∨ t.state = .closed

theorem attempted_cases {t : Tcp} (attempted : t.attempted = true) :
    t.state = .synSent ∨ t.state = .established ∨ t.state = .closeWait ∨ t.state = .closed :=
  of_decide_eq_true attempted

theorem on_attempted {t : Tcp} (attempted : t.attempted = true)
    (single : t.state = .synSent → ∀ remote, event ≠ .syn remote) :
    (t.on event).attempted = true ∧
      ((t.on event).state = .synSent → t.state = .synSent) ∧
      ((t.on event).state = .closeWait → t.state = .closeWait ∨ t.state = .established) := by
  rcases attempted_cases attempted with state | state | state | state <;> cases event <;>
    simp [Stack.on_state, TcpState.next, Tcp.attempted, state] at single ⊢

theorem polled_connecting (sock : Socket) (t : Tcp) : (sock.polled t).connecting = true ↔
    sock.connecting = true ∧ t.state ≠ .established := by
  unfold Socket.polled
  split
  · rename_i both
    simp [both.2]
  · rename_i neither
    simp only [not_and] at neither
    exact ⟨fun pending => ⟨pending, neither pending⟩, And.left⟩

theorem asked_connecting (sock : Socket) (t : Tcp) : (sock.asked t).connecting = true ↔
    sock.connecting = true ∧ t.state ≠ .established ∧ t.failed = false := by
  unfold Socket.asked
  split
  · rename_i both
    rcases both.2 with state | failed
    · simp [state]
    · simp [failed]
  · rename_i neither
    simp only [not_and, not_or, Bool.not_eq_true] at neither
    exact ⟨fun pending => ⟨pending, neither pending⟩, And.left⟩

structure Attempt (fd : Int) (h : Nat) (past : List (State × Action)) (s : State) (sock : Socket)
    (t : Tcp) : Prop where
  conn : Conn s fd sock t
  handle : sock.handle = h
  attempted : t.attempted = true
  pending : sock.connecting = true ↔ ¬ Seen fd h past ∧ ¬ Consumed fd h past
  fresh : t.state = .synSent → ∀ e ∈ past, e.1.established h = false
  ended : t.state = .closeWait → ∃ e ∈ past, e.1.established h = true

section Attempt
variable {fd : Int} {h : Nat} {past : List (State × Action)} {s s' : State} {sock sock' : Socket}
variable {t t' : Tcp} {action : Action}

theorem seen_cons (e : State × Action) : Seen fd h (e :: past) ↔
    (Polls fd e.2 = true ∨ Asks fd e.2 = true) ∧ e.1.established h = true ∨ Seen fd h past := by
  rw [Seen, exists_mem_cons_iff]
  rfl

theorem consumed_cons (e : State × Action) : Consumed fd h (e :: past) ↔
    Asks fd e.2 = true ∧ e.1.connFailed h = true ∨ Consumed fd h past := by
  rw [Consumed, exists_mem_cons_iff]
  rfl

section
variable (attempt : Attempt fd h past s sock t)
include attempt

theorem attempt_established :
    s.established h = decide (t.state = .established) := by
  rw [← attempt.handle]
  exact conn_established attempt.conn

theorem attempt_failed : s.connFailed h = t.failed := by
  rw [State.connFailed, ← attempt.handle, attempt.conn.tcp, any_some]

theorem attempt_next (next : Conn s' fd sock' t')
    (handle : sock'.handle = sock.handle) (attempted : t'.attempted = true)
    (pending : sock'.connecting = true ↔ sock.connecting = true ∧
      ¬ ((Polls fd action = true ∨ Asks fd action = true) ∧ t.state = .established) ∧
      ¬ (Asks fd action = true ∧ t.failed = true))
    (fresh : t'.state = .synSent → t.state = .synSent)
    (ended : t'.state = .closeWait → t.state = .closeWait ∨ t.state = .established) :
    Attempt fd h ((s, action) :: past) s' sock' t' := by
  have here := attempt_established attempt
  have failed := attempt_failed attempt
  refine ⟨next, handle.trans attempt.handle, attempted, ?_, ?_, ?_⟩
  · rw [pending, attempt.pending, seen_cons, consumed_cons]
    simp only [here, failed, decide_eq_true_eq, not_or]
    tauto
  · intro state
    rw [forall_mem_cons]
    refine ⟨?_, attempt.fresh (fresh state)⟩
    rw [here, fresh state]
    rfl
  · intro state
    rw [exists_mem_cons_iff]
    rcases ended state with before | now
    · right
      exact attempt.ended before
    · left
      rw [here, now]
      rfl

theorem attempt_quiet (next : Conn s' fd sock t')
    (attempted : t'.attempted = true) (noPoll : Polls fd action = false)
    (noAsk : Asks fd action = false) (fresh : t'.state = .synSent → t.state = .synSent)
    (ended : t'.state = .closeWait → t.state = .closeWait ∨ t.state = .established) :
    Attempt fd h ((s, action) :: past) s' sock t' :=
  attempt_next attempt next rfl attempted (by simp [noPoll, noAsk]) fresh ended

theorem attempt_tcp {h' : Nat} (attempting : Attempting fd h s (.tcp h' event) = true)
    (taken : step s (.tcp h' event) = some s') :
    ∃ sock' t', Attempt fd h ((s, .tcp h' event) :: past) s' sock' t' := by
  have next := conn_tcp attempt.conn taken
  by_cases own : h' = sock.handle
  · rw [if_pos own] at next
    have single : t.state = .synSent → ∀ remote, event ≠ .syn remote := by
      rintro state remote rfl
      have refused := of_decide_eq_true attempting
      rw [← attempt.handle] at refused
      refine refused ⟨own, ?_⟩
      rw [attempt.conn.tcp, any_some, state]
      rfl
    obtain ⟨attempted, fresh, ended⟩ := on_attempted attempt.attempted single
    exact ⟨sock, _, attempt_quiet attempt next attempted rfl rfl fresh ended⟩
  · rw [if_neg own] at next
    exact ⟨sock, t, attempt_quiet attempt next attempt.attempted rfl rfl id .inl⟩

theorem attempt_step
    (attempting : Attempting fd h s action = true) (taken : step s action = some s') :
    ∃ sock' t', Attempt fd h ((s, action) :: past) s' sock' t' := by
  cases action with
  | call c =>
    cases c with
    | pollSocket fd' room =>
      have own : fd' = fd := of_decide_eq_true attempting
      subst own
      obtain ⟨s'', done, next⟩ := conn_pollSocket attempt.conn room
      rw [step, done] at taken
      cases taken
      refine ⟨_, t, attempt_next attempt next (polled_handle sock t) attempt.attempted ?_ id .inl⟩
      rw [polled_connecting]
      simp [Polls, Asks]
    | getsockopt fd' level optname len =>
      have own : fd' = fd := of_decide_eq_true attempting
      subst own
      cases len with
      | none =>
        cases taken
        exact ⟨sock, t, attempt_quiet attempt attempt.conn attempt.attempted rfl rfl id .inl⟩
      | some len =>
        obtain ⟨s'', done, next⟩ := conn_getsockopt attempt.conn level optname len
        rw [step, done] at taken
        cases taken
        refine ⟨_, t, attempt_next attempt next (asked_handle sock t) attempt.attempted ?_ id .inl⟩
        rw [asked_connecting]
        simp [Polls, Asks]
    | _ => cases attempting
  | accepting => cases attempting
  | poll =>
    obtain ⟨net, polled, same⟩ := map_eq_some_iff.mp taken
    subst same
    exact ⟨sock, t, attempt_quiet attempt (conn_poll attempt.conn polled) attempt.attempted rfl rfl
      id .inl⟩
  | datagram =>
    exact ⟨sock, t, attempt_quiet attempt (conn_datagram attempt.conn taken) attempt.attempted rfl
      rfl id .inl⟩
  | tcp => exact attempt_tcp attempt attempting taken

end

theorem attempt_run (start : ∃ sock t, Attempt fd h [] s₀ sock t) (run : Run step s₀ past s)
    (attempting : ∀ e ∈ past, Attempting fd h e.1 e.2 = true) :
    ∃ sock t, Attempt fd h past s sock t := by
  induction run with
  | nil => exact start
  | snoc before taken ih =>
    rw [forall_mem_cons] at attempting
    obtain ⟨sock, t, attempt⟩ := ih attempting.2
    exact attempt_step attempt attempting.1 taken

theorem errorValue_iff (attempt : Attempt fd h past s sock t) (resolved : Resolved h s) :
    ((sock.errorValue t = 0 ↔ Completed h past s) ∧
      (sock.errorValue t = 111 ↔ ¬ Completed h past s)) ↔ Tellable fd h past s := by
  obtain ⟨t', got, left⟩ := resolved
  rw [← attempt.handle, attempt.conn.tcp] at got
  cases got
  have here := attempt_established attempt
  have failed := attempt_failed attempt
  have value : sock.errorValue t = 111 ↔ (sock.connecting = true ∧ t.failed = true) := by
    unfold Socket.errorValue
    split
    · rename_i both
      exact ⟨fun _ => both, fun _ => rfl⟩
    · rename_i neither
      exact ⟨fun no => absurd no (by decide), fun both => absurd both neither⟩
  have other : sock.errorValue t = 0 ↔ ¬ sock.errorValue t = 111 := by
    unfold Socket.errorValue
    split <;> decide
  unfold Tellable
  rw [other, value, attempt.pending, failed]
  by_cases completed : Completed h past s
  · simp only [completed, not_true_eq_false, iff_true, iff_false, false_implies, and_true, true_implies,
      and_self]
    rw [← Bool.not_eq_true]
    tauto
  · -- An attempt that is over without a handshake is closed.
    have closed : t.failed = true := by
      rcases attempted_cases attempt.attempted with state | state | state | state
      · exact absurd state left
      · exact absurd (.inl (here.trans (decide_eq_true state))) completed
      · exact absurd (.inr (attempt.ended state)) completed
      · simp [Tcp.failed, state]
    have unseen : ¬ Seen fd h past := by
      rintro ⟨e, member, _, established⟩
      exact completed (.inr ⟨e, member, established⟩)
    simp [completed, closed, unseen]

end Attempt

/-- After a connect that is in progress, and any events, polls and questions for options: SO_ERROR
    gives 0 exactly for a completed attempt and 111 exactly for another one, if and only if the
    outcome can still be told from the history of the looks. -/
theorem connect_outcome_tellable (setup : Setup) (earlier : List (State × Action)) (s s₀ : State)
    (fd : Int) (addr : SockAddr) (routed : Bool) (before after : List Socket) (sock : Socket)
    (reached : Run step (initial setup) earlier s)
    (called : s.call (.connect fd addr routed) = some (s₀, .code (-115)))
    (found : s₀.find fd = some (before, sock, after)) (past : List (State × Action)) (s' : State)
    (run : Run step s₀ past s')
    (attempting : ∀ e ∈ past, Attempting fd sock.handle e.1 e.2 = true)
    (resolved : Resolved sock.handle s') (len : Nat) (room : 4 ≤ len) :
    ∃ s'' value, s'.call (.getsockopt fd 1 4 (some len)) = some (s'', .option [value]) ∧
      (((value = 0 ↔ Completed sock.handle past s') ∧
        (value = 111 ↔ ¬ Completed sock.handle past s')) ↔ Tellable fd sock.handle past s') := by
  obtain ⟨sock₀, t₀, conn, connecting, state⟩ := connect_started ⟨_, run_accounted reached⟩ called
  obtain ⟨before', after', found'⟩ := conn.found
  rw [found] at found'
  cases found'
  have start : Attempt fd sock.handle [] s₀ sock t₀ := by
    refine ⟨conn, rfl, by simp [Tcp.attempted, state], ?_, by simp, ?_⟩
    · simp [connecting, Seen, Consumed]
    · rw [state]
      exact nofun
  obtain ⟨sock', t, attempt⟩ := attempt_run ⟨sock, t₀, start⟩ run attempting
  obtain ⟨s'', done, _⟩ := conn_getsockopt attempt.conn 1 4 len
  refine ⟨s'', sock'.errorValue t, ?_, errorValue_iff attempt resolved⟩
  rw [done]
  simp [Socket.optionWords, room]

end

theorem refused_connect_told : ∃ earlier s s₀ past s' s'', Run step (initial .fixed) earlier s ∧
    s.call (.connect 500 ⟨2, 80, 1⟩ true) = some (s₀, .code (-115)) ∧ Run step s₀ past s' ∧
    ¬ Completed 0 past s' ∧
    s'.call (.getsockopt 500 1 4 (some 4)) = some (s'', .option [111]) := by
  obtain ⟨earlier, s, reached, _, opened⟩ := run_of_exec (fun _ _ => true) step (initial .fixed)
    [.call (.socket 2 1)]
    (fun s => (s.call (.connect 500 ⟨2, 80, 1⟩ true)).any fun r => r.2 = .code (-115) ∧
      (r.1.find 500).any (fun place => place.2.1.handle = 0) ∧
      (exec (fun s a => Attempting 500 0 s a && !s.established 0 && !Asks 500 a) step r.1
        [.tcp 0 .rst, .call (.pollSocket 500 true)]).any fun s' =>
          !s'.established 0 && (s'.net.tcp 0).any fun t => t.state ≠ .synSent)
    (by decide)
  obtain ⟨⟨s₀, r⟩, called, both⟩ := (any_eq_true _ _).mp opened
  obtain ⟨rfl, own, more⟩ := of_decide_eq_true both
  obtain ⟨⟨before, sock, after⟩, found, handle⟩ := (any_eq_true _ _).mp own
  have handle : sock.handle = 0 := of_decide_eq_true handle
  obtain ⟨past, s', run, tested, last⟩ := run_of_exec _ step s₀ _ _ more
  simp only [Bool.and_eq_true, Bool.not_eq_true'] at tested last
  obtain ⟨t, got, left⟩ := (any_eq_true _ _).mp last.2
  have failed : ¬ Completed 0 past s' := by
    rintro (now | ⟨e, member, earlier⟩)
    · exact Bool.false_ne_true (last.1.symm.trans now)
    · exact Bool.false_ne_true ((tested e member).1.2.symm.trans earlier)
  have unasked : ¬ Consumed 500 0 past := by
    rintro ⟨e, member, asks, _⟩
    exact Bool.false_ne_true ((tested e member).2.symm.trans asks)
  obtain ⟨s'', value, done, told⟩ := connect_outcome_tellable .fixed earlier s s₀ 500 ⟨2, 80, 1⟩
    true before after sock reached called found past s' run
    (by
      rw [handle]
      exact fun e member => (tested e member).1.1)
    (by
      rw [handle]
      exact ⟨t, got, of_decide_eq_true left⟩) 4 (by decide)
  rw [handle] at told
  have value : value = 111 :=
    (told.mpr ⟨fun completed => absurd completed failed, fun _ => unasked⟩).2.mpr failed
  rw [value] at done
  exact ⟨earlier, s, s₀, past, s', s'', reached, called, run, failed, done⟩

/-- A refused attempt of which another option is asked for first is told as completed. A completed
    one whose peer ends before the first look is told as refused. -/
theorem connect_outcome_lost :
    (∃ earlier s s₀ past s' s'', Run step (initial .fixed) earlier s ∧
      s.call (.connect 500 ⟨2, 80, 1⟩ true) = some (s₀, .code (-115)) ∧ Run step s₀ past s' ∧
      (∀ e ∈ past, Attempting 500 0 e.1 e.2 = true) ∧ ¬ Completed 0 past s' ∧
      s'.call (.getsockopt 500 1 4 (some 4)) = some (s'', .option [0])) ∧
    ∃ earlier s s₀ past s' s'', Run step (initial .fixed) earlier s ∧
      s.call (.connect 500 ⟨2, 80, 1⟩ true) = some (s₀, .code (-115)) ∧ Run step s₀ past s' ∧
      (∀ e ∈ past, Attempting 500 0 e.1 e.2 = true) ∧ Completed 0 past s' ∧
      s'.call (.getsockopt 500 1 4 (some 4)) = some (s'', .option [111]) := by
  constructor
  · obtain ⟨earlier, s, reached, _, opened⟩ := run_of_exec (fun _ _ => true) step (initial .fixed)
      [.call (.socket 2 1)]
      (fun s => (s.call (.connect 500 ⟨2, 80, 1⟩ true)).any fun r => r.2 = .code (-115) ∧
        (exec (fun s a => Attempting 500 0 s a && !s.established 0) step r.1
          [.tcp 0 .rst, .call (.getsockopt 500 1 12 (some 4))]).any fun s' =>
            !s'.established 0 &&
              (s'.call (.getsockopt 500 1 4 (some 4))).any fun r => r.2 = .option [0])
      (by decide)
    obtain ⟨⟨s₀, r⟩, called, both⟩ := (any_eq_true _ _).mp opened
    obtain ⟨rfl, more⟩ := of_decide_eq_true both
    obtain ⟨past, s', run, tested, last⟩ := run_of_exec _ step s₀ _ _ more
    simp only [Bool.and_eq_true, Bool.not_eq_true'] at tested last
    obtain ⟨⟨s'', r⟩, done, value⟩ := (any_eq_true _ _).mp last.2
    obtain rfl := of_decide_eq_true value
    refine ⟨earlier, s, s₀, past, s', s'', reached, called, run, fun e m => (tested e m).1, ?_, done⟩
    rintro (now | ⟨e, member, earlier⟩)
    · exact Bool.false_ne_true (last.1.symm.trans now)
    · exact Bool.false_ne_true ((tested e member).2.symm.trans earlier)
  · obtain ⟨earlier, s, reached, _, opened⟩ := run_of_exec (fun _ _ => true) step (initial .fixed)
      [.call (.socket 2 1)]
      (fun s => (s.call (.connect 500 ⟨2, 80, 1⟩ true)).any fun r => r.2 = .code (-115) ∧
        (exec (Attempting 500 0) step r.1 [.tcp 0 .ack]).any fun w => w.established 0 &&
          (step w (.tcp 0 .fin)).any fun mid => (exec (Attempting 500 0) step mid []).any fun s' =>
            (s'.call (.getsockopt 500 1 4 (some 4))).any fun r => r.2 = .option [111])
      (by decide)
    obtain ⟨⟨s₀, r⟩, called, both⟩ := (any_eq_true _ _).mp opened
    obtain ⟨rfl, more⟩ := of_decide_eq_true both
    obtain ⟨later, w, before, s', run, here, first, second, last⟩ :=
      run_through _ _ step s₀ _ _ _ _ _ more
    obtain ⟨⟨s'', r⟩, done, value⟩ := (any_eq_true _ _).mp last
    obtain rfl := of_decide_eq_true value
    refine ⟨earlier, s, s₀, _, s', s'', reached, called, run, ?_, ?_, done⟩
    · exact forall_mem_append.mpr ⟨second, forall_mem_cons.mpr ⟨rfl, first⟩⟩
    · exact .inr ⟨_, mem_append_right _ mem_cons_self, here⟩

end TynKernel.Net
