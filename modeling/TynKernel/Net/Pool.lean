import TynKernel.Net.Accept

/-!
The pool of listeners behind a port. A scan refills the slot it takes a connection from, and
the stack takes a slot back to listening when a handshake is reset.
-/
namespace TynKernel.Net
open Arenas List Option Rows Runs
open Sockets (SockType)

section
variable [Stack] {h : Nat} {event : TcpEvent} {t t' : Tcp} {endpoint : ListenEndpoint}
  {before after : List Socket} {sock : Socket} {leaked : Owned} {net : NetState}

def Tcp.usable (t : Tcp) : Bool :=
  t.state = .listen ∨ t.state = .synReceived ∨ t.state = .established ∨ t.state = .closeWait

def State.pool (s : State) (fd : Int) : List Nat :=
  ((s.find fd).map fun found => found.2.1.slots).getD []

def Usable (s : State) (fd : Int) : Prop :=
  ∀ h ∈ s.pool fd, ∃ t, s.net.tcp h = some t ∧ t.usable = true

def Serving (fd : Int) (s : State) : Action → Bool
  | .call (.accept fd' _) => fd' = fd
  | .call _ => false
  | .accepting i => (s.accepts[i]?).all fun a => a.fd = fd
  | .poll => true
  | .tcp _ _ => true
  | .datagram _ _ _ => true

def ResetInPool (fd : Int) (s : State) : Action → Bool
  | .tcp h .rst => h ∈ s.pool fd ∧ (s.net.tcp h).any Tcp.ready
  | _ => false

theorem reset_iff (got : s.net.tcp h = some t) :
    ResetInPool fd s (.tcp h event) = true ↔
      h ∈ s.pool fd ∧ event = .rst ∧ t.ready = true := by
  cases event with
  | rst =>
    rw [ResetInPool, got, any_some, decide_eq_true_iff]
    exact ⟨fun both => ⟨both.1, rfl, both.2⟩, fun all => ⟨all.1, all.2.2⟩⟩
  | _ => simp [ResetInPool]

def Tcp.pooled (t : Tcp) : Bool := t.usable ∨ t.state = .closed

theorem pooled_cases (pooled : t.pooled = true) :
    t.state = .listen ∨ t.state = .synReceived ∨ t.state = .established ∨ t.state = .closeWait ∨
      t.state = .closed := by
  rcases of_decide_eq_true pooled with usable | closed
  · rcases of_decide_eq_true usable with state | state | state | state <;> simp [state]
  · simp [closed]

theorem on_pooled (t : Tcp) (event : TcpEvent) (pooled : t.pooled = true) :
    (t.on event).pooled = true := by
  rcases pooled_cases pooled with state | state | state | state | state <;> cases event <;>
    simp [Stack.on_state, TcpState.next, Tcp.pooled, Tcp.usable, state]

theorem on_usable (t : Tcp) (event : TcpEvent) (pooled : t.pooled = true) :
    (t.on event).usable = true ↔ t.usable = true ∧ ¬ (event = .rst ∧ t.ready = true) := by
  rcases pooled_cases pooled with state | state | state | state | state <;> cases event <;>
    simp [Stack.on_state, TcpState.next, Tcp.usable, Tcp.ready, state]

theorem ready_usable (ready : t.ready = true) : t.usable = true := by
  rcases of_decide_eq_true ready with state | state <;> simp [Tcp.usable, state]

structure Listening (s : State) (fd : Int) : Prop where
  accounted : ∃ leaked, Accounted s leaked
  port : ∀ a ∈ s.accepts, a.fd = fd → a.port ≠ 0
  found : ∃ before sock after, s.find fd = some (before, sock, after) ∧
    sock.sockType ≠ .udpDgram ∧ sock.localPort ≠ 0 ∧ sock.slots.length = listenerPoolSize ∧
    ∀ h ∈ sock.slots, ∃ t, s.net.tcp h = some t ∧ t.pooled = true

theorem fresh_listens (port : endpoint.port ≠ 0) :
    ∃ t : Tcp, ((Tcp.new 32768).listen_ endpoint).getD (Tcp.new 32768) = t ∧ t.state = .listen := by
  obtain ⟨t, listens⟩ := isSome_iff_exists.mp (Stack.new_listens 32768 endpoint port)
  rw [listens, getD_some]
  exact ⟨t, rfl, (Stack.listen_some _ _ _ listens).2.2.1⟩

theorem install_tcp (net : NetState) (endpoint : ListenEndpoint) (port : endpoint.port ≠ 0) :
    (∃ t, (net.installFreshListener endpoint).1.tcp (net.installFreshListener endpoint).2 = some t ∧
      t.state = .listen) ∧
    ∀ h t, net.tcp h = some t → (net.installFreshListener endpoint).1.tcp h = some t := by
  obtain ⟨t, value, state⟩ := fresh_listens port
  refine ⟨⟨t, tcp_iff.mpr ?_, state⟩, ?_⟩
  · rw [← value]
    exact get?_added net.set _
  · intro h t got
    exact tcp_iff.mpr (get?_add (tcp_iff.mp got))

theorem freshListeners_length (endpoint : ListenEndpoint) (n : Nat) (net : NetState) :
    (net.freshListeners endpoint n).2.length = n := by
  induction n generalizing net with
  | zero => rfl
  | succ n ih => exact congrArg (· + 1) (ih (net.installFreshListener endpoint).1)

theorem freshListeners_tcp (port : endpoint.port ≠ 0) (n : Nat) (net : NetState) :
    (∀ h ∈ (net.freshListeners endpoint n).2, ∃ t,
      (net.freshListeners endpoint n).1.tcp h = some t ∧ t.state = .listen) ∧
    ∀ h t, net.tcp h = some t → (net.freshListeners endpoint n).1.tcp h = some t := by
  induction n generalizing net with
  | zero => exact ⟨by simp [NetState.freshListeners], fun _ _ got => got⟩
  | succ n ih =>
    obtain ⟨⟨t, got, state⟩, kept⟩ := install_tcp net endpoint port
    obtain ⟨more, keptMore⟩ := ih (net.installFreshListener endpoint).1
    refine ⟨?_, ?_⟩
    · rw [NetState.freshListeners, forall_mem_cons]
      exact ⟨⟨t, keptMore _ _ got, state⟩, more⟩
    · intro h t' got'
      exact keptMore h t' (kept h t' got')

theorem find_replace {s s' : State} {fd : Int} {sock' : Socket}
    (found : s.find fd = some (before, sock, after))
    (sockets : s'.sockets = before ++ sock' :: after) (number : sock'.fd = sock.fd) :
    s'.find fd = some (before, sock', after) := by
  obtain ⟨_, test, others⟩ := focus_some found
  rw [State.find, sockets]
  refine focus_append ?_ others
  rw [number]
  exact test

theorem find_append {s s' : State} {fd : Int} {more : List Socket}
    (found : s.find fd = some (before, sock, after)) (sockets : s'.sockets = s.sockets ++ more) :
    s'.find fd = some (before, sock, after ++ more) := by
  obtain ⟨split, test, others⟩ := focus_some found
  rw [State.find, sockets, split, append_assoc, cons_append]
  exact focus_append test others

theorem listen_done {s s' : State} (done : s.call (.listen fd) = some (s', .code 0)) :
    ∃ before sock after t t' pool, s.find fd = some (before, sock, after) ∧
      s.net.tcp sock.handle = some t ∧
      t.listen_ (endpointOf sock.localAddr sock.localPort) = some t' ∧
      pool = (s.net.put sock.handle (.tcp t')).freshListeners
        (endpointOf sock.localAddr sock.localPort) (listenerPoolSize - 1) ∧
      s' = { s with
        net := pool.1
        sockets := before ++ { sock with sockType := .tcpListener, backlog := pool.2 } :: after } := by
  simp only [State.call, State.withSocket] at done
  split at done
  · cases done
  rename_i before sock after found
  obtain ⟨⟨net', sock', r⟩, inner, same⟩ := map_eq_some_iff.mp done
  obtain ⟨rfl, rfl⟩ := Prod.mk.inj same
  obtain ⟨t, got, result⟩ := map_eq_some_iff.mp inner
  split at result
  · cases (Prod.mk.inj (Prod.mk.inj result).2).2
  rename_i t' listens
  generalize made : (s.net.put sock.handle (.tcp t')).freshListeners
    (endpointOf sock.localAddr sock.localPort) (listenerPoolSize - 1) = pool at result
  cases result
  exact ⟨before, sock, after, t, t', pool, found, got, listens, made.symm, rfl⟩

theorem listen_listening {s s' : State} (accounted : Accounted s leaked)
    (quiet : ∀ a ∈ s.accepts, a.fd ≠ fd) (done : s.call (.listen fd) = some (s', .code 0)) :
    Listening s' fd ∧ Usable s' fd := by
  have typed : ¬ Mistyped s (.listen fd) = true := by
    intro mistyped
    rw [call_mistyped accounted mistyped] at done
    cases done
  obtain ⟨s'', r, same, accounted'⟩ := call_accounted accounted typed
  rw [done] at same
  cases same
  obtain ⟨before, sock, after, t, t', pool, found, got, listens, made, rfl⟩ := listen_done done
  obtain ⟨port, _, state, _⟩ := Stack.listen_some _ _ _ listens
  obtain ⟨fresh, kept⟩ := freshListeners_tcp port (listenerPoolSize - 1)
    (s.net.put sock.handle (.tcp t'))
  rw [← made] at fresh kept
  have primary : (s.net.put sock.handle (.tcp t')).tcp sock.handle = some t' := by
    rw [tcp_put, if_pos rfl]
  have slots : ∀ h ∈ sock.handle :: pool.2, ∃ t, pool.1.tcp h = some t ∧ t.state = .listen := by
    rw [forall_mem_cons]
    exact ⟨⟨t', kept _ _ primary, state⟩, fresh⟩
  have found' : State.find { s with
      net := pool.1
      sockets := before ++ { sock with sockType := .tcpListener, backlog := pool.2 } :: after } fd =
    some (before, { sock with sockType := .tcpListener, backlog := pool.2 }, after) :=
      find_replace found rfl rfl
  refine ⟨⟨⟨_, accounted'⟩, fun a member same => absurd same (quiet a member), before, _, after,
    found', nofun, port, ?_, ?_⟩, ?_⟩
  · rw [Socket.slots, length_cons, made, freshListeners_length]
    rfl
  · intro h slot
    obtain ⟨t, got, state⟩ := slots h slot
    exact ⟨t, got, by simp [Tcp.pooled, Tcp.usable, state]⟩
  · intro h slot
    rw [State.pool, found'] at slot
    obtain ⟨t, got, state⟩ := slots h slot
    exact ⟨t, got, by simp [Tcp.usable, state]⟩

section Step
variable {s s' : State} {fd : Int}

theorem pool_found (found : s.find fd = some (before, sock, after)) : s.pool fd = sock.slots := by
  rw [State.pool, found]
  rfl

theorem listening_same (listening : Listening s fd) {leaked : Owned}
    (accounted : Accounted s' leaked) (port : ∀ a ∈ s'.accepts, a.fd = fd → a.port ≠ 0)
    (entry : ∀ before sock after, s.find fd = some (before, sock, after) →
      ∃ before' after', s'.find fd = some (before', sock, after'))
    (tcp : ∀ h ∈ s.pool fd, s'.net.tcp h = s.net.tcp h) :
    Listening s' fd ∧ (Usable s' fd ↔ Usable s fd) := by
  obtain ⟨before, sock, after, found, type, bound, size, slots⟩ := listening.found
  obtain ⟨before', after', found'⟩ := entry before sock after found
  rw [pool_found found] at tcp
  refine ⟨⟨⟨leaked, accounted⟩, port, before', sock, after', found', type, bound, size, ?_⟩, ?_⟩
  · intro h slot
    rw [tcp h slot]
    exact slots h slot
  unfold Usable
  rw [pool_found found, pool_found found']
  constructor
  · intro usable h slot
    rw [← tcp h slot]
    exact usable h slot
  · intro usable h slot
    rw [tcp h slot]
    exact usable h slot

theorem listening_tcp (listening : Listening s fd) (taken : step s (.tcp h event) = some s') :
    Listening s' fd ∧
      (Usable s' fd ↔ Usable s fd ∧ ¬ ResetInPool fd s (.tcp h event) = true) := by
  obtain ⟨leaked, accounted⟩ := listening.accounted
  have accounted' := step_accounted accounted taken
  obtain ⟨before, sock, after, found, type, bound, size, slots⟩ := listening.found
  obtain ⟨t, got, same⟩ := map_eq_some_iff.mp taken
  subst same
  have found' : State.find { s with net := s.net.put h (.tcp (t.on event)) } fd =
      some (before, sock, after) := found
  have written := tcp_put s.net h (t.on event)
  refine ⟨⟨⟨_, accounted'⟩, listening.port, before, sock, after, found', type, bound, size, ?_⟩, ?_⟩
  · intro h' slot
    obtain ⟨t', got', pooled⟩ := slots h' slot
    simp only [written]
    split
    · rename_i here
      subst here
      rw [got] at got'
      cases got'
      exact ⟨_, rfl, on_pooled t event pooled⟩
    · exact ⟨t', got', pooled⟩
  · rw [reset_iff got]
    unfold Usable
    rw [pool_found found, pool_found found']
    simp only [written]
    constructor
    · intro usable
      refine ⟨?_, ?_⟩
      · intro h' slot
        obtain ⟨t', got', good⟩ := usable h' slot
        split at got'
        · rename_i here
          subst here
          cases got'
          obtain ⟨t'', got'', pooled⟩ := slots h slot
          rw [got] at got''
          cases got''
          exact ⟨t, got, ((on_usable t event pooled).mp good).1⟩
        · exact ⟨t', got', good⟩
      · rintro ⟨slot, reset⟩
        obtain ⟨t'', got'', good⟩ := usable h slot
        rw [if_pos rfl] at got''
        cases got''
        obtain ⟨t'', got'', pooled⟩ := slots h slot
        rw [got] at got''
        cases got''
        exact ((on_usable t event pooled).mp good).2 reset
    · rintro ⟨usable, noReset⟩ h' slot
      obtain ⟨t', got', good⟩ := usable h' slot
      split
      · rename_i here
        subst here
        rw [got] at got'
        cases got'
        obtain ⟨t'', got'', pooled⟩ := slots h slot
        rw [got] at got''
        cases got''
        exact ⟨_, rfl, (on_usable t event pooled).mpr ⟨good, fun reset => noReset ⟨slot, reset⟩⟩⟩
      · exact ⟨t', got', good⟩

theorem tcp_put_udp (got : net.udp h = some u) (u' : Udp) (h' : Nat) :
    (net.put h (.udp u')).tcp h' = net.tcp h' := by
  by_cases here : h = h'
  · subst here
    simp [NetState.tcp, NetState.put, get?_put, udp_iff.mp got]
  · simp [NetState.tcp, NetState.put, get?_put, if_neg here]

theorem usable_exchange {net' : NetState} {slots : List Nat} {j new : Nat}
    (place : slots[j]? = some h) (old : ∃ t, net.tcp h = some t ∧ t.usable = true)
    (fresh : ∃ t, net'.tcp new = some t ∧ t.usable = true)
    (known : ∀ h ∈ slots, ∃ t, net.tcp h = some t)
    (kept : ∀ h ∈ slots, ∀ t, net.tcp h = some t → net'.tcp h = some t) :
    (∀ h ∈ slots.set j new, ∃ t, net'.tcp h = some t ∧ t.usable = true) ↔
      ∀ h ∈ slots, ∃ t, net.tcp h = some t ∧ t.usable = true := by
  constructor
  · intro usable h' slot
    obtain ⟨k, get⟩ := mem_iff_getElem?.mp slot
    by_cases same : j = k
    · rw [← same, place] at get
      cases get
      exact old
    have there : h' ∈ slots.set j new := by
      refine mem_of_getElem? (i := k) ?_
      rw [getElem?_set_ne same]
      exact get
    obtain ⟨t, got⟩ := known h' slot
    obtain ⟨t', got', good⟩ := usable h' there
    rw [kept h' slot t got] at got'
    cases got'
    exact ⟨t, got, good⟩
  · intro usable h' slot
    rcases mem_or_eq_of_mem_set slot with other | isNew
    · obtain ⟨t, got, good⟩ := usable h' other
      exact ⟨t, kept h' other t got, good⟩
    · rw [isNew]
      exact fresh

theorem listening_scan (listening : Listening s fd) (here : s.accepts[i]? = some a)
    (scanning : a.captured = none) (own : a.fd = fd) (done : s.scan i a = some (s', r)) :
    Listening s' fd ∧ (Usable s' fd ↔ Usable s fd) := by
  subst own
  obtain ⟨leaked, accounted⟩ := listening.accounted
  obtain ⟨before, sock, after, found, type, bound, size, slots⟩ := listening.found
  have member := found_mem found
  have taken : step s (.accepting i) = some s' := by
    rw [step, here]
    simp [scanning, done]
  have accounted' := step_accounted accounted taken
  have port := listening.port a (mem_of_getElem? here) rfl
  obtain ⟨net, polled, balanced⟩ := accounted_poll accounted
  have found' : State.find { s with net := net } a.fd = some (before, sock, after) := found
  have polledTcp : ∀ h ∈ sock.slots, net.tcp h = s.net.tcp h :=
    fun h slot => poll_tcp accounted polled member slot
  unfold State.scan at done
  simp only [State.poll, polled, map_some, State.withSocket, found'] at done
  rcases scan_outcome (slots_tcp ((accounted_balanced (find_split found').1).mp balanced) type)
      (endpointOf a.addr a.port) with
    ⟨none_, _⟩ | ⟨j, h, t, sock', place, got, ready, captured, slots', _, number, type', port'⟩
  · have unchanged : before ++ sock :: after = s.sockets := (find_split found).1.symm
    simp only [none_, map_some, unchanged] at done
    rw [← pool_found found] at polledTcp
    split at done
    · cases done
      refine listening_same listening accounted' ?_ (fun b x c get => ⟨b, c, get⟩) polledTcp
      intro b inside
      exact listening.port b ((eraseIdx_sublist _ _).subset inside)
    · cases done
      exact listening_same listening accounted' listening.port (fun b x c get => ⟨b, c, get⟩)
        polledTcp
  · simp only [captured, map_some] at done
    cases done
    obtain ⟨⟨fresh, gotFresh, state⟩, kept⟩ :=
      install_tcp net (endpointOf a.addr a.port) port
    generalize (net.installFreshListener (endpointOf a.addr a.port)).1 = net' at *
    have found'' : State.find { s with
        net := net', sockets := before ++ sock' :: after
        accepts := s.accepts.set i { a with captured := some (h, t.remote) } } a.fd =
        some (before, sock', after) := find_replace found rfl number
    have slot : h ∈ sock.slots := mem_of_getElem? place
    rw [polledTcp h slot] at got
    have keptSlot : ∀ h ∈ sock.slots, ∀ t, s.net.tcp h = some t → net'.tcp h = some t := by
      intro h slot t got
      exact kept h t ((polledTcp h slot).trans got)
    refine ⟨⟨⟨_, accounted'⟩, ?_, before, sock', after, found'', ?_, ?_, ?_, ?_⟩, ?_⟩
    · intro b inside sameFd
      rcases mem_or_eq_of_mem_set inside with old | replaced
      · exact listening.port b old sameFd
      · rw [replaced]
        exact port
    · rw [type']
      exact type
    · rw [port']
      exact bound
    · rw [slots', length_set]
      exact size
    · intro h' slot'
      rw [slots'] at slot'
      rcases mem_or_eq_of_mem_set slot' with old | isNew
      · obtain ⟨t', got', pooled⟩ := slots h' old
        exact ⟨t', keptSlot h' old t' got', pooled⟩
      · rw [isNew]
        exact ⟨fresh, gotFresh, by simp [Tcp.pooled, Tcp.usable, state]⟩
    · unfold Usable
      rw [pool_found found, pool_found found'', slots']
      refine usable_exchange place ⟨t, got, ready_usable ready⟩
        ⟨fresh, gotFresh, by simp [Tcp.usable, state]⟩ ?_ keptSlot
      intro h' slot'
      obtain ⟨t', got', _⟩ := slots h' slot'
      exact ⟨t', got'⟩

theorem listening_step (listening : Listening s fd) {action : Action}
    (serving : Serving fd s action = true) (taken : step s action = some s') :
    Listening s' fd ∧ (Usable s' fd ↔ Usable s fd ∧ ¬ ResetInPool fd s action = true) := by
  obtain ⟨leaked, accounted⟩ := listening.accounted
  have accounted' := step_accounted accounted taken
  obtain ⟨before, sock, after, found, type, bound, size, slots⟩ := listening.found
  have quiet : ResetInPool fd s action = false →
      (Listening s' fd ∧ (Usable s' fd ↔ Usable s fd)) →
      Listening s' fd ∧ (Usable s' fd ↔ Usable s fd ∧ ¬ ResetInPool fd s action = true) := by
    rintro other ⟨next, same⟩
    rw [other]
    exact ⟨next, same.trans ⟨fun usable => ⟨usable, Bool.false_ne_true⟩, fun both => both.1⟩⟩
  cases action with
  | tcp => exact listening_tcp listening taken
  | datagram =>
    refine quiet rfl ?_
    obtain ⟨u, got, same⟩ := map_eq_some_iff.mp taken
    subst same
    exact listening_same listening accounted' listening.port (fun b x c get => ⟨b, c, get⟩)
      (fun h' _ => tcp_put_udp got _ h')
  | poll =>
    refine quiet rfl ?_
    obtain ⟨net, polled, same⟩ := map_eq_some_iff.mp taken
    subst same
    refine listening_same listening accounted' listening.port (fun b x c get => ⟨b, c, get⟩) ?_
    rw [pool_found found]
    exact fun h slot => poll_tcp accounted polled (found_mem found) slot
  | accepting i =>
    refine quiet rfl ?_
    rw [step] at taken
    split at taken
    · cases taken
    rename_i a here
    have own : a.fd = fd := by
      rw [Serving, here, all_some] at serving
      exact of_decide_eq_true serving
    split at taken
    · rename_i scanning
      obtain ⟨⟨s'', r⟩, done, same⟩ := map_eq_some_iff.mp taken
      cases same
      exact listening_scan listening here scanning own done
    · rename_i handle remote captured
      cases taken
      have sockets : ∃ new, (s.finish i a handle remote).1.sockets = s.sockets ++ [new] :=
        ⟨_, rfl⟩
      obtain ⟨new, sockets⟩ := sockets
      have net : (s.finish i a handle remote).1.net = s.net := rfl
      have accepts : (s.finish i a handle remote).1.accepts = s.accepts.eraseIdx i := rfl
      refine listening_same listening accounted' ?_
        (fun b x c get => ⟨b, _, find_append get sockets⟩) (fun h _ => by rw [net])
      rw [accepts]
      exact fun b inside => listening.port b ((eraseIdx_sublist _ _).subset inside)
  | call c =>
    refine quiet rfl ?_
    cases c with
    | accept fd' =>
      have own : fd' = fd := of_decide_eq_true serving
      subst own
      cases taken
      simp only [State.sysAccept, found] at accounted' ⊢
      split at accounted'
      · rename_i other
        rw [if_pos other]
        exact ⟨listening, Iff.rfl⟩
      rename_i listener
      rw [if_neg listener]
      refine listening_same listening accounted' ?_ (fun b x c get => ⟨b, c, get⟩)
        (fun _ _ => rfl)
      intro b inside sameFd
      rcases mem_append.mp inside with old | new
      · exact listening.port b old sameFd
      · rw [mem_singleton.mp new]
        exact bound
    | _ => cases serving

end Step

/-- After a listen that has succeeded, with no accept waiting on the number before, the pool has
    64 slots at all times. All of them are usable if and only if no peer has reset a connection
    that was waiting in the pool. -/
theorem pool_erodes_by_resets (setup : Setup) (earlier : List (State × Action)) (s s₀ : State)
    (fd : Int) (reached : Run step (initial setup) earlier s) (quiet : ∀ a ∈ s.accepts, a.fd ≠ fd)
    (listens : s.call (.listen fd) = some (s₀, .code 0)) (past : List (State × Action)) (s' : State)
    (run : Run step s₀ past s') (serving : ∀ e ∈ past, Serving fd e.1 e.2 = true) :
    (s'.pool fd).length = listenerPoolSize ∧
      (Usable s' fd ↔ ∀ e ∈ past, ¬ ResetInPool fd e.1 e.2 = true) := by
  obtain ⟨listening, usable⟩ := listen_listening (run_accounted reached) quiet listens
  have whole : Listening s' fd ∧
      (Usable s' fd ↔ ∀ e ∈ past, ¬ ResetInPool fd e.1 e.2 = true) := by
    induction run with
    | nil => exact ⟨listening, by simp [usable]⟩
    | @snoc past s s' action before taken ih =>
      rw [forall_mem_cons] at serving
      obtain ⟨held, same⟩ := ih serving.2
      obtain ⟨next, stepSame⟩ := listening_step held serving.1 taken
      refine ⟨next, ?_⟩
      rw [forall_mem_cons, stepSame, same]
      exact And.comm
  refine ⟨?_, whole.2⟩
  obtain ⟨before, sock, after, found, _, _, size, _⟩ := whole.1.found
  rw [pool_found found]
  exact size

end

theorem pool_serves : ∃ earlier s s₀ past s', Run step (initial .fixed) earlier s ∧
    s.call (.listen 500) = some (s₀, .code 0) ∧ Run step s₀ past s' ∧
    s'.accepts.any (fun a => a.captured.isSome) = true ∧
    (s'.pool 500).length = listenerPoolSize ∧ Usable s' 500 := by
  obtain ⟨earlier, s, reached, _, opened⟩ := run_of_exec (fun _ _ => true) step (initial .fixed)
    [.call (.socket 2 1), .call (.bind 500 service)]
    (fun s => s.accepts = [] ∧ (s.call (.listen 500)).any fun r => r.2 = .code 0 ∧
      (exec (fun s a => Serving 500 s a && !ResetInPool 500 s a) step r.1
        [.tcp 0 (.syn ⟨1, 4000⟩), .tcp 0 .ack, .call (.accept 500 0), .accepting 0]).any
          fun s' => s'.accepts.any fun a => a.captured.isSome)
    (by decide +kernel)
  obtain ⟨quiet, listens⟩ := of_decide_eq_true opened
  obtain ⟨⟨s₀, r⟩, done, both⟩ := (any_eq_true _ _).mp listens
  obtain ⟨rfl, more⟩ := of_decide_eq_true both
  obtain ⟨past, s', run, tested, taken⟩ := run_of_exec _ step s₀ _ _ more
  simp only [Bool.and_eq_true, Bool.not_eq_true'] at tested
  obtain ⟨size, usable⟩ := pool_erodes_by_resets .fixed earlier s s₀ 500 reached (by simp [quiet])
    done past s' run (fun e member => (tested e member).1)
  refine ⟨earlier, s, s₀, past, s', reached, done, run, taken, size,
    usable.mpr fun e member => ?_⟩
  rw [(tested e member).2]
  exact Bool.false_ne_true

/-- A client connects and resets the connection before accept is called. The scan of accept finds
    nothing and leaves a slot that is closed. -/
theorem reset_leaves_dead_slot : ∃ earlier s s₀ past s', Run step (initial .fixed) earlier s ∧
    s.call (.listen 500) = some (s₀, .code 0) ∧ Run step s₀ past s' ∧
    (∀ e ∈ past, Serving 500 e.1 e.2 = true) ∧
    ∃ h ∈ s'.pool 500, (s'.net.tcp h).map Tcp.state = some .closed := by
  obtain ⟨earlier, s, reached, _, opened⟩ := run_of_exec (fun _ _ => true) step (initial .fixed)
    [.call (.socket 2 1), .call (.bind 500 service)]
    (fun s => (s.call (.listen 500)).any fun r => r.2 = .code 0 ∧
      (exec (Serving 500) step r.1 [.tcp 0 (.syn ⟨1, 4000⟩), .tcp 0 .ack, .tcp 0 .rst,
        .call (.accept 500 0x800), .accepting 0]).any
          fun s' => ∃ h ∈ s'.pool 500, (s'.net.tcp h).map Tcp.state = some .closed)
    (by decide +kernel)
  obtain ⟨⟨s₀, r⟩, done, both⟩ := (any_eq_true _ _).mp opened
  obtain ⟨rfl, more⟩ := of_decide_eq_true both
  obtain ⟨past, s', run, tested, dead⟩ := run_of_exec _ step s₀ _ _ more
  exact ⟨earlier, s, s₀, past, s', reached, done, run, tested, of_decide_eq_true dead⟩

end TynKernel.Net
