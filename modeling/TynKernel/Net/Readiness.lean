import TynKernel.Net.Pool

/-!
The readiness of a listener. poll_socket asks whether a slot of the pool is active, and a scan
of accept asks whether a slot has a connection.
-/
namespace TynKernel.Net
open Option Rows Runs
open Sockets (SockType)

section
variable [Stack]

def Tcp.halfOpen (t : Tcp) : Bool :=
  t.state = .synSent ∨ t.state = .synReceived ∨ t.state = .finWait1 ∨ t.state = .finWait2 ∨
    t.state = .closing ∨ t.state = .lastAck

theorem isActive_iff (t : Tcp) : t.isActive = true ↔ t.ready = true ∨ t.halfOpen = true := by
  rw [Stack.isActive_iff]
  cases state : t.state <;> simp [Tcp.ready, Tcp.halfOpen, state]

def SomeSlot (net : NetState) (hs : List Nat) (P : Tcp → Bool) : Prop :=
  ∃ h ∈ hs, ∃ t, net.tcp h = some t ∧ P t = true

theorem someSlot_cons (got : net.tcp h = some t) (hs : List Nat) (P : Tcp → Bool) :
    SomeSlot net (h :: hs) P ↔ P t = true ∨ SomeSlot net hs P := by
  unfold SomeSlot
  rw [List.exists_mem_cons_iff, got]
  simp [exists_eq_left']

def Reply.readable : Reply → Bool
  | .events pollIn _ _ _ => pollIn
  | _ => false

def State.pollIn (s : State) (fd : Int) (room : Bool) : Bool :=
  (s.call (.pollSocket fd room)).any fun result => result.2.readable

def State.acceptReady (s : State) (fd : Int) (endpoint : ListenEndpoint) : Bool :=
  (s.withSocket fd none (Socket.scan endpoint)).any fun result => result.2.isSome

section Slots
variable {net : NetState} {sock : Socket}

theorem anyActive_iff (typed : ∀ h ∈ hs, ∃ t, net.tcp h = some t) :
    ∃ found, Socket.anyActive net hs = some found ∧
      (found = true ↔ SomeSlot net hs Tcp.isActive) := by
  induction hs with
  | nil => exact ⟨false, rfl, by simp [SomeSlot]⟩
  | cons h more ih =>
    rw [List.forall_mem_cons] at typed
    obtain ⟨t, got⟩ := typed.1
    obtain ⟨found, done, meaning⟩ := ih typed.2
    simp only [Socket.anyActive, got, someSlot_cons got]
    split
    · rename_i active
      exact ⟨true, rfl, fun _ => .inl active, fun _ => rfl⟩
    · rename_i quiet
      exact ⟨found, done, meaning.trans (or_iff_right quiet).symm⟩

theorem typed_slots (typed : Typed net sock) (listener : sock.sockType = .tcpListener) :
    ∀ h ∈ sock.slots, ∃ t, net.tcp h = some t := by
  unfold Socket.slots
  rw [List.forall_mem_cons]
  constructor
  · exact isSome_iff_exists.mp (typed.2.1 (by rw [listener]; decide))
  · intro h member
    exact isSome_iff_exists.mp (typed.2.2 h member)

theorem pollSocket_listener (listener : sock.sockType = .tcpListener)
    (typed : ∀ h ∈ sock.slots, ∃ t, net.tcp h = some t) (room : Bool) :
    ∃ found, Socket.pollSocket room net sock =
        some (net, sock, .events found false false false) ∧
      (found = true ↔ SomeSlot net sock.slots Tcp.isActive) := by
  unfold Socket.slots at typed
  rw [List.forall_mem_cons] at typed
  obtain ⟨⟨t, got⟩, spares⟩ := typed
  obtain ⟨found, done, meaning⟩ := anyActive_iff spares
  simp only [Socket.pollSocket, listener, got, Socket.slots, someSlot_cons got]
  split
  · rename_i active
    exact ⟨true, rfl, fun _ => .inl active, fun _ => rfl⟩
  · rename_i quiet
    exact ⟨found, by rw [done]; rfl, meaning.trans (or_iff_right quiet).symm⟩

theorem idle_iff : Idle net sock ↔ ¬ SomeSlot net sock.slots Tcp.ready := by
  constructor
  · rintro idle ⟨h, slot, t, got, ready⟩
    exact idle h slot t got ready
  · intro none_ h slot t got ready
    exact none_ ⟨h, slot, t, got, ready⟩

theorem active_slot_iff : SomeSlot net sock.slots Tcp.isActive ↔
    SomeSlot net sock.slots Tcp.ready ∨ SomeSlot net sock.slots Tcp.halfOpen := by
  constructor
  · rintro ⟨h, slot, t, got, active⟩
    rcases (isActive_iff t).mp active with ready | half
    · exact .inl ⟨h, slot, t, got, ready⟩
    · exact .inr ⟨h, slot, t, got, half⟩
  · rintro (⟨h, slot, t, got, ready⟩ | ⟨h, slot, t, got, half⟩)
    · exact ⟨h, slot, t, got, (isActive_iff t).mpr (.inl ready)⟩
    · exact ⟨h, slot, t, got, (isActive_iff t).mpr (.inr half)⟩

end Slots

section Listener
variable {s : State} {fd : Int} {before after : List Socket} {sock : Socket}

theorem pollIn_iff (found : s.find fd = some (before, sock, after))
    (listener : sock.sockType = .tcpListener)
    (typed : ∀ h ∈ sock.slots, ∃ t, s.net.tcp h = some t) (room : Bool) :
    s.pollIn fd room = true ↔ SomeSlot s.net sock.slots Tcp.isActive := by
  obtain ⟨active, done, meaning⟩ := pollSocket_listener listener typed room
  rw [← meaning]
  simp [State.pollIn, State.call, State.withSocket, found, done, Reply.readable]

theorem acceptReady_iff (found : s.find fd = some (before, sock, after))
    (typed : ∀ h ∈ sock.slots, ∃ t, s.net.tcp h = some t) (endpoint : ListenEndpoint) :
    s.acceptReady fd endpoint = true ↔ SomeSlot s.net sock.slots Tcp.ready := by
  simp only [State.acceptReady, State.withSocket, found]
  rcases scan_outcome typed endpoint with
    ⟨done, idle⟩ | ⟨j, h, t, sock', place, got, ready, done, _⟩
  · simp only [done, map_some, any_some, isSome_none, Bool.false_eq_true,
      false_iff]
    exact idle_iff.mp idle
  · simp only [done, map_some, any_some, isSome_some, true_iff]
    exact ⟨h, List.mem_of_getElem? place, t, got, ready⟩

end Listener

/-- For every listener and all states of its slots: where a scan of accept finds a connection, a
    poll has the listener readable. The two agree if and only if, with a slot that is active
    without a connection, there also is a slot with one. -/
theorem listener_readiness_iff (s : State) (fd : Int) (before after : List Socket) (sock : Socket)
    (found : s.find fd = some (before, sock, after)) (listener : sock.sockType = .tcpListener)
    (typed : Typed s.net sock) (room : Bool) (endpoint : ListenEndpoint) :
    (s.acceptReady fd endpoint = true → s.pollIn fd room = true) ∧
      ((s.pollIn fd room = true ↔ s.acceptReady fd endpoint = true) ↔
        (SomeSlot s.net sock.slots Tcp.halfOpen → SomeSlot s.net sock.slots Tcp.ready)) := by
  have slots := typed_slots typed listener
  rw [pollIn_iff found listener slots, acceptReady_iff found slots, active_slot_iff]
  tauto

def handshake (events : List TcpEvent) : List Action :=
  [.call (.socket 2 1), .call (.bind 500 service), .call (.listen 500)] ++
    events.map (.tcp 0)

def State.listenerAt (s : State) (fd : Int) : Bool :=
  (s.find fd).any fun found => found.2.1.sockType = .tcpListener

theorem listenerAt_spec {s : State} (at_ : s.listenerAt fd = true) :
    ∃ before sock after, s.find fd = some (before, sock, after) ∧
      sock.sockType = .tcpListener := by
  obtain ⟨⟨before, sock, after⟩, found, type⟩ := (any_eq_true _ _).mp at_
  exact ⟨before, sock, after, found, of_decide_eq_true type⟩

theorem run_typed (reached : Run step (initial setup) past s) (member : sock ∈ s.sockets) :
    Typed s.net sock := by
  obtain ⟨before, after, split⟩ := List.append_of_mem member
  exact balanced_typed ((accounted_balanced split).mp (run_accounted reached))

end

theorem established_seen_by_both : ∃ past s, Run step (initial .fixed) past s ∧
    s.pollIn 500 true = true ∧ s.acceptReady 500 ⟨none, 8080⟩ = true := by
  obtain ⟨past, s, run, _, ready⟩ := run_of_exec (fun _ _ => true) step (initial .fixed)
    (handshake [.syn ⟨1, 4000⟩, .ack])
    (fun s => s.listenerAt 500 && s.acceptReady 500 ⟨none, 8080⟩) (by decide +kernel)
  simp only [Bool.and_eq_true] at ready
  obtain ⟨before, sock, after, found, listener⟩ := listenerAt_spec ready.1
  have typed := run_typed run (found_mem found)
  refine ⟨past, s, run, ?_, ready.2⟩
  exact (listener_readiness_iff s 500 before after sock found listener typed true _).1 ready.2

section
variable [Stack]

def Looping (fd : Int) : Action → Bool
  | .poll => true
  | .call (.pollSocket fd' _) => fd' = fd
  | _ => false

structure Stuck (s : State) (fd : Int) : Prop where
  accounted : ∃ leaked, Accounted s leaked
  found : ∃ before sock after, s.find fd = some (before, sock, after) ∧
    sock.sockType = .tcpListener ∧ SomeSlot s.net sock.slots Tcp.halfOpen ∧
    ¬ SomeSlot s.net sock.slots Tcp.ready

section Stuck
variable {s s' : State} {fd : Int}

theorem someSlot_same (same : ∀ h ∈ hs, net'.tcp h = net.tcp h) :
    SomeSlot net' hs P ↔ SomeSlot net hs P := by
  constructor
  · rintro ⟨h, slot, t, got, holds⟩
    exact ⟨h, slot, t, (same h slot).symm.trans got, holds⟩
  · rintro ⟨h, slot, t, got, holds⟩
    exact ⟨h, slot, t, (same h slot).trans got, holds⟩

theorem stuck_slots (accounted : Accounted s leaked)
    (found : s.find fd = some (before, sock, after)) (listener : sock.sockType = .tcpListener) :
    ∀ h ∈ sock.slots, ∃ t, s.net.tcp h = some t :=
  slots_tcp ((accounted_balanced (find_split found).1).mp accounted) (by rw [listener]; decide)

theorem stuck_step (stuck : Stuck s fd) (looping : Looping fd action = true)
    (taken : step s action = some s') : Stuck s' fd := by
  obtain ⟨leaked, accounted⟩ := stuck.accounted
  obtain ⟨before, sock, after, found, listener, half, idle⟩ := stuck.found
  have accounted' := step_accounted accounted taken
  cases action with
  | poll =>
    obtain ⟨net, polled, same⟩ := map_eq_some_iff.mp taken
    subst same
    have kept : ∀ h ∈ sock.slots, net.tcp h = s.net.tcp h :=
      fun h slot => poll_tcp accounted polled (found_mem found) slot
    refine ⟨⟨_, accounted'⟩, before, sock, after, found, listener, ?_, ?_⟩
    · exact (someSlot_same kept).mpr half
    · exact fun ready => idle ((someSlot_same kept).mp ready)
  | call c =>
    cases c with
    | pollSocket fd' room =>
      have own : fd' = fd := of_decide_eq_true looping
      subst own
      obtain ⟨active, done, _⟩ :=
        pollSocket_listener listener (stuck_slots accounted found listener) room
      have result : s.call (.pollSocket fd' room) = some
          ({ s with sockets := before ++ sock :: after }, .events active false false false) := by
        simp [State.call, State.withSocket, found, done]
      rw [step, result] at taken
      cases taken
      refine ⟨⟨_, accounted'⟩, before, sock, after, ?_, listener, half, idle⟩
      exact find_replace found rfl rfl
    | _ => cases looping
  | accepting i | tcp h event | datagram h src data => cases looping

theorem stuck_spins (stuck : Stuck s fd) (run : Run step s past s')
    (looping : ∀ e ∈ past, Looping fd e.2 = true) (room : Bool) (endpoint : ListenEndpoint) :
    s'.pollIn fd room = true ∧ s'.acceptReady fd endpoint = false := by
  have still := run_invariant_of (fun _ a => Looping fd a = true) (Stuck · fd) stuck
    (fun _ _ _ held ok taken => stuck_step held ok taken) run looping
  obtain ⟨leaked, accounted⟩ := still.accounted
  obtain ⟨before, sock, after, found, listener, half, idle⟩ := still.found
  have slots := stuck_slots accounted found listener
  constructor
  · rw [pollIn_iff found listener slots, active_slot_iff]
    exact .inr half
  · rw [← Bool.not_eq_true, acceptReady_iff found slots]
    exact idle

def State.slotTest (s : State) (fd : Int) (P : Tcp → Bool) : Bool :=
  (s.pool fd).any fun h => (s.net.tcp h).any P

theorem slotTest_iff (found : s.find fd = some (before, sock, after)) (P : Tcp → Bool) :
    s.slotTest fd P = true ↔ SomeSlot s.net sock.slots P := by
  rw [State.slotTest, pool_found found, List.any_eq_true]
  constructor
  · rintro ⟨h, slot, test⟩
    exact ⟨h, slot, (any_eq_true _ _).mp test⟩
  · rintro ⟨h, slot, test⟩
    exact ⟨h, slot, (any_eq_true _ _).mpr test⟩

end Stuck

end

/-- One segment of a peer that goes no further makes the listener readable for as long as an event
    loop looks at it, and accept has nothing. -/
theorem half_open_spins : ∃ past s, Run step (initial .fixed) past s ∧
    ∀ later s', Run step s later s' → (∀ e ∈ later, Looping 500 e.2 = true) →
      s'.pollIn 500 true = true ∧ s'.acceptReady 500 ⟨none, 8080⟩ = false := by
  obtain ⟨past, s, run, _, test⟩ := run_of_exec (fun _ _ => true) step (initial .fixed)
    (handshake [.syn ⟨1, 4000⟩])
    (fun s => s.listenerAt 500 && s.slotTest 500 Tcp.halfOpen && !s.slotTest 500 Tcp.ready)
    (by decide +kernel)
  simp only [Bool.and_eq_true, Bool.not_eq_true', ← Bool.not_eq_true] at test
  obtain ⟨⟨at_, half⟩, idle⟩ := test
  obtain ⟨before, sock, after, found, listener⟩ := listenerAt_spec at_
  rw [slotTest_iff found] at half idle
  have stuck : Stuck s 500 :=
    ⟨⟨_, run_accounted run⟩, before, sock, after, found, listener, half, idle⟩
  refine ⟨past, s, run, ?_⟩
  intro later s' onward looping
  exact stuck_spins stuck onward looping true _

end TynKernel.Net
