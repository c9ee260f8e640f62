import TynKernel.Net.Threads

/-!
Ports that the kernel chooses. A counter goes round over 16384 ports, and a call that needs
one takes the next, whether or not a socket has it.
-/
namespace TynKernel.Net
open Arenas Numbers Option Rows Runs
open List (map_append map_cons mem_append mem_append_left mem_append_right mem_cons mem_cons_of_mem
  mem_cons_self mem_map mem_singleton)
open Sockets (SockType)

section
variable [Stack]

/-- Whether a call comes to alloc_ephemeral_port: connect and sendto for a socket without a port,
    and bind to port 0. -/
def State.allocates (s : State) : Call → Bool
  | .connect fd addr _ => addr.family = 2 && (s.find fd).any fun found => found.2.1.localPort = 0
  | .bind fd addr => addr.family = 2 && addr.port = 0 && (s.find fd).isSome
  | .sendto fd _ dest _ =>
    let dest := dest.bind fun addr => if addr.family = 2 then some ⟨addr.addr, addr.port⟩ else none
    (s.find fd).any fun found => found.2.1.sockType = .udpDgram && found.2.1.localPort = 0 &&
      (dest.or found.2.1.udpPeer : Option IpEndpoint).isSome
  | _ => false

def portOf (p : Int) : Nat := (49152 + asI32 (p - 49152) % 16384).toNat

/-- A call that has moved the counter on, with the value that it found. It holds the lock of the
    socket table. -/
structure Taking where
  call : Call
  p : Int
  deriving DecidableEq, Repr

structure PortState where
  machine : Machine
  held : Option Taking

inductive PortMove where
  | begin (c : Call)
  | finish
  | move (a : Move)
  deriving DecidableEq, Repr

def State.counter (s : State) : Int := s.net.nextEphemeral

def State.withCounter (s : State) (p : Int) : State :=
  { s with net := { s.net with nextEphemeral := p } }

namespace PortState

def start (setup : Setup) : PortState := ⟨Machine.start setup, none⟩

def kernel (m : PortState) : State := m.machine.kernel

def locks (m : PortState) : Move → Bool
  | .call (.socket _ _) => false
  | .call _ => true
  | .turn i =>
    match m.machine.calls[i]? with
    | some (.scan _) | some (.publish _ _) => true
    | _ => false
  | .poll | .tcp _ _ | .datagram _ _ _ => false

def waits (m : PortState) (a : Move) : Bool :=
  match m.held with
  | some _ => m.locks a
  | none =>
    match a with
    | .call c => m.kernel.allocates c
    | _ => false

end PortState

/-- The rest of a call finds the counter as the call has left it, and sets it back if the port is
    the last one. So it runs as it would have done at once. -/
def portStep (m : PortState) : PortMove → Option PortState
  | .begin c =>
    if m.held = none ∧ m.kernel.allocates c then
      some ⟨{ m.machine with kernel := m.kernel.withCounter (asI32 (m.kernel.counter + 1)) },
        some ⟨c, m.kernel.counter⟩⟩
    else none
  | .finish =>
    match m.held with
    | none => none
    | some h =>
      ((m.kernel.withCounter h.p).call h.call).map fun r =>
        ⟨{ m.machine with kernel := r.1 }, none⟩
  | .move a =>
    if m.waits a then none
    else (m.machine.move a).map fun machine => { m with machine := machine }

def Call.unnamed : Call → Bool
  | .bind _ addr => addr.port = 0
  | .listen _ | .accept _ _ => false
  | _ => true

def PortMove.unnamed : PortMove → Bool
  | .begin c => c.unnamed
  | .finish => true
  | .move (.call c) => c.unnamed
  | .move _ => true

def Socket.holder (sock : Socket) : Bool × Nat := (sock.sockType = .udpDgram, sock.localPort)

def State.holders (s : State) : List (Bool × Nat) := s.sockets.map Socket.holder

def Distinct (holders : List (Bool × Nat)) : Prop :=
  holders.Pairwise fun x y => x.1 = y.1 → x.2 ≠ 0 → x.2 ≠ y.2

instance (holders : List (Bool × Nat)) : Decidable (Distinct holders) :=
  inferInstanceAs (Decidable (holders.Pairwise _))

section Bodies
variable {R : Type} {net : NetState} {sock : Socket}

def Quiet (f : NetState → Socket → Option (NetState × Socket × R)) (net : NetState)
    (sock : Socket) : Prop :=
  ∀ net' sock' r, f net sock = some (net', sock', r) →
    sock'.holder = sock.holder ∧ net'.nextEphemeral = net.nextEphemeral

def Names (f : NetState → Socket → Option (NetState × Socket × R)) (net : NetState)
    (sock : Socket) : Prop :=
  ∀ net' sock' r, f net sock = some (net', sock', r) →
    sock'.holder = (sock.holder.1, net.allocEphemeralPort.2) ∧
      net'.nextEphemeral = net.allocEphemeralPort.1.nextEphemeral

theorem gcFrom_counter (done : NetState.gcFrom fuel i net = some net') :
    net'.nextEphemeral = net.nextEphemeral := by
  induction fuel generalizing i net with
  | zero =>
    cases done
    rfl
  | succ fuel ih =>
    rw [NetState.gcFrom] at done
    split at done
    · cases done
      rfl
    split at done
    · cases done
    split at done
    · have later := ih done
      exact later
    · exact ih done

theorem poll_counter (done : net.poll = some net') : net'.nextEphemeral = net.nextEphemeral := by
  unfold NetState.poll at done
  split at done
  · exact gcFrom_counter done
  split at done
  · exact gcFrom_counter done
  · cases done

theorem removeAll_counter (done : Socket.release.removeAll net hs = some net') :
    net'.nextEphemeral = net.nextEphemeral := by
  induction hs generalizing net with
  | nil =>
    cases done
    rfl
  | cons h rest ih =>
    rw [Socket.release.removeAll] at done
    split at done
    · cases done
    · have later := ih done
      exact later

theorem release_counter (done : sock.release net = some net') :
    net'.nextEphemeral = net.nextEphemeral := by
  unfold Socket.release at done
  split at done
  · obtain ⟨t, _, same⟩ := map_eq_some_iff.mp done
    subst same
    rfl
  · exact removeAll_counter done
  · obtain ⟨u, _, same⟩ := map_eq_some_iff.mp done
    subst same
    rfl

theorem udpBound_bound (bound : sock.localPort ≠ 0) : Socket.udpBound net sock = some (net, sock) :=
  if_neg bound

theorem udpBound_unbound (unbound : sock.localPort = 0)
    (done : Socket.udpBound net sock = some (net', sock')) :
    sock' = { sock with localPort := net.allocEphemeralPort.2 } ∧
      net'.nextEphemeral = net.allocEphemeralPort.1.nextEphemeral := by
  rw [Socket.udpBound, if_pos unbound] at done
  obtain ⟨u, _, same⟩ := map_eq_some_iff.mp done
  rw [Socket.bindEphemeral, if_pos unbound] at same
  cases same
  exact ⟨rfl, rfl⟩

omit [Stack] in
theorem holder_stream (stream : sock.sockType ≠ .udpDgram) (still : type ≠ .udpDgram) :
    ({ sock with sockType := type, localPort := port, connecting := connecting } : Socket).holder =
      (sock.holder.1, port) := by
  simp [Socket.holder, stream, still, decide_false]

theorem connectStream_port (stream : sock.sockType ≠ .udpDgram)
    (done : Socket.connectStream remote routed net sock = some (net', sock', r)) :
    sock'.holder = (sock.holder.1, (sock.bindEphemeral net).2.localPort) ∧
      net'.nextEphemeral = (sock.bindEphemeral net).1.nextEphemeral := by
  have same : (sock.bindEphemeral net).2 =
      { sock with localPort := (sock.bindEphemeral net).2.localPort } := by
    unfold Socket.bindEphemeral
    split <;> rfl
  unfold Socket.connectStream at done
  obtain ⟨t, _, result⟩ := map_eq_some_iff.mp done
  simp only at result
  split at result
  · cases result
    rw [same]
    exact ⟨holder_stream stream (by decide), rfl⟩
  · cases result
    rw [same]
    exact ⟨holder_stream stream (by decide), rfl⟩

theorem connect_quiet (remote : IpEndpoint) (routed : Bool) (bound : sock.localPort ≠ 0) :
    Quiet (Socket.connect remote routed) net sock := by
  intro net' sock' r done
  have stream : sock.sockType ≠ .udpDgram →
      Socket.connectStream remote routed net sock = some (net', sock', r) →
      sock'.holder = sock.holder ∧ net'.nextEphemeral = net.nextEphemeral := by
    intro type inner
    have result := connectStream_port type inner
    rw [Socket.bindEphemeral, if_neg bound] at result
    exact result
  unfold Socket.connect at done
  split at done
  · obtain ⟨parts, inner, same⟩ := map_eq_some_iff.mp done
    have kept : ({ sock with udpPeer := some remote } : Socket).localPort ≠ 0 := bound
    rw [udpBound_bound kept] at inner
    cases inner
    cases same
    exact ⟨rfl, rfl⟩
  · rename_i type
    exact stream (by rw [type]; decide) done
  · rename_i type
    exact stream (by rw [type]; decide) done

theorem connect_names (remote : IpEndpoint) (routed : Bool) (unbound : sock.localPort = 0) :
    Names (Socket.connect remote routed) net sock := by
  intro net' sock' r done
  have stream : sock.sockType ≠ .udpDgram →
      Socket.connectStream remote routed net sock = some (net', sock', r) →
      sock'.holder = (sock.holder.1, net.allocEphemeralPort.2) ∧
        net'.nextEphemeral = net.allocEphemeralPort.1.nextEphemeral := by
    intro type inner
    have result := connectStream_port type inner
    rw [Socket.bindEphemeral, if_pos unbound] at result
    exact result
  unfold Socket.connect at done
  split at done
  · obtain ⟨⟨net₁, sock₁⟩, inner, same⟩ := map_eq_some_iff.mp done
    have kept : ({ sock with udpPeer := some remote } : Socket).localPort = 0 := unbound
    obtain ⟨named, counter⟩ := udpBound_unbound kept inner
    cases same
    exact ⟨by rw [named]; rfl, counter⟩
  · rename_i type
    exact stream (by rw [type]; decide) done
  · rename_i type
    exact stream (by rw [type]; decide) done

theorem bind_names (addr : Nat) : Names (Socket.bind 0 addr) net sock := by
  intro net' sock' r done
  unfold Socket.bind at done
  simp only [if_true] at done
  split at done
  · obtain ⟨u, _, same⟩ := map_eq_some_iff.mp done
    split at same <;> cases same <;> exact ⟨rfl, rfl⟩
  · cases done
    exact ⟨rfl, rfl⟩
  · cases done
    exact ⟨rfl, rfl⟩

theorem sendto_bound
    (bound : sock.sockType = .udpDgram → sock.localPort ≠ 0 ∨ dest.or sock.udpPeer = none) :
    Quiet (Socket.sendto data dest room) net sock := by
  intro net' sock' r done
  unfold Socket.sendto at done
  split at done
  · rename_i type
    split at done
    · cases done
      exact ⟨rfl, rfl⟩
    rename_i remote known
    have port : sock.localPort ≠ 0 := by
      rcases bound type with some_ | none_
      · exact some_
      · rw [none_] at known
        cases known
    rw [udpBound_bound port] at done
    simp only at done
    split at done
    · cases done
    · obtain ⟨polled, inner, same⟩ := map_eq_some_iff.mp done
      cases same
      exact ⟨rfl, poll_counter inner⟩
  · obtain ⟨t, _, same⟩ := map_eq_some_iff.mp done
    split at same
    · split at same <;> cases same <;> exact ⟨rfl, rfl⟩
    · cases same
      exact ⟨rfl, rfl⟩
  · cases done
    exact ⟨rfl, rfl⟩

theorem sendto_names (type : sock.sockType = .udpDgram) (unbound : sock.localPort = 0)
    (some_ : (dest.or sock.udpPeer).isSome = true) :
    Names (Socket.sendto data dest room) net sock := by
  intro net' sock' r done
  obtain ⟨remote, known⟩ := isSome_iff_exists.mp some_
  simp only [Socket.sendto, type, known] at done
  split at done
  · cases done
  rename_i net₁ sock₁ inner
  obtain ⟨named, counter⟩ := udpBound_unbound unbound inner
  split at done
  · cases done
  · obtain ⟨polled, last, same⟩ := map_eq_some_iff.mp done
    cases same
    exact ⟨by rw [named]; rfl, (poll_counter last).trans counter⟩

theorem recvfrom_quiet (len : Nat) : Quiet (Socket.recvfrom len) net sock := by
  intro net' sock' r done
  unfold Socket.recvfrom at done
  split at done
  · obtain ⟨t, _, same⟩ := map_eq_some_iff.mp done
    split at same <;> split at same <;> cases same <;> exact ⟨rfl, rfl⟩
  · obtain ⟨u, _, same⟩ := map_eq_some_iff.mp done
    split at same <;> cases same <;> exact ⟨rfl, rfl⟩
  · cases done
    exact ⟨rfl, rfl⟩

theorem pollSocket_quiet (room : Bool) : Quiet (Socket.pollSocket room) net sock := by
  intro net' sock' r done
  unfold Socket.pollSocket at done
  split at done
  · obtain ⟨t, _, same⟩ := map_eq_some_iff.mp done
    split at same
    · split at same <;> cases same <;> exact ⟨rfl, rfl⟩
    · cases same
      exact ⟨rfl, rfl⟩
  · split at done
    · cases done
    split at done
    · cases done
      exact ⟨rfl, rfl⟩
    · obtain ⟨found, _, same⟩ := map_eq_some_iff.mp done
      cases same
      exact ⟨rfl, rfl⟩
  · obtain ⟨u, _, same⟩ := map_eq_some_iff.mp done
    cases same
    exact ⟨rfl, rfl⟩

theorem getsockopt_quiet (level optname : Int) (len : Nat) :
    Quiet (Socket.getsockopt level optname len) net sock := by
  intro net' sock' r done
  obtain ⟨result, inner, same⟩ := map_eq_some_iff.mp done
  cases same
  unfold Socket.soError at inner
  split at inner
  · obtain ⟨t, _, same⟩ := map_eq_some_iff.mp inner
    split at same <;> cases same <;> exact ⟨rfl, rfl⟩
  · cases inner
    exact ⟨rfl, rfl⟩

theorem getpeername_quiet : Quiet Socket.getpeername net sock := by
  intro net' sock' r done
  obtain ⟨t, _, same⟩ := map_eq_some_iff.mp done
  split at same <;> cases same <;> exact ⟨rfl, rfl⟩

end Bodies

section Calls
variable {R : Type} {s s' : State}

theorem withSocket_quiet
    (quiet : ∀ before sock after, s.find fd = some (before, sock, after) → Quiet f s.net sock)
    (done : s.withSocket fd missing f = some (s', r)) :
    s'.holders = s.holders ∧ s'.counter = s.counter := by
  unfold State.withSocket at done
  split at done
  · cases done
    exact ⟨rfl, rfl⟩
  rename_i before sock after found
  obtain ⟨⟨net', sock', r'⟩, inner, same⟩ := map_eq_some_iff.mp done
  cases same
  obtain ⟨kept, counter⟩ := quiet before sock after found net' sock' _ inner
  refine ⟨?_, counter⟩
  simp [State.holders, (find_split found).1, kept]

theorem withSocket_names (found : s.find fd = some (before, sock, after))
    (names : Names f s.net sock) (done : s.withSocket fd missing f = some (s', r)) :
    s'.holders = before.map Socket.holder ++
        (sock.holder.1, s.net.allocEphemeralPort.2) :: after.map Socket.holder ∧
      s'.counter = s.net.allocEphemeralPort.1.nextEphemeral := by
  unfold State.withSocket at done
  rw [found] at done
  obtain ⟨⟨net', sock', r'⟩, inner, same⟩ := map_eq_some_iff.mp done
  cases same
  obtain ⟨named, counter⟩ := names net' sock' _ inner
  refine ⟨?_, counter⟩
  simp [State.holders, named]

theorem call_quiet (target : c.target = some fd) (unnamed : c.unnamed = true)
    (takes : s.allocates c = false) (done : s.call c = some (s', r)) :
    s'.holders = s.holders ∧ s'.counter = s.counter := by
  cases c with
  | socket domain sockType | accept fd' flags | close fd' => cases target
  | listen => cases unnamed
  | connect =>
    simp only [State.call] at done
    split at done
    · cases done
      exact ⟨rfl, rfl⟩
    rename_i family
    refine withSocket_quiet (fun before sock after found => connect_quiet _ _ ?_) done
    intro unbound
    simp only [State.allocates, not_not.mp family, decide_true, Bool.true_and, found,
      any_some, unbound] at takes
    cases takes
  | bind fd' addr =>
    simp only [State.call] at done
    split at done
    · cases done
      exact ⟨rfl, rfl⟩
    rename_i family
    have zero : addr.port = 0 := of_decide_eq_true unnamed
    refine withSocket_quiet (fun before sock after found => ?_) done
    simp only [State.allocates, not_not.mp family, zero, decide_true, Bool.true_and, found,
      isSome_some] at takes
    cases takes
  | getsockname fd' | setNonblock fd' nonblock =>
    refine withSocket_quiet (fun _ _ _ _ => ?_) done
    intro net' sock' r done
    cases done
    exact ⟨rfl, rfl⟩
  | getpeername => exact withSocket_quiet (fun _ _ _ _ => getpeername_quiet) done
  | setsockopt =>
    cases done
    exact ⟨rfl, rfl⟩
  | getsockopt fd' level optname len =>
    cases len with
    | none =>
      cases done
      exact ⟨rfl, rfl⟩
    | some len => exact withSocket_quiet (fun _ _ _ _ => getsockopt_quiet level optname len) done
  | sendto =>
    refine withSocket_quiet (fun before sock after found => sendto_bound fun type => ?_) done
    simp only [State.allocates, found, any_some, type, decide_true, Bool.true_and] at takes
    by_cases unbound : sock.localPort = 0
    · simpa [unbound] using takes
    · exact .inl unbound
  | recvfrom fd' len =>
    simp only [State.call] at done
    split at done
    · cases done
    rename_i polled inner
    obtain ⟨net, last, same⟩ := map_eq_some_iff.mp inner
    subst same
    have kept := withSocket_quiet (fun _ _ _ _ => recvfrom_quiet len) done
    exact ⟨kept.1, kept.2.trans (poll_counter last)⟩
  | pollSocket fd' room => exact withSocket_quiet (fun _ _ _ _ => pollSocket_quiet room) done

theorem call_names (unnamed : c.unnamed = true) (takes : s.allocates c = true)
    (done : s.call c = some (s', r)) :
    ∃ fd before sock after, c.target = some fd ∧ s.find fd = some (before, sock, after) ∧
      s'.holders = before.map Socket.holder ++
        (sock.holder.1, s.net.allocEphemeralPort.2) :: after.map Socket.holder ∧
      s'.counter = s.net.allocEphemeralPort.1.nextEphemeral := by
  cases c with
  | connect fd =>
    rw [State.allocates, Bool.and_eq_true, decide_eq_true_eq] at takes
    obtain ⟨⟨before, sock, after⟩, found, unbound⟩ := (any_eq_true _ _).mp takes.2
    rw [State.call, if_neg (not_not.mpr takes.1)] at done
    exact ⟨fd, before, sock, after, rfl, found,
      withSocket_names found (connect_names _ _ (of_decide_eq_true unbound)) done⟩
  | bind fd addr =>
    have zero : addr.port = 0 := of_decide_eq_true unnamed
    rw [State.allocates, Bool.and_eq_true, Bool.and_eq_true, decide_eq_true_eq] at takes
    obtain ⟨⟨before, sock, after⟩, found⟩ := isSome_iff_exists.mp takes.2
    rw [State.call, if_neg (not_not.mpr takes.1.1), zero] at done
    exact ⟨fd, before, sock, after, rfl, found, withSocket_names found (bind_names _) done⟩
  | sendto fd =>
    obtain ⟨⟨before, sock, after⟩, found, test⟩ := (any_eq_true _ _).mp takes
    simp only [Bool.and_eq_true, decide_eq_true_eq] at test
    exact ⟨fd, before, sock, after, rfl, found,
      withSocket_names found (sendto_names test.1.1 test.1.2 test.2) done⟩
  | _ => cases takes

end Calls

def Place.accepting : Place → Bool
  | .poll _ | .scan _ => true
  | .pick e | .count e | .publish _ e => e.captured.isSome
  | .recycle _ | .release _ | .returned _ => false

inductive Shift (holders : List (Bool × Nat)) : List (Bool × Nat) → Prop where
  | same : Shift holders holders
  | opened (udp : Bool) : Shift holders (holders ++ [(udp, 0)])
  | closed {before after : List (Bool × Nat)} {x : Bool × Nat}
      (parts : holders = before ++ x :: after) : Shift holders (before ++ after)

section Moves
variable {m m' : Machine} {a : Move}

theorem plain_goto (plain : ∀ place ∈ m.calls, place.accepting = false)
    (next : there.accepting = false) :
    ∀ place ∈ (m.goto i kernel there).calls, place.accepting = false := by
  intro other member
  rcases List.mem_or_eq_of_mem_set member with old | same
  · exact plain other old
  · rw [same]
    exact next

theorem plain_begin (plain : ∀ place ∈ m.calls, place.accepting = false)
    (next : there.accepting = false) :
    ∀ place ∈ (m.begin kernel there).calls, place.accepting = false := by
  intro other member
  rcases mem_append.mp member with old | new
  · exact plain other old
  · rw [mem_singleton.mp new]
    exact next

theorem event_counter (isEvent : action.isEvent = true) (done : step s action = some s') :
    s'.sockets = s.sockets ∧ s'.counter = s.counter := by
  cases action with
  | call c | accepting i => cases isEvent
  | poll =>
    obtain ⟨net, polled, same⟩ := map_eq_some_iff.mp done
    subst same
    exact ⟨rfl, poll_counter polled⟩
  | tcp =>
    obtain ⟨t, _, same⟩ := map_eq_some_iff.mp done
    subst same
    exact ⟨rfl, rfl⟩
  | datagram =>
    obtain ⟨u, _, same⟩ := map_eq_some_iff.mp done
    subst same
    exact ⟨rfl, rfl⟩

theorem move_shift (progress : Progress m a m')
    (plain : ∀ place ∈ m.calls, place.accepting = false)
    (unnamed : (PortMove.move a).unnamed = true)
    (takes : ∀ c, a = .call c → m.kernel.allocates c = false) :
    Shift m.kernel.holders m'.kernel.holders ∧ m'.kernel.counter = m.kernel.counter ∧
      ∀ place ∈ m'.calls, place.accepting = false := by
  have here : ∀ {i : Nat} {place : Place}, m.calls[i]? = some place → place.accepting = false :=
    fun get => plain _ (List.mem_of_getElem? get)
  cases progress with
  | inPlace target done =>
    obtain ⟨same, counter⟩ := call_quiet target unnamed (takes _ rfl) done
    exact ⟨by rw [same]; exact .same, counter, plain⟩
  | ended => exact ⟨.same, rfl, plain⟩
  | created => exact ⟨.same, rfl, plain_begin plain rfl⟩
  | called => cases unnamed
  | removed found =>
    refine ⟨?_, rfl, plain_begin plain rfl⟩
    change Shift (m.kernel.sockets.map Socket.holder) (List.map Socket.holder (_ ++ _))
    rw [(find_split found).1, map_append, map_append, map_cons]
    exact .closed rfl
  | polled get done | captured get done | missed get done => cases here get
  | reused get free | none_free get empty | counted get =>
    have next := here get
    exact ⟨.same, rfl, plain_goto plain next⟩
  | @published i fd e get =>
    refine ⟨?_, rfl, plain_goto plain rfl⟩
    cases e with
    | created =>
      change Shift (m.kernel.sockets.map Socket.holder) (List.map Socket.holder (_ ++ [_]))
      rw [map_append]
      exact .opened _
    | accepted => cases here get
  | recycled => exact ⟨.same, rfl, plain_goto plain rfl⟩
  | released get done => exact ⟨.same, release_counter done, plain_goto plain rfl⟩
  | event isEvent other noCall done =>
    obtain ⟨same, counter⟩ := event_counter isEvent done
    refine ⟨?_, counter, plain⟩
    rw [State.holders, State.holders, same]
    exact .same

theorem move_unlocked (progress : Progress m a m')
    (free : (⟨m, held⟩ : PortState).locks a = false) : m'.kernel.sockets = m.kernel.sockets := by
  cases progress with
  | @inPlace c fd kernel r target =>
    cases c with
    | socket => cases target
    | _ => cases free
  | ended none_ | created kind | reused get free | none_free get empty | counted get
  | recycled get | released get done => rfl
  | called a | removed found => cases free
  | polled get done =>
    obtain ⟨net, _, same⟩ := map_eq_some_iff.mp done
    rw [← same]
    rfl
  | captured get done | missed get done | published get =>
    simp only [PortState.locks, get] at free
    cases free
  | event isEvent other noCall done => exact (event_counter isEvent done).1

end Moves

/-- After a number of ports: the counter stands at the next one, or has been moved on from it by
    the call that holds the lock. -/
structure PortSound (n : Nat) (m : PortState) : Prop where
  plain : ∀ place ∈ m.machine.calls, place.accepting = false
  counter : m.kernel.counter = 49152 + (n % 16384 : Nat) + (if m.held.isSome then 1 else 0)
  held : ∀ h, m.held = some h →
    h.p = 49152 + (n % 16384 : Nat) ∧ m.kernel.allocates h.call = true ∧ h.call.unnamed = true

omit [Stack] in
theorem portOf_counter (n : Nat) : portOf (49152 + (n % 16384 : Nat)) = 49152 + n % 16384 := by
  have offset : asI32 (49152 + (n % 16384 : Nat) - 49152) = (n % 16384 : Nat) :=
    (congrArg asI32 (by omega)).trans (asI32_of_lt (by omega) (by omega))
  rw [portOf, offset]
  omega

theorem alloc_counter (net : NetState) (counter : net.nextEphemeral = 49152 + (n % 16384 : Nat)) :
    net.allocEphemeralPort.1.nextEphemeral = 49152 + ((n + 1) % 16384 : Nat) ∧
      net.allocEphemeralPort.2 = 49152 + n % 16384 := by
  have offset : asI32 (49152 + (n % 16384 : Nat) - 49152) = (n % 16384 : Nat) :=
    (congrArg asI32 (by omega)).trans (asI32_of_lt (by omega) (by omega))
  have next : asI32 (49152 + (n % 16384 : Nat) + 1) = 49152 + (n % 16384 : Nat) + 1 :=
    asI32_of_lt (by omega) (by omega)
  simp only [NetState.allocEphemeralPort, counter, offset, next]
  constructor
  · split <;> omega
  · omega

theorem allocates_sockets {s s' : State} (same : s'.sockets = s.sockets) (c : Call) :
    s'.allocates c = s.allocates c := by
  have find : ∀ fd, s'.find fd = s.find fd := fun fd => by rw [State.find, State.find, same]
  cases c <;> simp only [State.allocates, find]

theorem start_sound (setup : Setup) : PortSound 0 (PortState.start setup) := by
  refine ⟨fun place member => ?_, ?_, nofun⟩
  · cases member
  · cases setup <;> rfl

theorem begin_sound {n : Nat} {m m' : PortState} {c : Call} (sound : PortSound n m)
    (unnamed : c.unnamed = true) (taken : portStep m (.begin c) = some m') :
    PortSound n m' ∧ m'.kernel.holders = m.kernel.holders := by
  rw [portStep] at taken
  split at taken
  · rename_i ready
    cases taken
    have counter := sound.counter
    rw [ready.1] at counter
    refine ⟨⟨sound.plain, ?_, ?_⟩, rfl⟩
    · change asI32 (m.kernel.counter + 1) = _
      rw [counter]
      exact asI32_of_lt (by omega) (by omega)
    · intro h same
      cases same
      exact ⟨counter, (allocates_sockets rfl c).trans ready.2, unnamed⟩
  · cases taken

theorem finish_sound {n : Nat} (sound : PortSound n m) (taken : portStep m .finish = some m') :
    PortSound (n + 1) m' ∧ ∃ h fd before sock after, m.held = some h ∧ h.call.target = some fd ∧
      m.kernel.find fd = some (before, sock, after) ∧ portOf h.p = 49152 + n % 16384 ∧
      m'.kernel.holders = before.map Socket.holder ++
        (sock.holder.1, portOf h.p) :: after.map Socket.holder := by
  rw [portStep] at taken
  split at taken
  · cases taken
  rename_i h held
  obtain ⟨value, takes, unnamed⟩ := sound.held h held
  obtain ⟨⟨s', r⟩, done, same⟩ := map_eq_some_iff.mp taken
  subst same
  have still : (m.kernel.withCounter h.p).allocates h.call = true :=
    (allocates_sockets rfl h.call).trans takes
  obtain ⟨fd, before, sock, after, target, found, holders, counter⟩ :=
    call_names unnamed still done
  obtain ⟨next, port⟩ := alloc_counter (m.kernel.withCounter h.p).net (n := n) value
  have number : portOf h.p = 49152 + n % 16384 := by rw [value, portOf_counter]
  refine ⟨⟨sound.plain, ?_, nofun⟩, h, fd, before, sock, after, held, target, found, number, ?_⟩
  · exact counter.trans (next.trans (Int.add_zero _).symm)
  · exact holders

theorem other_sound {n : Nat} {m m' : PortState} {a : Move} (sound : PortSound n m)
    (unnamed : (PortMove.move a).unnamed = true) (taken : portStep m (.move a) = some m') :
    PortSound n m' ∧ Shift m.kernel.holders m'.kernel.holders := by
  rw [portStep] at taken
  split at taken
  · cases taken
  rename_i go
  obtain ⟨machine, moved, same⟩ := map_eq_some_iff.mp taken
  subst same
  have progress := move_progress moved
  have takes : ∀ c, a = .call c → m.kernel.allocates c = false := by
    intro c call
    subst call
    simp only [PortState.waits] at go
    cases held : m.held with
    | none =>
      rw [held] at go
      exact Bool.eq_false_iff.mpr go
    | some =>
      rw [held] at go
      cases c with
      | socket => rfl
      | _ => exact absurd rfl go
  obtain ⟨shift, counter, plain⟩ := move_shift progress sound.plain unnamed takes
  refine ⟨⟨plain, counter.trans sound.counter, fun h held => ?_⟩, shift⟩
  obtain ⟨value, still, named⟩ := sound.held h held
  refine ⟨value, ?_, named⟩
  have waits : m.locks a = false := by
    have held' : m.held = some h := held
    simp only [PortState.waits, held'] at go
    exact Bool.eq_false_iff.mpr go
  exact (allocates_sockets (move_unlocked progress waits) h.call).trans still

def allocations (past : List (PortState × PortMove)) : Nat := past.countP fun e => e.2 = .finish

theorem allocations_cons (m : PortState) (a : PortMove) (past : List (PortState × PortMove)) :
    allocations ((m, a) :: past) = allocations past + if a = .finish then 1 else 0 := by
  simp [allocations, List.countP_cons, decide_eq_true_eq]

theorem step_sound (sound : PortSound n m) (unnamed : a.unnamed = true)
    (taken : portStep m a = some m') : PortSound (n + if a = .finish then 1 else 0) m' := by
  cases a with
  | begin => exact (begin_sound sound unnamed taken).1
  | finish => exact (finish_sound sound taken).1
  | move => exact (other_sound sound unnamed taken).1

theorem run_sound (run : Run portStep (PortState.start setup) past m)
    (unnamed : ∀ e ∈ past, e.2.unnamed = true) : PortSound (allocations past) m := by
  induction run with
  | nil => exact start_sound setup
  | snoc before taken ih =>
    have earlier := ih fun e member => unnamed e (mem_cons_of_mem _ member)
    have next := step_sound earlier (unnamed _ mem_cons_self) taken
    rw [allocations_cons]
    exact next

def PortState.Clear (m : PortState) : Prop :=
  ∀ h fd before sock after, m.held = some h → h.call.target = some fd →
    m.kernel.find fd = some (before, sock, after) →
    ∀ other ∈ before ++ after, other.holder ≠ (sock.holder.1, portOf h.p)

omit [Stack] in
theorem shift_distinct (shift : Shift holders holders') (distinct : Distinct holders) :
    Distinct holders' := by
  cases shift with
  | same => exact distinct
  | opened =>
    refine List.pairwise_append.mpr ⟨distinct, List.pairwise_singleton .., ?_⟩
    intro x _ y last _ some_
    rw [mem_singleton.mp last]
    exact some_
  | closed parts =>
    rw [parts] at distinct
    exact distinct.sublist ((List.Sublist.refl _).append (List.sublist_cons_self ..))

omit [Stack] in
theorem distinct_named (some_ : port ≠ 0) (distinct : Distinct (before ++ x :: after)) :
    Distinct (before ++ (x.1, port) :: after) ↔ ∀ y ∈ before ++ after, y ≠ (x.1, port) := by
  unfold Distinct at distinct ⊢
  rw [List.pairwise_append, List.pairwise_cons] at distinct ⊢
  obtain ⟨front, ⟨_, back⟩, across⟩ := distinct
  constructor
  · rintro ⟨_, ⟨own, _⟩, before_⟩ y member same
    subst same
    rcases mem_append.mp member with early | late
    · exact before_ _ early _ mem_cons_self rfl some_ rfl
    · exact own _ late rfl some_ rfl
  · intro clear
    refine ⟨front, ⟨?_, back⟩, ?_⟩
    · intro y late protocol _ same
      exact clear y (mem_append_right _ late) (Prod.ext protocol.symm same.symm)
    intro y early z member
    rcases mem_cons.mp member with same | late
    · subst same
      intro protocol _ equal
      exact clear y (mem_append_left _ early) (Prod.ext protocol equal)
    · exact across y early z (mem_cons_of_mem _ late)

theorem finish_distinct (sound : PortSound n m) (taken : portStep m .finish = some m')
    (distinct : Distinct m.kernel.holders) : Distinct m'.kernel.holders ↔ m.Clear := by
  obtain ⟨_, h, fd, before, sock, after, held, target, found, port, holders⟩ :=
    finish_sound sound taken
  have old : m.kernel.holders =
      before.map Socket.holder ++ sock.holder :: after.map Socket.holder := by
    rw [State.holders, (find_split found).1, map_append, map_cons]
  rw [old] at distinct
  rw [holders, distinct_named (by omega) distinct]
  constructor
  · intro clear h' fd' before' sock' after' held' target' found' other member
    rw [held] at held'
    cases held'
    rw [target] at target'
    cases target'
    rw [found] at found'
    cases found'
    apply clear
    rw [← map_append]
    exact mem_map.mpr ⟨other, member, rfl⟩
  · intro clear y member
    rw [← map_append] at member
    obtain ⟨other, there, same⟩ := mem_map.mp member
    rw [← same]
    exact clear h fd before sock after held target found other there

section Runs
variable {setup : Setup} {past : List (PortState × PortMove)} {m : PortState}

theorem distinct_iff (run : Run portStep (PortState.start setup) past m)
    (unnamed : ∀ e ∈ past, e.2.unnamed = true) :
    Throughout (fun m => Distinct m.kernel.holders) past m ↔
      ∀ e ∈ past, e.2 = .finish → e.1.Clear := by
  have lawful := throughout_iff_of (fun _ a => a.unnamed = true) (fun m => ∃ n, PortSound n m)
    (fun m => Distinct m.kernel.holders) (fun m a => a = .finish ∧ ¬ m.Clear)
    ⟨0, start_sound setup⟩ List.Pairwise.nil
    (fun s a s' sound ok taken => ⟨_, step_sound sound.choose_spec ok taken⟩)
    (fun s a s' sound distinct ok quiet taken => by
      obtain ⟨n, sound⟩ := sound
      cases a with
      | begin =>
        rw [(begin_sound sound ok taken).2]
        exact distinct
      | finish =>
        have clear : s.Clear := not_not.mp fun bad => quiet ⟨rfl, bad⟩
        exact (finish_distinct sound taken distinct).mpr clear
      | move => exact shift_distinct (other_sound sound ok taken).2 distinct)
    (fun s a s' sound distinct ok bad taken => by
      obtain ⟨n, sound⟩ := sound
      obtain ⟨last, shared⟩ := bad
      subst last
      exact fun after => shared ((finish_distinct sound taken distinct).mp after))
    run unnamed
  rw [lawful]
  refine forall₂_congr fun e _ => ?_
  rw [not_and, not_not]

omit [Stack] in
theorem shift_below (shift : Shift holders holders') (some_ : 0 < bound)
    (below : ∀ x ∈ holders, x.2 < bound) : ∀ x ∈ holders', x.2 < bound := by
  intro x member
  cases shift with
  | same => exact below x member
  | opened =>
    rcases mem_append.mp member with old | new
    · exact below x old
    · rw [mem_singleton.mp new]
      exact some_
  | closed parts =>
    apply below
    rw [parts]
    rcases mem_append.mp member with early | late
    · exact mem_append_left _ early
    · exact mem_append_right _ (mem_cons_of_mem _ late)

theorem mem_holders {s : State} {fd : Int} {before after : List Socket} {sock other : Socket}
    (found : s.find fd = some (before, sock, after)) (member : other ∈ before ++ after) :
    other.holder ∈ s.holders := by
  apply List.mem_map_of_mem
  rw [(find_split found).1]
  rcases mem_append.mp member with early | late
  · exact mem_append_left _ early
  · exact mem_append_right _ (mem_cons_of_mem _ late)

theorem run_below (run : Run portStep (PortState.start setup) past m)
    (unnamed : ∀ e ∈ past, e.2.unnamed = true) :
    ∀ x ∈ m.kernel.holders, x.2 < 49152 + allocations past := by
  induction run with
  | nil =>
    intro x member
    cases member
  | @snoc past s s' a before taken ih =>
    have earlier : ∀ e ∈ past, e.2.unnamed = true :=
      fun e member => unnamed e (mem_cons_of_mem _ member)
    have below := ih earlier
    have sound := run_sound before earlier
    have ok := unnamed _ mem_cons_self
    rw [allocations_cons]
    cases a with
    | begin =>
      rw [(begin_sound sound ok taken).2]
      exact below
    | move => exact shift_below (other_sound sound ok taken).2 (by omega) below
    | finish =>
      obtain ⟨_, h, fd, front, sock, back, _, _, found, port, holders⟩ := finish_sound sound taken
      rw [holders, port]
      intro x member
      rcases mem_append.mp member with early | late
      · obtain ⟨other, there, same⟩ := mem_map.mp early
        have old := below _ (mem_holders found (mem_append_left _ there))
        rw [same] at old
        exact Nat.lt_succ_of_lt old
      · rcases mem_cons.mp late with own | late
        · rw [own]
          simp only [if_true]
          omega
        · obtain ⟨other, there, same⟩ := mem_map.mp late
          have old := below _ (mem_holders found (mem_append_right _ there))
          rw [same] at old
          exact Nat.lt_succ_of_lt old

theorem first_round_clear {n : Nat} (sound : PortSound n m) (first : n < 16384)
    (below : ∀ x ∈ m.kernel.holders, x.2 < 49152 + n) : m.Clear := by
  intro h fd before sock after held _ found other member same
  have old := below _ (mem_holders found member)
  rw [same, (sound.held h held).1, portOf_counter] at old
  omega

/-- In every run of calls that leave the choice of ports to the kernel, the ports come in turn out
    of the 16384 last ones. No two open sockets of one protocol ever have the same, exactly if the
    next port is that of no such socket whenever one is taken; which is so on the first round. -/
theorem ephemeral_ports_iff (run : Run portStep (PortState.start setup) past m)
    (unnamed : ∀ e ∈ past, e.2.unnamed = true) :
    (∀ later w earlier, past = later ++ (w, .finish) :: earlier → ∃ h, w.held = some h ∧
      portOf h.p = 49152 + allocations earlier % 16384 ∧ 49152 ≤ portOf h.p ∧
      portOf h.p ≤ 65535 ∧ (allocations earlier < 16384 → w.Clear)) ∧
    (Throughout (fun m => Distinct m.kernel.holders) past m ↔
      ∀ e ∈ past, e.2 = .finish → e.1.Clear) := by
  refine ⟨fun later w earlier parts => ?_, distinct_iff run unnamed⟩
  subst parts
  obtain ⟨mid, before, taken, _⟩ := run_at run
  have plain : ∀ e ∈ earlier, e.2.unnamed = true :=
    fun e member => unnamed e (mem_append_right _ (mem_cons_of_mem _ member))
  have sound := run_sound before plain
  obtain ⟨_, h, _, _, _, _, held, _, _, port, _⟩ := finish_sound sound taken
  refine ⟨h, held, port, by omega, by omega, fun first => ?_⟩
  exact first_round_clear sound first (run_below before plain)

end Runs

end

theorem two_sockets_bound : ∃ past m, Run portStep (PortState.start .fixed) past m ∧
    m.kernel.holders = [(true, 49152), (true, 49153)] ∧ ∀ e ∈ past, e.2 = .finish → e.1.Clear := by
  obtain ⟨past, m, run, tested, test⟩ := run_of_exec
    (fun (m : PortState) (a : PortMove) => a.unnamed && decide (Distinct m.kernel.holders))
    portStep (PortState.start .fixed)
    [.move (.call (.socket 2 2)), .move (.call (.socket 2 2)), .move (.turn 0), .move (.turn 1),
      .move (.turn 0), .move (.turn 1), .move (.turn 0), .begin (.bind 500 ⟨2, 0, 0⟩),
      .move .poll, .finish, .move (.turn 1), .begin (.bind 501 ⟨2, 0, 0⟩), .finish]
    (fun m => m.kernel.holders = [(true, 49152), (true, 49153)] ∧ Distinct m.kernel.holders)
    (by decide)
  simp only [Bool.and_eq_true, decide_eq_true_eq] at tested test
  have distinct : Throughout (fun m => Distinct m.kernel.holders) past m :=
    ⟨test.2, fun e member => (tested e member).2⟩
  have unnamed : ∀ e ∈ past, e.2.unnamed = true := fun e member => (tested e member).1
  exact ⟨past, m, run, test.1, (ephemeral_ports_iff run unnamed).2.mp distinct⟩

section Wrapped
variable {n born port : Nat} {calls : List Place}

def boundTo (port : Nat) : Inner := .udp ⟨port, []⟩

def oneBound : Arena Inner := Arena.put ⟨∅⟩ 0 (boundTo 49152)

def alone (n born : Nat) : State :=
  ⟨⟨true, [⟨500, .udpDgram, 0, false, [], 49152, 0, false, none, 0⟩], 502, [501]⟩,
    ⟨oneBound, [], none, 49152 + (n % 16384 : Nat)⟩, [], born⟩

def paired (port n born : Nat) : State :=
  ⟨⟨true, [⟨500, .udpDgram, 0, false, [], 49152, 0, false, none, 0⟩,
      ⟨501, .udpDgram, 1, false, [], port, 0, false, none, born⟩], 502, []⟩,
    ⟨oneBound.put 1 (boundTo port), [], none, 49152 + (n % 16384 : Nat)⟩, [], born + 1⟩

def few (m : PortState) (a : PortMove) : Bool := a.unnamed && m.kernel.sockets.length ≤ 2

def Reached (kernel : State) (calls : List Place) (held : Option Taking) : Prop :=
  ∃ past, Run portStep (PortState.start .fixed) past ⟨⟨kernel, calls⟩, held⟩ ∧
    ∀ e ∈ past, few e.1 e.2 = true

theorem reached_next (reached : Reached kernel calls held)
    (small : few ⟨⟨kernel, calls⟩, held⟩ a = true)
    (taken : portStep ⟨⟨kernel, calls⟩, held⟩ a = some ⟨⟨kernel', calls'⟩, held'⟩) :
    Reached kernel' calls' held' := by
  obtain ⟨past, run, tested⟩ := reached
  refine ⟨_, .snoc run taken, fun e member => ?_⟩
  rcases mem_cons.mp member with same | old
  · rw [same]
    exact small
  · exact tested e old

theorem turn_last (turned : Machine.turn ⟨kernel, calls ++ [place]⟩ calls.length place =
      some (Machine.goto ⟨kernel, calls ++ [place]⟩ calls.length kernel' place')) :
    portStep ⟨⟨kernel, calls ++ [place]⟩, none⟩ (.move (.turn calls.length)) =
      some ⟨⟨kernel', calls ++ [place']⟩, none⟩ := by
  have there : (calls ++ [place])[calls.length]? = some place := List.getElem?_concat_length
  have go : (⟨⟨kernel, calls ++ [place]⟩, none⟩ : PortState).waits (.turn calls.length) = false :=
    rfl
  rw [portStep, go]
  simp only [Bool.false_eq_true, if_false, Machine.move, there, turned, Machine.goto]
  simp

theorem reached_paired (reached : Reached (alone n born) calls none) :
    ∃ calls', Reached (paired 0 n born) calls' none := by
  have created := reached_next (a := .move (.call (.socket 2 2))) reached rfl rfl
  have picked := reached_next created rfl (turn_last rfl)
  exact ⟨_, reached_next picked rfl (turn_last rfl)⟩

theorem paired_bind (n born : Nat) : (paired 0 n born).call (.bind 501 ⟨2, 0, 0⟩) =
    some (paired (49152 + n % 16384) (n + 1) born, .code 0) := by
  have alloc : (paired 0 n born).net.allocEphemeralPort =
      ((paired 0 (n + 1) born).net, 49152 + n % 16384) := by
    obtain ⟨next, number⟩ := alloc_counter (paired 0 n born).net (n := n) rfl
    refine Prod.ext ?_ number
    exact congrArg (fun c => { (paired 0 n born).net with nextEphemeral := c }) next
  have found : (paired 0 n born).find 501 = some ([⟨500, .udpDgram, 0, false, [], 49152, 0, false,
      none, 0⟩], ⟨501, .udpDgram, 1, false, [], 0, 0, false, none, born⟩, []) := rfl
  have fresh : Udp.bind ⟨0, []⟩ (endpointOf 0 (49152 + n % 16384)) =
      some ⟨49152 + n % 16384, []⟩ := by
    refine if_neg ?_
    simp only [endpointOf]
    omega
  have slot : (paired 0 (n + 1) born).net.udp 1 = some ⟨0, []⟩ := rfl
  simp only [State.call, State.withSocket, found, Socket.bind, if_true, alloc, slot,
    map_some, fresh, ne_eq, not_true_eq_false, if_false]
  rfl

theorem reached_bound (reached : Reached (paired 0 n born) calls none) :
    Reached (paired (49152 + n % 16384) (n + 1) born) calls none := by
  have begun := reached_next (a := .begin (.bind 501 ⟨2, 0, 0⟩)) reached rfl rfl
  have bound := congrArg (Option.map fun r => (⟨⟨r.1, calls⟩, none⟩ : PortState))
    (paired_bind n born)
  exact reached_next (a := .finish) begun rfl bound

theorem reached_alone (reached : Reached (paired port n born) calls none) :
    ∃ calls', Reached (alone n (born + 1)) calls' none := by
  have removed := reached_next (a := .move (.call (.close 501))) reached rfl rfl
  have recycled := reached_next removed rfl (turn_last rfl)
  exact ⟨_, reached_next recycled rfl (turn_last rfl)⟩

theorem reached_again (k : Nat) : ∃ calls, Reached (alone (k + 2) (k + 2)) calls none := by
  induction k with
  | zero =>
    have done : exec few portStep (PortState.start .fixed)
      [.move (.call (.socket 2 2)), .move (.turn 0), .move (.turn 0), .move (.turn 0),
        .begin (.bind 500 ⟨2, 0, 0⟩), .finish, .move (.call (.socket 2 2)), .move (.turn 1),
        .move (.turn 1), .move (.turn 1), .begin (.bind 501 ⟨2, 0, 0⟩), .finish,
        .move (.call (.close 501)), .move (.turn 2), .move (.turn 2)]
      = some ⟨⟨alone 2 2, _⟩, none⟩ := rfl
    exact ⟨_, exec_extends .nil (by simp) done⟩
  | succ k ih =>
    obtain ⟨calls, reached⟩ := ih
    obtain ⟨calls', two⟩ := reached_paired reached
    exact reached_alone (reached_bound two)

/-- One socket keeps the first port. The others are opened, bound and closed one by one; the last
    of them comes to the first port again. -/
theorem port_given_twice : ∃ past m, Run portStep (PortState.start .fixed) past m ∧
    (∀ e ∈ past, e.2.unnamed = true ∧ e.1.kernel.sockets.length ≤ 2) ∧
    m.kernel.holders = [(true, 49152), (true, 49152)] ∧
    m.kernel.net.set.items = [(1, .udp ⟨49152, []⟩), (0, .udp ⟨49152, []⟩)] := by
  obtain ⟨calls, reached⟩ := reached_again 16382
  obtain ⟨calls', two⟩ := reached_paired reached
  obtain ⟨past, run, tested⟩ := reached_bound two
  refine ⟨past, _, run, fun e member => ?_, rfl, rfl⟩
  have small := tested e member
  simpa only [few, Bool.and_eq_true, decide_eq_true_eq] using small

end Wrapped
end TynKernel.Net
