import TynKernel.Net.Pool

/-!
The socket calls of many threads. socket, accept and close hold no lock from their start to
their end; every other call is one locked section.
-/
namespace TynKernel.Net
open Arenas Numbers Option Rows Runs
open Sockets (SockType)

/-- The entry that a call is about to make: socket one without a name, and accept a stream with the
    name of the listener and a peer to report. -/
inductive Fresh where
  | created (sockType : SockType) (handle : Nat) (nonblock : Bool)
  | accepted (handle : Nat) (nonblock : Bool) (localPort localAddr : Nat)
      (remote : Option IpEndpoint)
  deriving DecidableEq, Repr

namespace Fresh

def sockType : Fresh → SockType
  | created sockType _ _ => sockType
  | accepted _ _ _ _ _ => .tcpStream

def handle : Fresh → Nat
  | created _ handle _ => handle
  | accepted handle _ _ _ _ => handle

def socket (fd : Int) (id : Nat) : Fresh → Socket
  | created sockType handle nonblock =>
    ⟨fd, sockType, handle, nonblock, [], 0, 0, false, none, id⟩
  | accepted handle nonblock localPort localAddr _ =>
    ⟨fd, .tcpStream, handle, nonblock, [], localPort, localAddr, false, none, id⟩

def reply (fd : Int) : Fresh → Reply
  | created _ _ _ => .code fd
  | accepted _ _ _ _ remote => .accepted fd remote

def captured : Fresh → Option Nat
  | created _ _ _ => none
  | accepted handle _ _ _ _ => some handle

theorem socket_fd (e : Fresh) (fd : Int) (id : Nat) : (e.socket fd id).fd = fd := by
  cases e <;> rfl

theorem socket_owns (e : Fresh) (fd : Int) (id : Nat) :
    (e.socket fd id).owns = [(e.handle, kindOf e.sockType)] := by
  cases e <;> rfl

end Fresh

/-- The section that a call comes to next: the poll and the scan in the loop of accept, the two
    halves of alloc_fd, the entry into the table, and the two sections of close after the removal
    from the table. -/
inductive Place where
  | poll (a : Accept)
  | scan (a : Accept)
  | pick (e : Fresh)
  | count (e : Fresh)
  | publish (fd : Int) (e : Fresh)
  | recycle (sock : Socket)
  | release (sock : Socket)
  | returned (r : Reply)
  deriving DecidableEq, Repr

def Place.underway : Place → Bool
  | .returned _ => false
  | _ => true

/-- The state of the kernel, and the calls that more than one section is needed for, in the order
    of their start. A call that has returned keeps its place in the list. -/
structure Machine [Stack] where
  kernel : State
  calls : List Place

variable [Stack]

namespace Machine

def start (setup : Setup) : Machine := ⟨initial setup, []⟩

def begin (m : Machine) (kernel : State) (place : Place) : Machine := ⟨kernel, m.calls ++ [place]⟩

def goto (m : Machine) (i : Nat) (kernel : State) (place : Place) : Machine :=
  ⟨kernel, m.calls.set i place⟩

def sysSocket (m : Machine) (domain : Int) (sockType : Nat) : Machine :=
  match m.kernel.socketRequest domain sockType with
  | .error _ => m
  | .ok (st, nonblock) =>
    let added := m.kernel.net.add (createSocket st)
    m.begin { m.kernel with net := added.1 } (.pick (.created st added.2 nonblock))

def sysAccept (m : Machine) (fd : Int) (flags : Nat) : Machine :=
  match m.kernel.find fd with
  | none => m
  | some (_, sock, _) =>
    if sock.sockType ≠ .tcpListener then m
    else
      let nonblock : Bool := flags &&& 0x800 ≠ 0
      m.begin m.kernel (.poll ⟨fd, nonblock, sock.nonblock || nonblock, sock.localPort,
        sock.localAddr, sock.id, none⟩)

def close (m : Machine) (fd : Int) : Machine :=
  match m.kernel.find fd with
  | none => m
  | some (before, sock, after) =>
    m.begin { m.kernel with sockets := before ++ after } (.recycle sock)

def call (m : Machine) (c : Call) : Option Machine :=
  match c with
  | .socket domain sockType => some (m.sysSocket domain sockType)
  | .accept fd flags => some (m.sysAccept fd flags)
  | .close fd => some (m.close fd)
  | c => (m.kernel.call c).map fun result => { m with kernel := result.1 }

def scanned (m : Machine) (a : Accept) : Option (State × Option (Nat × Option IpEndpoint)) :=
  m.kernel.withSocket a.fd none (Socket.scan (endpointOf a.addr a.port))

def taken (a : Accept) (captured : Nat × Option IpEndpoint) : Fresh :=
  .accepted captured.1 a.nonblock a.port a.addr captured.2

def publish (kernel : State) (fd : Int) (e : Fresh) : State :=
  { kernel with
    sockets := kernel.sockets ++ [e.socket fd kernel.born]
    born := kernel.born + 1 }

def turn (m : Machine) (i : Nat) : Place → Option Machine
  | .poll a => m.kernel.poll.map fun kernel => m.goto i kernel (.scan a)
  | .scan a =>
    match m.scanned a with
    | none => none
    | some (kernel, some captured) => some (m.goto i kernel (.pick (taken a captured)))
    | some (kernel, none) =>
      some (m.goto i kernel (if a.nonblockCall then .returned (.code (-11)) else .poll a))
  | .pick e =>
    match m.kernel.recycledFds with
    | fd :: rest => some (m.goto i { m.kernel with recycledFds := rest } (.publish fd e))
    | [] => some (m.goto i m.kernel (.count e))
  | .count e =>
    some (m.goto i { m.kernel with nextSockFd := asI32 (m.kernel.nextSockFd + 1) }
      (.publish m.kernel.nextSockFd e))
  | .publish fd e => some (m.goto i (publish m.kernel fd e) (.returned (e.reply fd)))
  | .recycle sock =>
    some (m.goto i { m.kernel with recycledFds := sock.fd :: m.kernel.recycledFds }
      (.release sock))
  | .release sock =>
    (sock.release m.kernel.net).map fun net =>
      m.goto i { m.kernel with net := net } (.returned (.code 0))
  | .returned _ => none

/-- Four bytes for each entry of the table, each number given back and each call underway are in
    the four GiB of memory that the kernel maps. -/
def fits (m : Machine) : Bool :=
  4 * (m.kernel.sockets.length + m.kernel.recycledFds.length + m.calls.countP Place.underway) ≤
    2 ^ 32

end Machine

inductive Move where
  | call (c : Call)
  | turn (i : Nat)
  | poll
  | tcp (h : Nat) (event : TcpEvent)
  | datagram (h : Nat) (src : IpEndpoint) (data : List UInt8)
  deriving DecidableEq, Repr

namespace Machine

def move (m : Machine) : Move → Option Machine
  | .call c => m.call c
  | .turn i =>
    match m.calls[i]? with
    | none => none
    | some place => m.turn i place
  | .poll => (step m.kernel .poll).map fun kernel => { m with kernel := kernel }
  | .tcp h event => (step m.kernel (.tcp h event)).map fun kernel => { m with kernel := kernel }
  | .datagram h src data =>
    (step m.kernel (.datagram h src data)).map fun kernel => { m with kernel := kernel }

def next (m : Machine) (a : Move) : Option Machine := (m.move a).filter fits

end Machine

def Action.isEvent : Action → Bool
  | .poll | .tcp _ _ | .datagram _ _ _ => true
  | .call _ | .accepting _ => false

open Machine in
inductive Progress (m : Machine) : Move → Machine → Prop where
  | inPlace {c : Call} {fd : Int} {kernel : State} {r : Reply} (target : c.target = some fd)
      (done : m.kernel.call c = some (kernel, r)) :
      Progress m (.call c) { m with kernel := kernel }
  | ended {c : Call} (none_ : c.target = none) : Progress m (.call c) m
  | created {domain : Int} {sockType : Nat} {st : SockType} {inner : Inner} {nonblock : Bool}
      (kind : inner.kind = kindOf st) :
      Progress m (.call (.socket domain sockType))
        (m.begin { m.kernel with net := (m.kernel.net.add inner).1 }
          (.pick (.created st (m.kernel.net.add inner).2 nonblock)))
  | called {fd : Int} {flags : Nat} (a : Accept) :
      Progress m (.call (.accept fd flags)) (m.begin m.kernel (.poll a))
  | removed {fd : Int} {before after : List Socket} {sock : Socket}
      (found : m.kernel.find fd = some (before, sock, after)) :
      Progress m (.call (.close fd))
        (m.begin { m.kernel with sockets := before ++ after } (.recycle sock))
  | polled {i : Nat} {a : Accept} {kernel : State} (here : m.calls[i]? = some (.poll a))
      (done : m.kernel.poll = some kernel) : Progress m (.turn i) (m.goto i kernel (.scan a))
  | captured {i : Nat} {a : Accept} {kernel : State} {c : Nat × Option IpEndpoint}
      (here : m.calls[i]? = some (.scan a)) (done : m.scanned a = some (kernel, some c)) :
      Progress m (.turn i) (m.goto i kernel (.pick (taken a c)))
  | missed {i : Nat} {a : Accept} {kernel : State} (here : m.calls[i]? = some (.scan a))
      (done : m.scanned a = some (kernel, none)) :
      Progress m (.turn i)
        (m.goto i kernel (if a.nonblockCall then .returned (.code (-11)) else .poll a))
  | reused {i : Nat} {e : Fresh} {fd : Int} {rest : List Int}
      (here : m.calls[i]? = some (.pick e)) (free : m.kernel.recycledFds = fd :: rest) :
      Progress m (.turn i) (m.goto i { m.kernel with recycledFds := rest } (.publish fd e))
  | none_free {i : Nat} {e : Fresh} (here : m.calls[i]? = some (.pick e))
      (empty : m.kernel.recycledFds = []) : Progress m (.turn i) (m.goto i m.kernel (.count e))
  | counted {i : Nat} {e : Fresh} (here : m.calls[i]? = some (.count e)) :
      Progress m (.turn i)
        (m.goto i { m.kernel with nextSockFd := asI32 (m.kernel.nextSockFd + 1) }
          (.publish m.kernel.nextSockFd e))
  | published {i : Nat} {fd : Int} {e : Fresh} (here : m.calls[i]? = some (.publish fd e)) :
      Progress m (.turn i) (m.goto i (publish m.kernel fd e) (.returned (e.reply fd)))
  | recycled {i : Nat} {sock : Socket} (here : m.calls[i]? = some (.recycle sock)) :
      Progress m (.turn i)
        (m.goto i { m.kernel with recycledFds := sock.fd :: m.kernel.recycledFds }
          (.release sock))
  | released {i : Nat} {sock : Socket} {net : NetState}
      (here : m.calls[i]? = some (.release sock)) (done : sock.release m.kernel.net = some net) :
      Progress m (.turn i) (m.goto i { m.kernel with net := net } (.returned (.code 0)))
  | event {a : Move} {action : Action} {kernel : State} (isEvent : action.isEvent = true)
      (other : ∀ i, a ≠ .turn i) (noCall : ∀ c, a ≠ .call c)
      (done : step m.kernel action = some kernel) : Progress m a { m with kernel := kernel }

section Progress
variable {m m' : Machine}

theorem sysSocket_progress (m : Machine) (domain : Int) (sockType : Nat) :
    Progress m (.call (.socket domain sockType)) (m.sysSocket domain sockType) := by
  unfold Machine.sysSocket
  split
  · exact .ended rfl
  · rename_i st nonblock _
    refine .created ?_
    cases st <;> rfl

theorem call_inPlace (target : c.target = some fd) :
    m.call c = (m.kernel.call c).map fun result => { m with kernel := result.1 } := by
  cases c with
  | socket domain sockType | accept fd' flags | close fd' => cases target
  | _ => rfl

theorem call_progress (done : m.call c = some m') : Progress m (.call c) m' := by
  cases target : c.target with
  | some =>
    rw [call_inPlace target] at done
    obtain ⟨⟨kernel, r⟩, inner, same⟩ := map_eq_some_iff.mp done
    subst same
    exact .inPlace target inner
  | none =>
    cases c with
    | socket domain sockType =>
      cases done
      exact sysSocket_progress m domain sockType
    | accept =>
      cases done
      unfold Machine.sysAccept
      split
      · exact .ended rfl
      · split
        · exact .ended rfl
        · exact .called _
    | close =>
      cases done
      unfold Machine.close
      split
      · exact .ended rfl
      · rename_i found
        exact .removed found
    | _ => cases target

theorem turn_progress (here : m.calls[i]? = some place) (done : m.turn i place = some m') :
    Progress m (.turn i) m' := by
  cases place with
  | poll =>
    obtain ⟨kernel, polled, same⟩ := map_eq_some_iff.mp done
    subst same
    exact .polled here polled
  | scan =>
    simp only [Machine.turn] at done
    split at done
    · cases done
    · rename_i scanned
      cases done
      exact .captured here scanned
    · rename_i scanned
      cases done
      exact .missed here scanned
  | pick =>
    simp only [Machine.turn] at done
    split at done
    · rename_i free
      cases done
      exact .reused here free
    · rename_i empty
      cases done
      exact .none_free here empty
  | count =>
    cases done
    exact .counted here
  | publish =>
    cases done
    exact .published here
  | recycle =>
    cases done
    exact .recycled here
  | release =>
    obtain ⟨net, released, same⟩ := map_eq_some_iff.mp done
    subst same
    exact .released here released
  | returned => cases done

theorem next_fits (taken : m.next a = some m') : m'.fits = true := by
  obtain ⟨_, fits⟩ := filter_eq_some_iff.mp taken
  exact fits

theorem move_progress (moved : m.move a = some m') : Progress m a m' := by
  cases a with
  | call => exact call_progress moved
  | turn =>
    simp only [Machine.move] at moved
    split at moved
    · cases moved
    · rename_i place here
      exact turn_progress here moved
  | poll | tcp h event | datagram h src data =>
    obtain ⟨kernel, done, same⟩ := map_eq_some_iff.mp moved
    subst same
    exact .event rfl (fun i same => by cases same) (fun c same => by cases same) done

theorem next_progress (taken : m.next a = some m') : Progress m a m' :=
  move_progress (filter_eq_some_iff.mp taken).1

theorem event_net (isEvent : action.isEvent = true) (done : step s action = some s') :
    ∃ net, s' = { s with net := net } := by
  cases action with
  | call c | accepting i => cases isEvent
  | poll =>
    obtain ⟨net, _, same⟩ := map_eq_some_iff.mp done
    exact ⟨net, same.symm⟩
  | tcp =>
    obtain ⟨t, _, same⟩ := map_eq_some_iff.mp done
    exact ⟨_, same.symm⟩
  | datagram =>
    obtain ⟨u, _, same⟩ := map_eq_some_iff.mp done
    exact ⟨_, same.symm⟩

end Progress

end TynKernel.Net
