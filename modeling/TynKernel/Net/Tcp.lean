import TynKernel.Lib.Arena

/-!
The sockets of the network stack, as far as the socket calls see them. The stack itself is a
parameter, and what its functions do is known by their laws only. What the peer and the timers
do is a choice of the environment, one event at a time.
-/
namespace TynKernel.Net
open Arenas

inductive TcpState where
  | closed | listen | synSent | synReceived | established | finWait1 | finWait2 | closeWait
  | closing | lastAck | timeWait
  deriving DecidableEq, Repr

/-- An address of four octets and a port. The unspecified address is zero. -/
structure IpEndpoint where
  addr : Nat
  port : Nat
  deriving DecidableEq, Repr

structure ListenEndpoint where
  addr : Option Nat
  port : Nat
  deriving DecidableEq, Repr

/-- Segments of the peer as they are processed, and timers. -/
inductive TcpEvent where
  | syn (remote : IpEndpoint)
  | ack
  | data (bytes : List UInt8)
  | fin
  | rst
  | expire
  | drained (n : Nat)
  deriving DecidableEq, Repr

namespace TcpState

def isOpen (state : TcpState) : Bool := state ≠ .closed ∧ state ≠ .timeWait

def next : TcpState → TcpEvent → TcpState
  | .listen, .syn _ | .synSent, .syn _ => .synReceived
  | .synSent, .ack | .synReceived, .ack => .established
  | .finWait1, .ack => .finWait2
  | .closing, .ack | .finWait2, .fin => .timeWait
  | .synReceived, .fin | .established, .fin => .closeWait
  | .finWait1, .fin => .closing
  | .listen, .rst | .synReceived, .rst => .listen
  | .lastAck, .ack | .synSent, .expire | .timeWait, .expire | _, .rst => .closed
  | state, _ => state

def delivered : TcpState → TcpEvent → List UInt8
  | .established, .data bytes => bytes
  | _, _ => []

end TcpState

/-- What the stack keeps of a socket and no call looks at. -/
class Internals where
  OfTcp : Type
  OfUdp : Type

/-- The bytes that the peer has sent and nobody has read yet, those that the stack has taken for
    sending on this connection, and the room left for more. -/
structure Tcp [Internals] where
  state : TcpState
  remote : Option IpEndpoint
  rx : List UInt8
  sent : List UInt8
  txFree : Nat
  rest : Internals.OfTcp

structure Udp [Internals] where
  port : Nat
  rest : Internals.OfUdp

inductive SendError where
  | unaddressable | bufferFull

/-- The functions of the stack. The result none is an error. Whether there is a route, or room for
    a datagram, is a choice of the environment. -/
class Stack extends Internals, Handles where
  -- of connections
  new : (txSize : Nat) → Tcp
  isActive : Tcp → Bool
  isListening : Tcp → Bool
  canRecv : Tcp → Bool
  canSend : Tcp → Bool
  listen_ : Tcp → ListenEndpoint → Option Tcp
  connect : Tcp → (routed : Bool) → (remote : IpEndpoint) → (localPort : Nat) → Option Tcp
  close : Tcp → Tcp
  sendSlice : Tcp → List UInt8 → Option (Tcp × Nat)
  recvSlice : Tcp → Nat → Option (Tcp × List UInt8)
  on : Tcp → TcpEvent → Tcp
  -- of datagram sockets
  udp : Udp
  bind : Udp → ListenEndpoint → Option Udp
  hasDatagram : Udp → Bool
  sendDatagram : Udp → (room : Bool) → (remote : IpEndpoint) → List UInt8 → Except SendError Unit
  recvDatagram : Udp → Option (Udp × IpEndpoint × List UInt8)
  arrive : Udp → IpEndpoint → List UInt8 → Udp
  -- what is known of them
  isActive_iff : ∀ t, isActive t = true ↔
    t.state ≠ .closed ∧ t.state ≠ .timeWait ∧ t.state ≠ .listen
  isListening_iff : ∀ t, isListening t = true ↔ t.state = .listen
  canRecv_iff : ∀ t, canRecv t = true ↔ t.rx ≠ []
  canSend_iff : ∀ t, canSend t = true ↔
    (t.state = .established ∨ t.state = .closeWait) ∧ 0 < t.txFree
  new_listens : ∀ txSize endpoint, endpoint.port ≠ 0 → (listen_ (new txSize) endpoint).isSome
  listen_some : ∀ t endpoint t', listen_ t endpoint = some t' →
    endpoint.port ≠ 0 ∧ (t.state.isOpen → t.state = .listen) ∧ t'.state = .listen ∧
      listen_ t' endpoint = some t'
  connect_some : ∀ t routed remote localPort t', connect t routed remote localPort = some t' →
    ¬ t.state.isOpen ∧ t'.state = .synSent
  sendSlice_spec : ∀ t data, canSend t →
    ∃ t', sendSlice t data = some (t', min data.length t.txFree) ∧ t'.state = t.state ∧
      t'.sent = t.sent ++ data.take (min data.length t.txFree) ∧
      t'.txFree = t.txFree - min data.length t.txFree
  recvSlice_spec : ∀ t len, canRecv t →
    ∃ t', recvSlice t len = some (t', t.rx.take len) ∧ t'.state = t.state ∧ t'.rx = t.rx.drop len
  on_state : ∀ t event, (on t event).state = t.state.next event
  on_rx : ∀ t event, t.state = .established ∨ t.state = .closeWait ∨ t.state = .closed →
    (on t event).rx = t.rx ++ t.state.delivered event
  bind_some : ∀ u endpoint u', bind u endpoint = some u' →
    u.port = 0 ∧ endpoint.port ≠ 0 ∧ u'.port = endpoint.port

namespace Tcp
export Stack (new isActive isListening canRecv canSend listen_ connect close sendSlice recvSlice on)

def ready [Internals] (t : Tcp) : Bool := t.state = .established ∨ t.state = .closeWait

end Tcp

namespace Udp
export Stack (bind hasDatagram sendDatagram recvDatagram arrive)
end Udp

/-- The endpoint that a connection listens on and the size of its buffer, and the queue of a
    datagram socket. -/
instance (priority := low) simpleInternals : Internals where
  OfTcp := ListenEndpoint × Nat
  OfUdp := List (IpEndpoint × List UInt8)

/-- A stack that meets the laws. -/
instance (priority := low) simpleStack : Stack where
  fresh := above
  fresh_not_mem := above_not_mem
  new txSize := ⟨.closed, none, [], [], txSize, ⟨none, 0⟩, txSize⟩
  isActive t := t.state ≠ .closed ∧ t.state ≠ .timeWait ∧ t.state ≠ .listen
  isListening t := t.state = .listen
  canRecv t := t.rx ≠ []
  canSend t := (t.state = .established ∨ t.state = .closeWait) ∧ 0 < t.txFree
  listen_ t endpoint :=
    if endpoint.port = 0 then none
    else if t.state.isOpen then
      if t.state = .listen ∧ t.rest.1 = endpoint then some t else none
    else some ⟨.listen, none, [], [], t.rest.2, endpoint, t.rest.2⟩
  connect t routed remote localPort :=
    if t.state.isOpen ∨ remote.port = 0 ∨ remote.addr = 0 ∨ localPort = 0 ∨ !routed then none
    else some ⟨.synSent, some remote, [], [], t.rest.2, ⟨none, 0⟩, t.rest.2⟩
  close t := match t.state with
    | .listen | .synSent => { t with state := .closed }
    | .synReceived | .established => { t with state := .finWait1 }
    | .closeWait => { t with state := .lastAck }
    | .finWait1 | .finWait2 | .closing | .timeWait | .lastAck | .closed => t
  sendSlice t data :=
    let n := min data.length t.txFree
    some ({ t with sent := t.sent ++ data.take n, txFree := t.txFree - n }, n)
  recvSlice t len := some ({ t with rx := t.rx.drop len }, t.rx.take len)
  on t event :=
    { t with
      state := t.state.next event
      remote := match t.state, event with
        | .listen, .syn remote => some remote
        | _, .rst => none
        | _, _ => t.remote
      rx := t.rx ++ t.state.delivered event
      txFree := match event with
        | .drained n => t.txFree + n
        | _ => t.txFree }
  udp := ⟨0, []⟩
  bind u endpoint :=
    if endpoint.port = 0 ∨ u.port ≠ 0 then none else some { u with port := endpoint.port }
  hasDatagram u := !List.isEmpty u.rest
  sendDatagram u room remote _ :=
    if u.port = 0 ∨ remote.port = 0 ∨ remote.addr = 0 then .error .unaddressable
    else if room then .ok () else .error .bufferFull
  recvDatagram u := match u.rest with
    | [] => none
    | (src, data) :: rest => some ({ u with rest := rest }, src, data)
  arrive u src data := { u with rest := List.append u.rest [(src, data)] }
  isActive_iff := by simp
  isListening_iff := by simp
  canRecv_iff := by simp
  canSend_iff := by simp
  new_listens txSize endpoint port := by simp [port, TcpState.isOpen]
  listen_some t endpoint t' done := by
    split at done
    · cases done
    rename_i port
    split at done
    · split at done
      · rename_i already
        cases done
        exact ⟨port, fun _ => already.1, already.1, by simp [port, already, TcpState.isOpen]⟩
      · cases done
    · rename_i shut
      cases done
      exact ⟨port, fun open_ => absurd open_ shut, rfl, by simp [port, TcpState.isOpen]⟩
  connect_some t routed remote localPort t' done := by
    split at done
    · cases done
    · rename_i fine
      cases done
      exact ⟨fun open_ => fine (.inl open_), rfl⟩
  sendSlice_spec _ _ _ := ⟨_, rfl, rfl, rfl, rfl⟩
  recvSlice_spec _ _ _ := ⟨_, rfl, rfl, rfl⟩
  on_state _ _ := rfl
  on_rx _ _ _ := rfl
  bind_some u endpoint u' done := by
    split at done
    · cases done
    · rename_i free
      cases done
      exact ⟨not_not.mp (fun used => free (.inr used)), fun zero => free (.inl zero), rfl⟩

inductive Inner [Internals] where
  | tcp (t : Tcp)
  | udp (u : Udp)
  | dhcp

inductive Kind where
  | tcp | udp | dhcp
  deriving DecidableEq, Repr

def Inner.kind [Internals] : Inner → Kind
  | .tcp _ => .tcp
  | .udp _ => .udp
  | .dhcp => .dhcp

end TynKernel.Net
