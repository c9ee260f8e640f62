import TynKernel.Lib.Rows
import TynKernel.Lib.Runs
import TynKernel.Net.Sockets
import TynKernel.Net.Tcp

/-!
The socket calls over the network stack. Each call holds the lock of the socket table and is
one step, except accept, which scans the pool of its listener again and again. A typed access
to a handle of another type, or to one that was removed, stops the kernel, which is the result
none.
-/
namespace TynKernel.Net
open Arenas Numbers Rows Runs
open Sockets (SockType sockFdBase)
variable [Stack]

def listenerPoolSize : Nat := 64

/-- An entry of the socket table. The id is not in the kernel: it tells apart the entries that
    have had the same number one after the other. -/
structure Socket where
  fd : Int
  sockType : SockType
  handle : Nat
  nonblock : Bool
  backlog : List Nat
  localPort : Nat
  localAddr : Nat
  connecting : Bool
  udpPeer : Option IpEndpoint
  id : Nat
  deriving DecidableEq, Repr

/-- The state of the stack and of what hangs on it: handles of closed sockets that are not
    finished, the address client, and the counter of ports. -/
structure NetState where
  set : Arena Inner
  closing : List Nat
  dhcp : Option Nat
  nextEphemeral : Int

structure Accept where
  fd : Int
  nonblock : Bool
  nonblockCall : Bool
  port : Nat
  addr : Nat
  listener : Nat
  captured : Option (Nat × Option IpEndpoint)
  deriving DecidableEq, Repr

structure State extends Sockets.Table Socket where
  net : NetState
  accepts : List Accept
  born : Nat

inductive Setup where
  | absent | fixed | dhcp
  deriving DecidableEq, Repr

def initial (setup : Setup) : State where
  toTable := .empty (setup ≠ .absent)
  net := match setup with
    | .dhcp =>
      let added := Arena.add ⟨∅⟩ Inner.dhcp
      ⟨added.1, [], some added.2, 49152⟩
    | _ => ⟨⟨∅⟩, [], none, 49152⟩
  accepts := []
  born := 0

namespace NetState

def tcp (net : NetState) (h : Nat) : Option Tcp :=
  match net.set.get? h with
  | some (.tcp t) => some t
  | _ => none

def udp (net : NetState) (h : Nat) : Option Udp :=
  match net.set.get? h with
  | some (.udp u) => some u
  | _ => none

def put (net : NetState) (h : Nat) (inner : Inner) : NetState :=
  { net with set := net.set.put h inner }

def remove (net : NetState) (h : Nat) : NetState := { net with set := net.set.remove h }

def add (net : NetState) (inner : Inner) : NetState × Nat :=
  ({ net with set := (net.set.add inner).1 }, (net.set.add inner).2)

def allocEphemeralPort (net : NetState) : NetState × Nat :=
  let p := net.nextEphemeral
  let port := 49152 + (asI32 (p - 49152)) % 16384
  ({ net with nextEphemeral := if 65535 ≤ port then 49152 else asI32 (p + 1) }, port.toNat)

def installFreshListener (net : NetState) (endpoint : ListenEndpoint) : NetState × Nat :=
  let listener := Tcp.new 32768
  net.add (.tcp ((listener.listen_ endpoint).getD listener))

def freshListeners (endpoint : ListenEndpoint) : Nat → NetState → NetState × List Nat
  | 0, net => (net, [])
  | n + 1, net =>
    let one := net.installFreshListener endpoint
    let more := freshListeners endpoint n one.1
    (more.1, one.2 :: more.2)

def gcFrom : (fuel i : Nat) → NetState → Option NetState
  | 0, _, net => some net
  | fuel + 1, i, net =>
    match net.closing[i]? with
    | none => some net
    | some h =>
      match net.tcp h with
      | none => none
      | some t =>
        if t.state = .closed ∨ t.state = .timeWait then
          gcFrom fuel i { net.remove h with closing := swapRemove net.closing i }
        else gcFrom fuel (i + 1) net

def poll (net : NetState) : Option NetState :=
  match net.dhcp with
  | none => gcFrom net.closing.length 0 net
  | some h =>
    match net.set.get? h with
    | some .dhcp => gcFrom net.closing.length 0 net
    | _ => none

end NetState

def endpointOf (addr port : Nat) : ListenEndpoint := ⟨if addr = 0 then none else some addr, port⟩

structure SockAddr where
  family : Nat
  port : Nat
  addr : Nat
  deriving DecidableEq, Repr

inductive Reply where
  | code (value : Int)
  | name (endpoint : IpEndpoint)
  | bytes (count : Int) (data : List UInt8) (src : Option IpEndpoint)
  | option (words : List Int)
  | events (pollIn pollOut pollErr pollHup : Bool)
  | accepted (fd : Int) (peer : Option IpEndpoint)
  | pending
  deriving DecidableEq, Repr

namespace Socket

def bindEphemeral (sock : Socket) (net : NetState) : NetState × Socket :=
  if sock.localPort = 0 then
    let alloc := net.allocEphemeralPort
    (alloc.1, { sock with localPort := alloc.2 })
  else (net, sock)

def udpBound (net : NetState) (sock : Socket) : Option (NetState × Socket) :=
  if sock.localPort = 0 then
    let bound := sock.bindEphemeral net
    (bound.1.udp sock.handle).map fun u =>
      (bound.1.put sock.handle (.udp ((u.bind ⟨none, bound.2.localPort⟩).getD u)), bound.2)
  else some (net, sock)

/-- connect on a stream socket. It makes a listener a stream, even if the stack refuses. -/
def connectStream (remote : IpEndpoint) (routed : Bool) (net : NetState) (sock : Socket) :
    Option (NetState × Socket × Reply) :=
  let bound := sock.bindEphemeral net
  let net := bound.1
  let sock := { bound.2 with sockType := .tcpStream }
  (net.tcp sock.handle).map fun t =>
    match t.connect routed remote sock.localPort with
    | some t => (net.put sock.handle (.tcp t), { sock with connecting := true }, .code (-115))
    | none => (net, { sock with connecting := false }, .code (-111))

def connect (remote : IpEndpoint) (routed : Bool) (net : NetState) (sock : Socket) :
    Option (NetState × Socket × Reply) :=
  match sock.sockType with
  | .udpDgram =>
    (udpBound net { sock with udpPeer := some remote }).map fun bound =>
      (bound.1, bound.2, .code 0)
  | .tcpStream | .tcpListener => connectStream remote routed net sock

def bind (port addr : Nat) (net : NetState) (sock : Socket) : Option (NetState × Socket × Reply) :=
  let bound := if port = 0 then net.allocEphemeralPort else (net, port)
  let net := bound.1
  let sock := { sock with localPort := bound.2, localAddr := addr }
  match sock.sockType with
  | .udpDgram =>
    (net.udp sock.handle).map fun u =>
      match u.bind (endpointOf addr bound.2) with
      | some u => (net.put sock.handle (.udp u), sock, .code 0)
      | none => (net, sock, .code (-98))
  | .tcpStream | .tcpListener => some (net, sock, .code 0)

def listen (net : NetState) (sock : Socket) : Option (NetState × Socket × Reply) :=
  let sock := { sock with sockType := .tcpListener }
  let endpoint := endpointOf sock.localAddr sock.localPort
  (net.tcp sock.handle).map fun t =>
    match t.listen_ endpoint with
    | none => (net, sock, .code (-98))
    | some t =>
      let pool := (net.put sock.handle (.tcp t)).freshListeners endpoint (listenerPoolSize - 1)
      (pool.1, { sock with backlog := pool.2 }, .code 0)

def firstReady (net : NetState) : Nat → List Nat → Option (Option (Nat × Nat × Option IpEndpoint))
  | _, [] => some none
  | i, h :: rest =>
    match net.tcp h with
    | none => none
    | some t => if t.ready then some (some (i, h, t.remote)) else firstReady net (i + 1) rest

def scan (endpoint : ListenEndpoint) (net : NetState) (sock : Socket) :
    Option (NetState × Socket × Option (Nat × Option IpEndpoint)) :=
  match net.tcp sock.handle with
  | none => none
  | some t =>
    if t.ready then
      let fresh := net.installFreshListener endpoint
      some (fresh.1, { sock with handle := fresh.2 }, some (sock.handle, t.remote))
    else
      match firstReady net 0 sock.backlog with
      | none => none
      | some none => some (net, sock, none)
      | some (some (i, h, remote)) =>
        let fresh := net.installFreshListener endpoint
        some (fresh.1, { sock with backlog := sock.backlog.set i fresh.2 }, some (h, remote))

def getsockname (net : NetState) (sock : Socket) : Option (NetState × Socket × Reply) :=
  some (net, sock, .name ⟨sock.localAddr, sock.localPort⟩)

def getpeername (net : NetState) (sock : Socket) : Option (NetState × Socket × Reply) :=
  (net.tcp sock.handle).map fun t =>
    match t.remote with
    | some remote => (net, sock, .name remote)
    | none => (net, sock, .code (-107))

/-- The outcome of a connect as SO_ERROR gives it. It is looked at for every option. -/
def soError (net : NetState) (sock : Socket) : Option (NetState × Socket × Int) :=
  if sock.sockType = .tcpStream ∧ sock.connecting then
    (net.tcp sock.handle).map fun t =>
      match t.state with
      | .established => (net, { sock with connecting := false }, 0)
      | .closed | .timeWait | .closeWait => (net, { sock with connecting := false }, 111)
      | _ => (net, sock, 0)
  else some (net, sock, 0)

def optionWords (level optname : Int) (len : Nat) (soError : Int) : List Int :=
  if level = 1 ∧ optname = 13 then if 8 ≤ len then [0, 0] else []
  else if level = 1 ∧ optname = 4 then if 4 ≤ len then [soError] else []
  else if 4 ≤ len then [0] else []

def getsockopt (level optname : Int) (len : Nat) (net : NetState) (sock : Socket) :
    Option (NetState × Socket × Reply) :=
  (soError net sock).map fun result =>
    (result.1, result.2.1, .option (optionWords level optname len result.2.2))

/-- What is taken fits into a buffer of the stack, so the count fits into a word. -/
def sendto (data : List UInt8) (dest : Option IpEndpoint) (room : Bool) (net : NetState)
    (sock : Socket) : Option (NetState × Socket × Reply) :=
  match sock.sockType with
  | .udpDgram =>
    match dest.or sock.udpPeer with
    | none => some (net, sock, .code (-89))
    | some remote =>
      match udpBound net sock with
      | none => none
      | some (net, sock) =>
        match net.udp sock.handle with
        | none => none
        | some u => net.poll.map fun net =>
          (net, sock, .code (match u.sendDatagram room remote data with
            | .ok _ => data.length
            | .error .bufferFull => -11
            | .error .unaddressable => -22))
  | .tcpStream =>
    (net.tcp sock.handle).map fun t =>
      if t.canSend then
        match t.sendSlice data with
        | some (t, sent) => (net.put sock.handle (.tcp t), sock, .code sent)
        | none => (net, sock, .code (-104))
      else (net, sock, .code (-11))
  | .tcpListener => some (net, sock, .code (-95))

def recvfrom (len : Nat) (net : NetState) (sock : Socket) : Option (NetState × Socket × Reply) :=
  match sock.sockType with
  | .tcpStream =>
    (net.tcp sock.handle).map fun t =>
      if t.canRecv then
        match t.recvSlice len with
        | some (t, data) => (net.put sock.handle (.tcp t), sock, .bytes data.length data none)
        | none => (net, sock, .bytes (-104) [] none)
      else if t.isActive then (net, sock, .bytes (-11) [] none)
      else (net, sock, .bytes 0 [] none)
  | .udpDgram =>
    (net.udp sock.handle).map fun u =>
      match if u.hasDatagram then u.recvDatagram else none with
      | none => (net, sock, .bytes (-11) [] none)
      | some (u, src, data) =>
        let n := min data.length len
        (net.put sock.handle (.udp u), sock, .bytes n (data.take n) (some src))
  | .tcpListener => some (net, sock, .bytes (-9) [] none)

def anyActive (net : NetState) : List Nat → Option Bool
  | [] => some false
  | h :: rest =>
    match net.tcp h with
    | none => none
    | some t => if t.isActive then some true else anyActive net rest

def pollSocket (room : Bool) (net : NetState) (sock : Socket) :
    Option (NetState × Socket × Reply) :=
  match sock.sockType with
  | .tcpStream =>
    (net.tcp sock.handle).map fun t =>
      if sock.connecting then
        match t.state with
        | .established => (net, { sock with connecting := false }, .events false true false false)
        | .closed | .timeWait | .closeWait => (net, sock, .events false true true false)
        | _ => (net, sock, .events false false false false)
      else (net, sock, .events t.canRecv t.canSend false (!t.isActive && !t.isListening))
  | .tcpListener =>
    match net.tcp sock.handle with
    | none => none
    | some t =>
      if t.isActive then some (net, sock, .events true false false false)
      else (anyActive net sock.backlog).map fun found =>
        (net, sock, .events found false false false)
  | .udpDgram =>
    (net.udp sock.handle).map fun u => (net, sock, .events u.hasDatagram room false false)

def setNonblock (nonblock : Bool) (net : NetState) (sock : Socket) :
    Option (NetState × Socket × Reply) :=
  some (net, { sock with nonblock := nonblock }, .code 0)

def release (net : NetState) (sock : Socket) : Option NetState :=
  match sock.sockType with
  | .tcpStream =>
    (net.tcp sock.handle).map fun t =>
      { net.put sock.handle (.tcp t.close) with closing := net.closing ++ [sock.handle] }
  | .tcpListener => removeAll net (sock.handle :: sock.backlog)
  | .udpDgram => (net.udp sock.handle).map fun _ => net.remove sock.handle
where
  /-- Each listener of the pool is closed and removed. -/
  removeAll (net : NetState) : List Nat → Option NetState
    | [] => some net
    | h :: rest =>
      match net.tcp h with
      | none => none
      | some _ => removeAll (net.remove h) rest

end Socket

inductive Call where
  | socket (domain : Int) (sockType : Nat)
  | connect (fd : Int) (addr : SockAddr) (routed : Bool)
  | bind (fd : Int) (addr : SockAddr)
  | listen (fd : Int)
  | accept (fd : Int) (flags : Nat)
  | getsockname (fd : Int)
  | getpeername (fd : Int)
  | setsockopt (fd level optname : Int)
  | getsockopt (fd level optname : Int) (len : Option Nat)
  | setNonblock (fd : Int) (nonblock : Bool)
  | sendto (fd : Int) (data : List UInt8) (dest : Option SockAddr) (room : Bool)
  | recvfrom (fd : Int) (len : Nat)
  | pollSocket (fd : Int) (room : Bool)
  | close (fd : Int)
  deriving DecidableEq, Repr

def createSocket : SockType → Inner
  | .udpDgram => .udp Stack.udp
  | _ => .tcp (Tcp.new 8192)

namespace State

def find (s : State) (fd : Int) : Option (List Socket × Socket × List Socket) :=
  focus (fun sock => sock.fd = fd) s.sockets

def isSocketFd (s : State) (fd : Int) : Bool := s.sockets.any fun sock => sock.fd = fd

def withSocket {R : Type} (s : State) (fd : Int) (missing : R)
    (f : NetState → Socket → Option (NetState × Socket × R)) : Option (State × R) :=
  match s.find fd with
  | none => some (s, missing)
  | some (before, sock, after) =>
    (f s.net sock).map fun result =>
      ({ s with net := result.1, sockets := before ++ result.2.1 :: after }, result.2.2)

def push (s : State) (sockType : SockType) (handle : Nat) (nonblock : Bool)
    (localPort localAddr : Nat) : State × Int :=
  let added := s.toTable.add fun fd =>
    ⟨fd, sockType, handle, nonblock, [], localPort, localAddr, false, none, s.born⟩
  ({ s with toTable := added.1, born := s.born + 1 }, added.2)

def sysSocket (s : State) (domain : Int) (sockType : Nat) : State × Int :=
  match s.socketRequest domain sockType with
  | .error code => (s, code)
  | .ok (st, nonblock) =>
    let added := s.net.add (createSocket st)
    push { s with net := added.1 } st added.2 nonblock 0 0

def sysAccept (s : State) (fd : Int) (flags : Nat) : State × Reply :=
  match s.find fd with
  | none => (s, .code (-9))
  | some (_, sock, _) =>
    if sock.sockType ≠ .tcpListener then (s, .code (-95))
    else
      let nonblock : Bool := flags &&& 0x800 ≠ 0
      ({ s with accepts := s.accepts ++ [⟨fd, nonblock, sock.nonblock || nonblock, sock.localPort,
        sock.localAddr, sock.id, none⟩] }, .pending)

def close (s : State) (fd : Int) : Option State :=
  match s.find fd with
  | none => some s
  | some (before, sock, after) =>
    (sock.release s.net).map fun net =>
      { s with net := net, toTable := s.recycle fd (before ++ after) }

def poll (s : State) : Option State := s.net.poll.map fun net => { s with net := net }

def call (s : State) : Call → Option (State × Reply)
  | .socket domain sockType =>
    let result := s.sysSocket domain sockType
    some (result.1, .code result.2)
  | .connect fd addr routed =>
    if addr.family ≠ 2 then some (s, .code (-97))
    else s.withSocket fd (.code (-9)) (Socket.connect ⟨addr.addr, addr.port⟩ routed)
  | .bind fd addr =>
    if addr.family ≠ 2 then some (s, .code (-97))
    else s.withSocket fd (.code (-9)) (Socket.bind addr.port addr.addr)
  | .listen fd => s.withSocket fd (.code (-9)) Socket.listen
  | .accept fd flags => some (s.sysAccept fd flags)
  | .getsockname fd => s.withSocket fd (.code (-9)) Socket.getsockname
  | .getpeername fd => s.withSocket fd (.code (-9)) Socket.getpeername
  | .setsockopt fd _ _ => some (s, .code (if s.isSocketFd fd then 0 else -9))
  | .getsockopt fd level optname len =>
    match len with
    | none => some (s, .code (if s.isSocketFd fd then -14 else -9))
    | some len => s.withSocket fd (.code (-9)) (Socket.getsockopt level optname len)
  | .setNonblock fd nonblock => s.withSocket fd (.code 0) (Socket.setNonblock nonblock)
  | .sendto fd data dest room =>
    let dest := dest.bind fun addr => if addr.family = 2 then some ⟨addr.addr, addr.port⟩ else none
    s.withSocket fd (.code (-9)) (Socket.sendto data dest room)
  | .recvfrom fd len =>
    match s.poll with
    | none => none
    | some s => s.withSocket fd (.bytes (-9) [] none) (Socket.recvfrom len)
  | .pollSocket fd room =>
    s.withSocket fd (.events false false false false) (Socket.pollSocket room)
  | .close fd => (s.close fd).map fun s => (s, .code 0)

/-- One turn of the loop of accept: a poll, a scan, and if nothing was found the return of a
    non-blocking call. A blocking one yields and scans again. -/
def scan (s : State) (i : Nat) (a : Accept) : Option (State × Reply) :=
  match s.poll with
  | none => none
  | some s =>
    match s.withSocket a.fd none (Socket.scan (endpointOf a.addr a.port)) with
    | none => none
    | some (s, some captured) =>
      some ({ s with accepts := s.accepts.set i { a with captured := some captured } }, .pending)
    | some (s, none) =>
      if a.nonblockCall then some ({ s with accepts := s.accepts.eraseIdx i }, .code (-11))
      else some (s, .pending)

def finish (s : State) (i : Nat) (a : Accept) (handle : Nat) (remote : Option IpEndpoint) :
    State × Reply :=
  let pushed :=
    push { s with accepts := s.accepts.eraseIdx i } .tcpStream handle a.nonblock a.port a.addr
  (pushed.1, .accepted pushed.2 remote)

end State

inductive Action where
  | call (c : Call)
  | accepting (i : Nat)
  | poll
  | tcp (h : Nat) (event : TcpEvent)
  | datagram (h : Nat) (src : IpEndpoint) (data : List UInt8)
  deriving DecidableEq, Repr

def step (s : State) : Action → Option State
  | .call c => (s.call c).map Prod.fst
  | .accepting i =>
    match s.accepts[i]? with
    | none => none
    | some a =>
      match a.captured with
      | none => (s.scan i a).map Prod.fst
      | some (handle, remote) => some (s.finish i a handle remote).1
  | .poll => s.poll
  | .tcp h event =>
    (s.net.tcp h).map fun t => { s with net := s.net.put h (.tcp (t.on event)) }
  | .datagram h src data =>
    (s.net.udp h).map fun u => { s with net := s.net.put h (.udp (u.arrive src data)) }

end TynKernel.Net
