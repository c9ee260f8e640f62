import TynKernel.Net.Stack

/-!
The owners of the handles. Every handle in the socket set is held by an entry of the table,
the list of closing handles, an accept in progress or the address client, or it was lost.
-/
namespace TynKernel.Net
open Arenas Option Rows Runs
open List (count_append count_cons count_nil flatMap_cons forall_mem_cons map_cons map_nil
  mem_append_left mem_cons_self mem_map perm_iff_count)
open Sockets (SockType)
variable {type : SockType}

abbrev Owned := List (Nat × Kind)

def kindOf : SockType → Kind
  | .tcpStream | .tcpListener => .tcp
  | .udpDgram => .udp

theorem kind_stream (stream : type ≠ .udpDgram) : kindOf type = .tcp := by
  cases type with
  | udpDgram => exact absurd rfl stream
  | tcpStream | tcpListener => rfl

def tcpHandles (hs : List Nat) : Owned := hs.map fun h => (h, .tcp)

def Socket.owns (sock : Socket) : Owned :=
  (sock.handle, kindOf sock.sockType) :: tcpHandles sock.backlog

def Socket.slots (sock : Socket) : List Nat := sock.handle :: sock.backlog

def Accept.owns (a : Accept) : Owned := a.captured.toList.map fun c => (c.1, .tcp)

section
variable [Stack] {h handle i : Nat} {t : Tcp} {u : Udp} {hs : List Nat} {fd : Int}
  {before after : List Socket} {c : Call} {a : Accept}

namespace NetState

def kinds (net : NetState) : Owned := net.set.marks Inner.kind

def owned (net : NetState) : Owned :=
  tcpHandles net.closing ++ net.dhcp.toList.map fun h => (h, .dhcp)

end NetState

def State.owned (s : State) : Owned :=
  s.sockets.flatMap Socket.owns ++ (s.net.owned ++ s.accepts.flatMap Accept.owns)

def Balanced (net : NetState) (sock : Socket) (rest : Owned) : Prop :=
  net.kinds.Perm (sock.owns ++ (net.owned ++ rest))

def Accounted (s : State) (leaked : Owned) : Prop := s.net.kinds.Perm (s.owned ++ leaked)

theorem tcp_iff {net : NetState} :
    net.tcp h = some t ↔ net.set.get? h = some (.tcp t) := by
  unfold NetState.tcp
  cases net.set.get? h with
  | none => simp
  | some inner => cases inner <;> simp

theorem udp_iff {net : NetState} :
    net.udp h = some u ↔ net.set.get? h = some (.udp u) := by
  unfold NetState.udp
  cases net.set.get? h with
  | none => simp
  | some inner => cases inner <;> simp

theorem tcp_of_kind {net : NetState} (member : (h, .tcp) ∈ net.kinds) :
    ∃ t, net.tcp h = some t := by
  obtain ⟨inner, got, kind⟩ := mem_marks.mp member
  cases inner with
  | tcp t => exact ⟨t, tcp_iff.mpr got⟩
  | udp u | dhcp => cases kind

theorem udp_of_kind {net : NetState} (member : (h, .udp) ∈ net.kinds) :
    ∃ u, net.udp h = some u ∧ net.tcp h = none := by
  obtain ⟨inner, got, kind⟩ := mem_marks.mp member
  cases inner with
  | tcp t | dhcp => cases kind
  | udp u =>
    refine ⟨u, udp_iff.mpr got, ?_⟩
    rw [NetState.tcp, got]

theorem tcp_put (net : NetState) (h : Nat) (t' : Tcp) (h' : Nat) :
    (net.put h (.tcp t')).tcp h' = if h = h' then some t' else net.tcp h' := by
  by_cases here : h = h'
  · rw [if_pos here, tcp_iff, NetState.put, get?_put, if_pos here]
  · simp [NetState.tcp, NetState.put, get?_put, if_neg here]

theorem put_tcp_kinds {net : NetState} (got : net.tcp h = some t) (t' : Tcp) :
    (net.put h (.tcp t')).kinds.Perm net.kinds :=
  put_marks (tcp_iff.mp got) rfl

theorem put_udp_kinds {net : NetState} (got : net.udp h = some u) (u' : Udp) :
    (net.put h (.udp u')).kinds.Perm net.kinds :=
  put_marks (udp_iff.mp got) rfl

theorem remove_kinds {net : NetState} (got : net.tcp h = some t) :
    net.kinds.Perm ((h, .tcp) :: (net.remove h).kinds) :=
  remove_marks (tcp_iff.mp got)

section Types
variable {net : NetState} {sock : Socket} {rest : Owned}

section
variable (balanced : Balanced net sock rest)
include balanced

theorem handle_kind :
    (sock.handle, kindOf sock.sockType) ∈ net.kinds :=
  balanced.mem_iff.mpr mem_cons_self

theorem stream_tcp (type : sock.sockType ≠ .udpDgram) :
    ∃ t, net.tcp sock.handle = some t := by
  have member := handle_kind balanced
  rw [kind_stream type] at member
  exact tcp_of_kind member

theorem dgram_udp (type : sock.sockType = .udpDgram) :
    ∃ u, net.udp sock.handle = some u ∧ net.tcp sock.handle = none := by
  have member := handle_kind balanced
  rw [type] at member
  exact udp_of_kind member

theorem spare_tcp (member : h ∈ sock.backlog) :
    ∃ t, net.tcp h = some t := by
  have owned : (h, .tcp) ∈ sock.owns :=
    List.mem_cons_of_mem _ (mem_map.mpr ⟨h, member, rfl⟩)
  exact tcp_of_kind (balanced.mem_iff.mpr (mem_append_left _ owned))

end

end Types

theorem closing_tcp {net : NetState} (balanced : net.kinds.Perm (net.owned ++ rest))
    (member : h ∈ net.closing) : ∃ t, net.tcp h = some t := by
  refine tcp_of_kind (balanced.mem_iff.mpr ?_)
  exact mem_append_left _ (mem_append_left _ (mem_map.mpr ⟨h, member, rfl⟩))

theorem gcFrom_balanced {net : NetState} (fuel i : Nat)
    (balanced : net.kinds.Perm (net.owned ++ rest)) :
    ∃ net', NetState.gcFrom fuel i net = some net' ∧ net'.kinds.Perm (net'.owned ++ rest) ∧
      net'.dhcp = net.dhcp := by
  induction fuel generalizing i net with
  | zero => exact ⟨net, rfl, balanced, rfl⟩
  | succ fuel ih =>
    rw [NetState.gcFrom]
    cases here : net.closing[i]? with
    | none => exact ⟨net, rfl, balanced, rfl⟩
    | some h =>
      obtain ⟨t, got⟩ := closing_tcp balanced (List.mem_of_getElem? here)
      simp only [got]
      split
      · have fewer : (net.remove h).kinds.Perm
            (NetState.owned { net.remove h with closing := swapRemove net.closing i } ++ rest) := by
          have before := (remove_kinds got).symm.trans balanced
          have reaped : net.owned.Perm ((h, .tcp) ::
              NetState.owned { net.remove h with closing := swapRemove net.closing i }) :=
            ((swapRemove_perm here).map fun h => (h, Kind.tcp)).append_right _
          exact (before.trans (reaped.append_right rest)).cons_inv
        exact ih i fewer
      · exact ih (i + 1) balanced

theorem poll_balanced {net : NetState} (balanced : net.kinds.Perm (net.owned ++ rest)) :
    ∃ net', net.poll = some net' ∧ net'.kinds.Perm (net'.owned ++ rest) ∧
      net'.dhcp = net.dhcp := by
  have reaped := gcFrom_balanced net.closing.length 0 balanced
  unfold NetState.poll
  cases client : net.dhcp with
  | none =>
    rw [client] at reaped
    exact reaped
  | some h =>
    have owned : (h, Kind.dhcp) ∈ net.owned := by
      unfold NetState.owned
      rw [client]
      exact List.mem_append_right _ (List.mem_singleton.mpr rfl)
    obtain ⟨inner, got, kind⟩ := mem_marks.mp (balanced.mem_iff.mpr (mem_append_left rest owned))
    cases inner with
    | tcp t | udp u => cases kind
    | dhcp =>
      simp only [got]
      rw [client] at reaped
      exact reaped

structure Keeps (net : NetState) (sock : Socket) (net' : NetState) (sock' : Socket) : Prop where
  kinds : net'.kinds.Perm net.kinds
  owned : net'.owned = net.owned
  owns : sock'.owns = sock.owns

def Works {R : Type} (f : NetState → Socket → Option (NetState × Socket × R)) (net : NetState)
    (sock : Socket) : Prop :=
  ∃ net' sock' r, f net sock = some (net', sock', r) ∧ Keeps net sock net' sock'

theorem keeps_refl (net : NetState) (sock : Socket) : Keeps net sock net sock :=
  ⟨.refl _, rfl, rfl⟩

theorem keeps_balanced (keeps : Keeps net sock net' sock') (balanced : Balanced net sock rest) :
    Balanced net' sock' rest := by
  unfold Balanced
  rw [keeps.owned, keeps.owns]
  exact keeps.kinds.trans balanced

section Calls
variable {net : NetState} {sock : Socket} {rest : Owned}

theorem bindEphemeral_keeps (net : NetState) (sock : Socket) :
    Keeps net sock (sock.bindEphemeral net).1 (sock.bindEphemeral net).2 := by
  unfold Socket.bindEphemeral
  split
  · exact ⟨.refl _, rfl, rfl⟩
  · exact keeps_refl net sock

theorem bindEphemeral_same (net : NetState) (sock : Socket) :
    (sock.bindEphemeral net).1.set = net.set ∧
      (sock.bindEphemeral net).2.handle = sock.handle ∧
      (sock.bindEphemeral net).2.sockType = sock.sockType ∧
      (sock.bindEphemeral net).2.backlog = sock.backlog := by
  unfold Socket.bindEphemeral
  split <;> exact ⟨rfl, rfl, rfl, rfl⟩

section
variable (balanced : Balanced net sock rest)
include balanced

theorem udpBound_works (type : sock.sockType = .udpDgram) :
    ∃ net' sock', Socket.udpBound net sock = some (net', sock') ∧ Keeps net sock net' sock' ∧
      sock'.sockType = .udpDgram := by
  unfold Socket.udpBound
  split
  · obtain ⟨u, got, _⟩ := dgram_udp balanced type
    obtain ⟨sameSet, _, sameType, _⟩ := bindEphemeral_same net sock
    have keeps := bindEphemeral_keeps net sock
    have got' : (sock.bindEphemeral net).1.udp sock.handle = some u := by
      rw [NetState.udp, sameSet]
      exact got
    simp only [got', map_some]
    exact ⟨_, _, rfl, ⟨(put_udp_kinds got' _).trans keeps.kinds, keeps.owned, keeps.owns⟩,
      sameType.trans type⟩
  · exact ⟨net, sock, rfl, keeps_refl net sock, type⟩

theorem connectStream_works (type : sock.sockType ≠ .udpDgram)
    (remote : IpEndpoint) (routed : Bool) : Works (Socket.connectStream remote routed) net sock := by
  obtain ⟨t, got⟩ := stream_tcp balanced type
  obtain ⟨sameSet, sameHandle, sameType, sameBacklog⟩ := bindEphemeral_same net sock
  have keeps := bindEphemeral_keeps net sock
  have got' : (sock.bindEphemeral net).1.tcp (sock.bindEphemeral net).2.handle = some t := by
    rw [NetState.tcp, sameSet, sameHandle]
    exact got
  have owns : ∀ connecting, Socket.owns { (sock.bindEphemeral net).2 with
      sockType := .tcpStream, connecting := connecting } = sock.owns := by
    intro connecting
    simp only [Socket.owns, sameHandle, sameBacklog, kind_stream type]
    rfl
  unfold Works Socket.connectStream
  simp only [got', map_some]
  split
  · exact ⟨_, _, _, rfl, (put_tcp_kinds got' _).trans keeps.kinds, keeps.owned, owns true⟩
  · exact ⟨_, _, _, rfl, keeps.kinds, keeps.owned, owns false⟩

theorem connect_works (remote : IpEndpoint) (routed : Bool) :
    Works (Socket.connect remote routed) net sock := by
  unfold Works Socket.connect
  split
  · rename_i type
    have balanced' : Balanced net { sock with udpPeer := some remote } rest := balanced
    obtain ⟨net', sock', done, keeps, _⟩ := udpBound_works balanced' type
    simp only [done, map_some]
    exact ⟨_, _, _, rfl, keeps.kinds, keeps.owned, keeps.owns⟩
  · rename_i type
    exact connectStream_works balanced (by rw [type]; decide) remote routed
  · rename_i type
    exact connectStream_works balanced (by rw [type]; decide) remote routed

theorem bind_works (port addr : Nat) :
    Works (Socket.bind port addr) net sock := by
  unfold Works Socket.bind
  have same : (if port = 0 then net.allocEphemeralPort else (net, port)).1.set = net.set ∧
      (if port = 0 then net.allocEphemeralPort else (net, port)).1.owned = net.owned := by
    split <;> exact ⟨rfl, rfl⟩
  generalize (if port = 0 then net.allocEphemeralPort else (net, port)) = bound at same ⊢
  obtain ⟨sameSet, sameOwned⟩ := same
  have kinds : bound.1.kinds.Perm net.kinds := by
    unfold NetState.kinds
    rw [sameSet]
  simp only
  split
  · rename_i type
    obtain ⟨u, got, _⟩ := dgram_udp balanced type
    have got' : bound.1.udp sock.handle = some u := by
      rw [NetState.udp, sameSet]
      exact got
    simp only [got', map_some]
    split
    · exact ⟨_, _, _, rfl, (put_udp_kinds got' _).trans kinds, sameOwned, rfl⟩
    · exact ⟨_, _, _, rfl, kinds, sameOwned, rfl⟩
  · exact ⟨_, _, _, rfl, kinds, sameOwned, rfl⟩
  · exact ⟨_, _, _, rfl, kinds, sameOwned, rfl⟩

theorem getpeername_works (type : sock.sockType ≠ .udpDgram) :
    Works Socket.getpeername net sock := by
  obtain ⟨t, got⟩ := stream_tcp balanced type
  unfold Works Socket.getpeername
  simp only [got, map_some]
  split <;> exact ⟨_, _, _, rfl, keeps_refl net sock⟩

theorem soError_works : Works Socket.soError net sock := by
  unfold Works Socket.soError
  split
  · rename_i stream
    obtain ⟨t, got⟩ := stream_tcp balanced (by rw [stream.1]; decide)
    simp only [got, map_some]
    split <;> exact ⟨_, _, _, rfl, .refl _, rfl, rfl⟩
  · exact ⟨_, _, _, rfl, keeps_refl net sock⟩

theorem getsockopt_works (level optname : Int) (len : Nat) :
    Works (Socket.getsockopt level optname len) net sock := by
  obtain ⟨net', sock', r, done, keeps⟩ := soError_works balanced
  unfold Works Socket.getsockopt
  simp only [done, map_some]
  exact ⟨_, _, _, rfl, keeps⟩

theorem recvfrom_works (len : Nat) :
    Works (Socket.recvfrom len) net sock := by
  unfold Works Socket.recvfrom
  split
  · rename_i type
    obtain ⟨t, got⟩ := stream_tcp balanced (by rw [type]; decide)
    simp only [got, map_some]
    split
    · split
      · exact ⟨_, _, _, rfl, put_tcp_kinds got _, rfl, rfl⟩
      · exact ⟨_, _, _, rfl, keeps_refl net sock⟩
    · split <;> exact ⟨_, _, _, rfl, keeps_refl net sock⟩
  · rename_i type
    obtain ⟨u, got, _⟩ := dgram_udp balanced type
    simp only [got, map_some]
    split
    · exact ⟨_, _, _, rfl, keeps_refl net sock⟩
    · exact ⟨_, _, _, rfl, put_udp_kinds got _, rfl, rfl⟩
  · exact ⟨_, _, _, rfl, keeps_refl net sock⟩

end

theorem anyActive_some (typed : ∀ h ∈ hs, ∃ t, net.tcp h = some t) :
    ∃ found, Socket.anyActive net hs = some found := by
  induction hs with
  | nil => exact ⟨false, rfl⟩
  | cons h more ih =>
    rw [forall_mem_cons] at typed
    obtain ⟨t, got⟩ := typed.1
    simp only [Socket.anyActive, got]
    split
    · exact ⟨true, rfl⟩
    · exact ih typed.2

theorem pollSocket_works (balanced : Balanced net sock rest) (room : Bool) :
    Works (Socket.pollSocket room) net sock := by
  unfold Works Socket.pollSocket
  split
  · rename_i type
    obtain ⟨t, got⟩ := stream_tcp balanced (by rw [type]; decide)
    simp only [got, map_some]
    split
    · split <;> exact ⟨_, _, _, rfl, .refl _, rfl, rfl⟩
    · exact ⟨_, _, _, rfl, keeps_refl net sock⟩
  · rename_i type
    obtain ⟨t, got⟩ := stream_tcp balanced (by rw [type]; decide)
    obtain ⟨found, done⟩ := anyActive_some fun h member => spare_tcp balanced member
    simp only [got, done, map_some]
    split <;> exact ⟨_, _, _, rfl, keeps_refl net sock⟩
  · rename_i type
    obtain ⟨u, got, _⟩ := dgram_udp balanced type
    simp only [got, map_some]
    exact ⟨_, _, _, rfl, keeps_refl net sock⟩

def Ends {R : Type} (f : NetState → Socket → Option (NetState × Socket × R)) (net : NetState)
    (sock : Socket) (rest : Owned) (given_ : R → Owned) : Prop :=
  ∃ net' sock' r, f net sock = some (net', sock', r) ∧ Balanced net' sock' (given_ r ++ rest)

theorem works_ends (balanced : Balanced net sock rest) (works : Works f net sock) :
    Ends f net sock rest fun _ => [] := by
  obtain ⟨net', sock', r, done, keeps⟩ := works
  exact ⟨net', sock', r, done, keeps_balanced keeps balanced⟩

theorem sendto_ends (balanced : Balanced net sock rest) (data : List UInt8)
    (dest : Option IpEndpoint) (room : Bool) :
    Ends (Socket.sendto data dest room) net sock rest fun _ => [] := by
  unfold Ends Socket.sendto
  split
  · rename_i type
    split
    · exact ⟨_, _, _, rfl, balanced⟩
    obtain ⟨net', sock', done, keeps, type'⟩ := udpBound_works balanced type
    have balanced' := keeps_balanced keeps balanced
    obtain ⟨u, got, _⟩ := dgram_udp balanced' type'
    have around : net'.kinds.Perm (net'.owned ++ (sock'.owns ++ rest)) :=
      balanced'.trans (List.perm_append_comm_assoc ..)
    obtain ⟨polled, flushed, after, _⟩ := poll_balanced around
    simp only [done, got, flushed, map_some]
    exact ⟨_, _, _, rfl, after.trans (List.perm_append_comm_assoc ..)⟩
  · rename_i type
    obtain ⟨t, got⟩ := stream_tcp balanced (by rw [type]; decide)
    simp only [got, map_some]
    split
    · split
      · exact ⟨_, _, _, rfl, (put_tcp_kinds got _).trans balanced⟩
      · exact ⟨_, _, _, rfl, balanced⟩
    · exact ⟨_, _, _, rfl, balanced⟩
  · exact ⟨_, _, _, rfl, balanced⟩

theorem install_kinds (net : NetState) (endpoint : ListenEndpoint) :
    (net.installFreshListener endpoint).1.kinds.Perm
        (((net.installFreshListener endpoint).2, .tcp) :: net.kinds) ∧
      (net.installFreshListener endpoint).1.owned = net.owned :=
  ⟨add_marks net.set Inner.kind _, rfl⟩

theorem freshListeners_kinds (endpoint : ListenEndpoint) (n : Nat) (net : NetState) :
    (net.freshListeners endpoint n).1.kinds.Perm
        (tcpHandles (net.freshListeners endpoint n).2 ++ net.kinds) ∧
      (net.freshListeners endpoint n).1.owned = net.owned := by
  induction n generalizing net with
  | zero => exact ⟨.refl _, rfl⟩
  | succ n ih =>
    obtain ⟨one, sameOne⟩ := install_kinds net endpoint
    obtain ⟨more, sameMore⟩ := ih (net.installFreshListener endpoint).1
    refine ⟨?_, sameMore.trans sameOne⟩
    exact (more.trans (one.append_left _)).trans List.perm_middle

theorem firstReady_some (typed : ∀ h ∈ hs, ∃ t, net.tcp h = some t) (i : Nat) :
    (Socket.firstReady net i hs = some none ∧
      ∀ h ∈ hs, ∀ t, net.tcp h = some t → ¬ t.ready = true) ∨
    ∃ j h t, Socket.firstReady net i hs = some (some (i + j, h, t.remote)) ∧ hs[j]? = some h ∧
      net.tcp h = some t ∧ t.ready = true := by
  induction hs generalizing i with
  | nil => exact .inl ⟨rfl, by simp⟩
  | cons h more ih =>
    rw [forall_mem_cons] at typed
    obtain ⟨t, got⟩ := typed.1
    simp only [Socket.firstReady, got]
    split
    · rename_i test
      exact .inr ⟨0, h, t, rfl, rfl, got, test⟩
    rename_i fails
    rcases ih typed.2 (i + 1) with ⟨none_, others⟩ | ⟨j, h', t', found, place, got', test⟩
    · refine .inl ⟨none_, ?_⟩
      rw [forall_mem_cons]
      refine ⟨?_, others⟩
      intro t' got'
      rw [got] at got'
      cases got'
      exact fails
    · refine .inr ⟨j + 1, h', t', ?_, place, got', test⟩
      rw [found, Nat.add_assoc, Nat.add_comm 1 j]

/-- A scan captures the first slot with a connection and puts a fresh listener there, or no slot
    has a connection and nothing changes. -/
theorem scan_outcome (typed : ∀ h ∈ sock.slots, ∃ t, net.tcp h = some t)
    (endpoint : ListenEndpoint) :
    (Socket.scan endpoint net sock = some (net, sock, none) ∧
      ∀ h ∈ sock.slots, ∀ t, net.tcp h = some t → ¬ t.ready = true) ∨
    ∃ j h t sock', sock.slots[j]? = some h ∧ net.tcp h = some t ∧ t.ready = true ∧
      Socket.scan endpoint net sock =
        some ((net.installFreshListener endpoint).1, sock', some (h, t.remote)) ∧
      sock'.slots = sock.slots.set j (net.installFreshListener endpoint).2 ∧
      sock'.id = sock.id ∧ sock'.fd = sock.fd ∧ sock'.sockType = sock.sockType ∧
      sock'.localPort = sock.localPort := by
  unfold Socket.slots at typed
  rw [forall_mem_cons] at typed
  obtain ⟨⟨t, got⟩, spares⟩ := typed
  unfold Socket.scan
  simp only [got]
  split
  · rename_i ready
    exact .inr ⟨0, sock.handle, t, _, rfl, got, ready, rfl, rfl, rfl, rfl, rfl, rfl⟩
  rename_i notReady
  rcases firstReady_some spares 0 with ⟨none_, others⟩ | ⟨j, h, t', found, place, got', ready⟩
  · simp only [none_]
    refine .inl ⟨trivial, ?_⟩
    unfold Socket.slots
    rw [forall_mem_cons]
    refine ⟨?_, others⟩
    intro t' got'
    rw [got] at got'
    cases got'
    exact notReady
  · rw [Nat.zero_add] at found
    simp only [found]
    exact .inr ⟨j + 1, h, t', _, place, got', ready, rfl, rfl, rfl, rfl, rfl, rfl⟩

omit [Stack] in
theorem owns_stream (type : sock.sockType ≠ .udpDgram) : sock.owns = tcpHandles sock.slots := by
  rw [Socket.owns, kind_stream type]
  rfl

theorem slots_tcp (balanced : Balanced net sock rest) (type : sock.sockType ≠ .udpDgram) :
    ∀ h ∈ sock.slots, ∃ t, net.tcp h = some t := by
  unfold Socket.slots
  rw [forall_mem_cons]
  exact ⟨stream_tcp balanced type, fun h member => spare_tcp balanced member⟩

theorem scan_ends (balanced : Balanced net sock rest) (type : sock.sockType ≠ .udpDgram)
    (endpoint : ListenEndpoint) :
    Ends (Socket.scan endpoint) net sock rest fun r => r.toList.map fun c => (c.1, .tcp) := by
  rcases scan_outcome (slots_tcp balanced type) endpoint with
    ⟨none_, _⟩ | ⟨j, h, t, sock', place, _, _, done, slots, _, _, sameType, _⟩
  · exact ⟨_, _, _, none_, balanced⟩
  refine ⟨_, _, _, done, ?_⟩
  obtain ⟨fresh, sameOwned⟩ := install_kinds net endpoint
  obtain ⟨bound, here⟩ := List.getElem?_eq_some_iff.mp place
  have without := (List.getElem_cons_eraseIdx_perm bound).map fun h => (h, Kind.tcp)
  have replaced := (List.set_perm_cons_eraseIdx bound
    (net.installFreshListener endpoint).2).map fun h => (h, Kind.tcp)
  have grown := fresh.trans (balanced.cons _)
  rw [here] at without
  rw [owns_stream type] at grown
  unfold Balanced
  rw [sameOwned, owns_stream (by rw [sameType]; exact type), slots]
  rw [perm_iff_count] at grown without replaced ⊢
  intro x
  have := grown x
  have := without x
  have := replaced x
  simp only [tcpHandles, count_cons, count_append, toList_some, map_cons,
    map_nil, count_nil] at *
  omega

def Socket.listens (net : NetState) (sock : Socket) : Bool :=
  (net.tcp sock.handle).any fun t =>
    (t.listen_ (endpointOf sock.localAddr sock.localPort)).isSome

def Socket.lostByListen (net : NetState) (sock : Socket) : Owned :=
  if sock.listens net then tcpHandles sock.backlog else []

theorem listen_ends (balanced : Balanced net sock rest) (type : sock.sockType ≠ .udpDgram) :
    Ends Socket.listen net sock rest fun _ => sock.lostByListen net := by
  obtain ⟨t, got⟩ := stream_tcp balanced type
  have owns : Socket.owns { sock with sockType := .tcpListener } = sock.owns := by
    simp only [Socket.owns, kind_stream type]
    rfl
  unfold Ends Socket.listen Socket.lostByListen Socket.listens
  simp only [got, map_some, any_some]
  split
  · rename_i refused
    rw [refused]
    refine ⟨_, _, _, rfl, ?_⟩
    unfold Balanced
    rw [owns]
    exact balanced
  · rename_i t' listening
    rw [listening]
    refine ⟨_, _, _, rfl, ?_⟩
    obtain ⟨pool, same⟩ := freshListeners_kinds (endpointOf sock.localAddr sock.localPort)
      (listenerPoolSize - 1) (net.put sock.handle (.tcp t'))
    have all := pool.trans (((put_tcp_kinds got t').trans balanced).append_left _)
    have sameOwned : (net.put sock.handle (.tcp t')).owned = net.owned := rfl
    rw [← owns] at all
    unfold Balanced
    rw [same, sameOwned]
    rw [perm_iff_count] at all ⊢
    intro x
    have := all x
    simp only [Socket.owns, isSome_some, if_true, count_cons, count_append]
      at this ⊢
    omega

theorem removeAll_ends (balanced : net.kinds.Perm (tcpHandles hs ++ rest)) :
    ∃ net', Socket.release.removeAll net hs = some net' ∧ net'.kinds.Perm rest ∧
      net'.owned = net.owned := by
  induction hs generalizing net with
  | nil => exact ⟨net, rfl, balanced, rfl⟩
  | cons h more ih =>
    obtain ⟨t, got⟩ := tcp_of_kind (balanced.mem_iff.mpr mem_cons_self)
    have fewer : (net.remove h).kinds.Perm (tcpHandles more ++ rest) :=
      ((remove_kinds got).symm.trans balanced).cons_inv
    obtain ⟨net', done, after, same⟩ := ih fewer
    refine ⟨net', ?_, after, same⟩
    simp only [Socket.release.removeAll, got]
    exact done

def Socket.lostByClose (sock : Socket) : Owned :=
  if sock.sockType = .tcpListener then [] else tcpHandles sock.backlog

theorem release_ends (balanced : Balanced net sock rest) :
    ∃ net', sock.release net = some net' ∧
      net'.kinds.Perm (net'.owned ++ (sock.lostByClose ++ rest)) := by
  unfold Socket.release Socket.lostByClose
  split
  · rename_i type
    obtain ⟨t, got⟩ := stream_tcp balanced (by rw [type]; decide)
    simp only [got, map_some]
    refine ⟨_, rfl, ?_⟩
    have same := (put_tcp_kinds got t.close).trans balanced
    rw [perm_iff_count] at same ⊢
    intro x
    have := same x
    simp only [Socket.owns, type, kindOf, NetState.owned, NetState.put, tcpHandles, NetState.kinds,
      count_cons, count_append, List.map_append, map_cons, map_nil,
      count_nil, reduceCtorEq, if_false] at this ⊢
    omega
  · rename_i type
    have all : net.kinds.Perm (tcpHandles (sock.handle :: sock.backlog) ++ (net.owned ++ rest)) := by
      unfold Balanced Socket.owns at balanced
      rw [type] at balanced
      exact balanced
    obtain ⟨net', done, after, same⟩ := removeAll_ends all
    refine ⟨net', done, ?_⟩
    rw [same, if_pos type]
    exact after
  · rename_i type
    obtain ⟨u, got, _⟩ := dgram_udp balanced type
    simp only [got, map_some]
    refine ⟨_, rfl, ?_⟩
    have removed : net.kinds.Perm ((sock.handle, .udp) :: (net.remove sock.handle).kinds) :=
      remove_marks (udp_iff.mp got)
    have fewer := (removed.symm.trans balanced)
    rw [perm_iff_count] at fewer ⊢
    intro x
    have := fewer x
    have sameOwned : (net.remove sock.handle).owned = net.owned := rfl
    simp only [Socket.owns, type, kindOf, sameOwned, count_cons, count_append,
      reduceCtorEq, if_false] at this ⊢
    omega

end Calls

section States
variable {s s' : State} {leaked : Owned}

theorem find_split (found : s.find fd = some (before, sock, after)) :
    s.sockets = before ++ sock :: after ∧ sock.fd = fd ∧ ∀ other ∈ before, other.fd ≠ fd := by
  obtain ⟨split, test, others⟩ := focus_some found
  refine ⟨split, of_decide_eq_true test, ?_⟩
  intro other member same
  exact others other member (decide_eq_true same)

theorem found_mem (found : s.find fd = some (before, sock, after)) : sock ∈ s.sockets := by
  rw [(find_split found).1]
  exact List.mem_append_right _ mem_cons_self

def others (s : State) (before after : List Socket) (leaked : Owned) : Owned :=
  (before ++ after).flatMap Socket.owns ++ (s.accepts.flatMap Accept.owns ++ leaked)

theorem accounted_balanced (split : s.sockets = before ++ sock :: after) :
    Accounted s leaked ↔ Balanced s.net sock (others s before after leaked) := by
  unfold Accounted Balanced State.owned others
  rw [split, perm_iff_count, perm_iff_count]
  refine forall_congr' fun x => ?_
  simp only [List.flatMap_append, flatMap_cons, count_append]
  omega

theorem accounted_poll (accounted : Accounted s leaked) :
    ∃ net, s.net.poll = some net ∧ Accounted { s with net := net } leaked := by
  have around : s.net.kinds.Perm (s.net.owned ++
      (s.sockets.flatMap Socket.owns ++ (s.accepts.flatMap Accept.owns ++ leaked))) := by
    unfold Accounted State.owned at accounted
    rw [perm_iff_count] at accounted ⊢
    intro x
    have := accounted x
    simp only [count_append] at this ⊢
    omega
  obtain ⟨net, done, after, _⟩ := poll_balanced around
  refine ⟨net, done, ?_⟩
  unfold Accounted State.owned
  rw [perm_iff_count] at after ⊢
  intro x
  have := after x
  simp only [count_append] at this ⊢
  omega

theorem withSocket_ends (fd : Int) (missing : R)
    (f : NetState → Socket → Option (NetState × Socket × R)) (given_ : R → Owned)
    (accounted : Accounted s leaked) (absent : s.find fd = none → given_ missing = [])
    (each : ∀ before sock after rest, s.find fd = some (before, sock, after) →
      Balanced s.net sock rest → Ends f s.net sock rest given_) :
    ∃ s' r, s.withSocket fd missing f = some (s', r) ∧ Accounted s' (given_ r ++ leaked) ∧
      s'.accepts = s.accepts := by
  unfold State.withSocket
  cases found : s.find fd with
  | none =>
    refine ⟨s, missing, rfl, ?_, rfl⟩
    rw [absent found]
    exact accounted
  | some focused =>
    obtain ⟨before, sock, after⟩ := focused
    have balanced := (accounted_balanced (find_split found).1).mp accounted
    obtain ⟨net', sock', r, done, balanced'⟩ := each before sock after _ found balanced
    simp only [done, map_some]
    refine ⟨_, _, rfl, (accounted_balanced rfl).mpr ?_, rfl⟩
    unfold Balanced others at balanced' ⊢
    rw [perm_iff_count] at balanced' ⊢
    intro x
    have := balanced' x
    simp only [count_append] at this ⊢
    omega

theorem withSocket_none
    (found : s.find fd = some (before, sock, after)) (stops : f s.net sock = none) :
    s.withSocket fd missing f = none := by
  unfold State.withSocket
  simp [found, stops]

theorem push_accounted
    (accounted : s.net.kinds.Perm (s.owned ++ ((handle, kindOf type) :: leaked))) :
    Accounted (s.push type handle nonblock port addr).1 leaked := by
  unfold Accounted State.owned State.push Sockets.Table.add at *
  rw [perm_iff_count] at accounted ⊢
  intro x
  have := accounted x
  simp only [List.flatMap_append, flatMap_cons, List.flatMap_nil, Socket.owns, tcpHandles,
    map_nil, count_append, count_cons, count_nil] at this ⊢
  omega

theorem sysSocket_accounted (accounted : Accounted s leaked) (domain : Int) (sockType : Nat) :
    Accounted (s.sysSocket domain sockType).1 leaked := by
  unfold State.sysSocket
  split
  · exact accounted
  · rename_i st nonblock _
    have kind : (createSocket st).kind = kindOf st := by cases st <;> rfl
    have grown := add_marks s.net.set Inner.kind (createSocket st)
    rw [kind] at grown
    exact push_accounted ((grown.trans (accounted.cons _)).trans List.perm_middle.symm)

theorem sysAccept_accounted (accounted : Accounted s leaked) (fd : Int) (flags : Nat) :
    Accounted (s.sysAccept fd flags).1 leaked := by
  unfold State.sysAccept
  split
  · exact accounted
  split
  · exact accounted
  · unfold Accounted State.owned at accounted ⊢
    simp only [List.flatMap_append, flatMap_cons, List.flatMap_nil, Accept.owns,
      toList_none, map_nil, List.append_nil]
    exact accounted

end States

def lost (s : State) : Action → Owned
  | .call (.listen fd) => ((s.find fd).map fun found => found.2.1.lostByListen s.net).getD []
  | .call (.close fd) => ((s.find fd).map fun found => found.2.1.lostByClose).getD []
  | _ => []

def State.dgram (s : State) (fd : Int) : Bool :=
  (s.find fd).any fun found => found.2.1.sockType = .udpDgram

def Mistyped (s : State) : Call → Bool
  | .listen fd => s.dgram fd
  | .getpeername fd => s.dgram fd
  | _ => false

section Steps
variable {s s' : State} {leaked : Owned}

theorem close_accounted (accounted : Accounted s leaked) (fd : Int) :
    ∃ s', s.close fd = some s' ∧ Accounted s' (lost s (.call (.close fd)) ++ leaked) := by
  unfold State.close
  rw [lost]
  cases found : s.find fd with
  | none => exact ⟨s, rfl, accounted⟩
  | some focused =>
    obtain ⟨before, sock, after⟩ := focused
    have balanced := (accounted_balanced (find_split found).1).mp accounted
    obtain ⟨net, done, balanced'⟩ := release_ends balanced
    simp only [done, map_some, getD_some]
    refine ⟨_, rfl, ?_⟩
    unfold Accounted State.owned Sockets.Table.recycle
    unfold others at balanced'
    rw [perm_iff_count] at balanced' ⊢
    intro x
    have := balanced' x
    simp only [count_append] at this ⊢
    omega

theorem stream_of_not_dgram (other : ¬ s.dgram fd = true)
    (found : s.find fd = some (before, sock, after)) : sock.sockType ≠ .udpDgram := by
  intro type
  apply other
  rw [State.dgram, found, any_some]
  exact decide_eq_true type

section
variable (accounted : Accounted s leaked)
include accounted

theorem call_accounted (typed : ¬ Mistyped s c = true) :
    ∃ s' r, s.call c = some (s', r) ∧ Accounted s' (lost s (.call c) ++ leaked) := by
  have plain : ∀ (fd : Int) (missing : Reply)
      (f : NetState → Socket → Option (NetState × Socket × Reply)),
      (∀ before sock after rest, s.find fd = some (before, sock, after) →
        Balanced s.net sock rest → Ends f s.net sock rest fun _ => []) →
      ∃ s' r, s.withSocket fd missing f = some (s', r) ∧ Accounted s' leaked := by
    intro fd missing f ends
    obtain ⟨s', r, done, after, _⟩ := withSocket_ends fd missing f (fun _ => []) accounted
      (fun _ => rfl) ends
    exact ⟨s', r, done, after⟩
  cases c with
  | socket domain sockType => exact ⟨_, _, rfl, sysSocket_accounted accounted domain sockType⟩
  | connect fd =>
    simp only [State.call]
    split
    · exact ⟨_, _, rfl, accounted⟩
    · refine plain fd _ _ fun before sock after rest _ balanced => works_ends balanced ?_
      exact connect_works balanced _ _
  | bind fd =>
    simp only [State.call]
    split
    · exact ⟨_, _, rfl, accounted⟩
    · refine plain fd _ _ fun before sock after rest _ balanced => works_ends balanced ?_
      exact bind_works balanced _ _
  | listen fd =>
    obtain ⟨s', r, done, after, _⟩ := withSocket_ends fd (.code (-9)) Socket.listen
      (fun _ => lost s (.call (.listen fd))) accounted
      (fun absent => by rw [lost, absent]; rfl)
      (fun before sock after rest found balanced => by
        rw [lost, found]
        exact listen_ends balanced (stream_of_not_dgram typed found))
    exact ⟨s', r, done, after⟩
  | accept fd flags => exact ⟨_, _, rfl, sysAccept_accounted accounted fd flags⟩
  | getsockname fd =>
    refine plain fd _ _ fun before sock after rest _ balanced => works_ends balanced ?_
    exact ⟨_, _, _, rfl, keeps_refl s.net sock⟩
  | getpeername fd =>
    refine plain fd _ _ fun before sock after rest found balanced => works_ends balanced ?_
    exact getpeername_works balanced (stream_of_not_dgram typed found)
  | setsockopt => exact ⟨_, _, rfl, accounted⟩
  | getsockopt fd level optname len =>
    cases len with
    | none => exact ⟨_, _, rfl, accounted⟩
    | some =>
      refine plain fd _ _ fun before sock after rest _ balanced => works_ends balanced ?_
      exact getsockopt_works balanced _ _ _
  | setNonblock fd =>
    refine plain fd _ _ fun before sock after rest _ balanced => works_ends balanced ?_
    exact ⟨_, _, _, rfl, .refl _, rfl, rfl⟩
  | sendto fd =>
    exact plain fd _ _ fun before sock after rest _ balanced => sendto_ends balanced _ _ _
  | recvfrom fd len =>
    obtain ⟨net, polled, accounted'⟩ := accounted_poll accounted
    obtain ⟨s', r, done, after, _⟩ := withSocket_ends fd (.bytes (-9) [] none)
      (Socket.recvfrom len) (fun _ => []) accounted' (fun _ => rfl)
      (fun before sock after rest _ balanced => works_ends balanced (recvfrom_works balanced len))
    refine ⟨s', r, ?_, after⟩
    simp only [State.call, State.poll, polled, map_some]
    exact done
  | pollSocket fd =>
    refine plain fd _ _ fun before sock after rest _ balanced => works_ends balanced ?_
    exact pollSocket_works balanced _
  | close fd =>
    obtain ⟨s', done, after⟩ := close_accounted accounted fd
    refine ⟨s', .code 0, ?_, after⟩
    simp [State.call, done]

theorem scan_accounted (here : s.accepts[i]? = some a)
    (scanning : a.captured = none) (typed : ¬ s.dgram a.fd = true) :
    ∃ s' r, s.scan i a = some (s', r) ∧ Accounted s' leaked := by
  obtain ⟨bound, value⟩ := List.getElem?_eq_some_iff.mp here
  obtain ⟨net, polled, accounted'⟩ := accounted_poll accounted
  obtain ⟨s', r, done, after, sameAccepts⟩ := withSocket_ends a.fd none
    (Socket.scan (endpointOf a.addr a.port)) (fun r => r.toList.map fun c => (c.1, .tcp))
    accounted' (fun _ => rfl)
    (fun before sock after rest found balanced => scan_ends balanced
      (stream_of_not_dgram typed found) _)
  have without := (List.getElem_cons_eraseIdx_perm bound).flatMap_right Accept.owns
  rw [value, flatMap_cons, Accept.owns, scanning] at without
  unfold State.scan
  simp only [State.poll, polled, map_some, done]
  cases r with
  | some captured =>
    refine ⟨_, _, rfl, ?_⟩
    have replaced := (List.set_perm_cons_eraseIdx bound
      { a with captured := some captured }).flatMap_right Accept.owns
    unfold Accounted State.owned at after ⊢
    rw [sameAccepts] at after ⊢
    rw [perm_iff_count] at after without replaced ⊢
    intro x
    have := after x
    have := without x
    have := replaced x
    simp only [flatMap_cons, Accept.owns, toList_some, toList_none,
      map_cons, map_nil, count_append, count_nil] at *
    omega
  | none =>
    simp only
    split
    · refine ⟨_, _, rfl, ?_⟩
      unfold Accounted State.owned at after ⊢
      rw [sameAccepts] at after ⊢
      rw [perm_iff_count] at after without ⊢
      intro x
      have := after x
      have := without x
      simp only [toList_none, map_nil, count_append, count_nil] at *
      omega
    · exact ⟨_, _, rfl, after⟩

theorem finish_accounted (here : s.accepts[i]? = some a)
    (captured : a.captured = some (handle, remote)) :
    Accounted (s.finish i a handle remote).1 leaked := by
  obtain ⟨bound, value⟩ := List.getElem?_eq_some_iff.mp here
  have without := (List.getElem_cons_eraseIdx_perm bound).flatMap_right Accept.owns
  rw [value, flatMap_cons, Accept.owns, captured] at without
  refine push_accounted ?_
  unfold Accounted State.owned at *
  rw [perm_iff_count] at accounted without ⊢
  intro x
  have := accounted x
  have := without x
  simp only [toList_some, map_cons, map_nil, kindOf, count_append,
    count_cons, count_nil] at *
  omega

theorem dgram_none (dgram : s.dgram fd = true) :
    ∃ before sock after, s.find fd = some (before, sock, after) ∧
      s.net.tcp sock.handle = none := by
  obtain ⟨⟨before, sock, after⟩, found, type⟩ := (any_eq_true _ _).mp dgram
  have balanced := (accounted_balanced (find_split found).1).mp accounted
  obtain ⟨_, _, none_⟩ := dgram_udp balanced (of_decide_eq_true type)
  exact ⟨before, sock, after, found, none_⟩

theorem call_mistyped (mistyped : Mistyped s c = true) :
    s.call c = none := by
  cases c with
  | listen =>
    obtain ⟨before, sock, after, found, none_⟩ := dgram_none accounted mistyped
    refine withSocket_none found ?_
    simp [Socket.listen, none_]
  | getpeername =>
    obtain ⟨before, sock, after, found, none_⟩ := dgram_none accounted mistyped
    refine withSocket_none found ?_
    simp [Socket.getpeername, none_]
  | _ => cases mistyped

theorem scan_mistyped (dgram : s.dgram a.fd = true) :
    s.scan i a = none := by
  obtain ⟨net, polled, accounted'⟩ := accounted_poll accounted
  have still : State.dgram { s with net := net } a.fd = true := dgram
  obtain ⟨before, sock, after, found, none_⟩ := dgram_none accounted' still
  have stops : State.withSocket { s with net := net } a.fd none
      (Socket.scan (endpointOf a.addr a.port)) = none := by
    refine withSocket_none found ?_
    simp [Socket.scan, none_]
  unfold State.scan
  simp [State.poll, polled, stops]

theorem step_accounted (taken : step s action = some s') :
    Accounted s' (lost s action ++ leaked) := by
  cases action with
  | call c =>
    by_cases mistyped : Mistyped s c = true
    · rw [step, call_mistyped accounted mistyped] at taken
      cases taken
    · obtain ⟨s'', r, done, after⟩ := call_accounted accounted mistyped
      rw [step, done] at taken
      cases taken
      exact after
  | accepting =>
    rw [step] at taken
    split at taken
    · cases taken
    rename_i a here
    split at taken
    · rename_i scanning
      by_cases dgram : s.dgram a.fd = true
      · rw [scan_mistyped accounted dgram] at taken
        cases taken
      · obtain ⟨s'', r, done, after⟩ := scan_accounted accounted here scanning dgram
        rw [done] at taken
        cases taken
        exact after
    · rename_i handle remote captured
      cases taken
      exact finish_accounted accounted here captured
  | poll =>
    obtain ⟨net, polled, after⟩ := accounted_poll accounted
    rw [step, State.poll, polled] at taken
    cases taken
    exact after
  | tcp =>
    obtain ⟨t, got, same⟩ := map_eq_some_iff.mp taken
    subst same
    exact (put_tcp_kinds got _).trans accounted
  | datagram =>
    obtain ⟨u, got, same⟩ := map_eq_some_iff.mp taken
    subst same
    exact (put_udp_kinds got _).trans accounted

end

end Steps

def losses (past : List (State × Action)) : Owned := past.flatMap fun e => lost e.1 e.2

theorem initial_accounted (setup : Setup) : Accounted (initial setup) [] := by
  cases setup <;> exact .refl _

theorem run_accounted (run : Run step (initial setup) past s) : Accounted s (losses past) := by
  induction run with
  | nil => exact initial_accounted setup
  | snoc before taken ih => exact step_accounted ih taken

def State.handles (s : State) : List Nat := s.net.set.items.map Prod.fst

def State.owners (s : State) : List Nat := s.owned.map Prod.fst

theorem handles_kinds (s : State) : s.net.kinds.map Prod.fst = s.handles := by
  simp only [State.handles, NetState.kinds, Arena.marks, List.map_map]
  rfl

/-- In every reachable state no handle has two owners and every owned handle is in the set. Every
    handle of the set has an owner if and only if no listen has succeeded on a socket with spare
    listeners, and no socket with spare listeners was closed as anything but a listener. -/
theorem handles_owned_once (setup : Setup) (past : List (State × Action)) (s : State)
    (reached : Run step (initial setup) past s) :
    s.owners.Nodup ∧ (∀ h ∈ s.owners, h ∈ s.handles) ∧
      (s.handles.Perm s.owners ↔ ∀ e ∈ past, lost e.1 e.2 = []) := by
  have accounted := run_accounted reached
  have all : s.handles.Perm (s.owners ++ (losses past).map Prod.fst) := by
    rw [← handles_kinds, State.owners, ← List.map_append]
    exact accounted.map _
  have distinct : s.handles.Nodup := items_nodup s.net.set
  refine ⟨(List.nodup_append.mp (all.nodup_iff.mp distinct)).1, ?_, ?_⟩
  · intro h member
    exact all.mem_iff.mpr (mem_append_left _ member)
  have none_lost : losses past = [] ↔ ∀ e ∈ past, lost e.1 e.2 = [] := List.flatMap_eq_nil_iff
  rw [← none_lost]
  constructor
  · intro exact_
    have lengths := all.length_eq
    rw [exact_.length_eq, List.length_append, List.length_map] at lengths
    exact List.length_eq_zero_iff.mp (by omega)
  · intro none_
    rw [none_, map_nil, List.append_nil] at all
    exact all

end

def service : SockAddr := ⟨2, 8080, 0⟩

theorem handles_owned_once_listening : ∃ past s, Run step (initial .fixed) past s ∧
    s.handles.length = 64 ∧ s.handles.Perm s.owners := by
  obtain ⟨past, s, run, tested, size⟩ := run_of_exec (fun s action => decide (lost s action = []))
    step (initial .fixed) [.call (.socket 2 1), .call (.bind 500 service), .call (.listen 500)]
    (fun s => s.handles.length = 64) (by decide +kernel)
  refine ⟨past, s, run, of_decide_eq_true size, ?_⟩
  refine (handles_owned_once .fixed past s run).2.2.mpr ?_
  intro e member
  exact of_decide_eq_true (tested e member)

/-- Listening twice leaves 63 sockets in the set that listen on the port without an owner. -/
theorem listen_twice_leaks : ∃ past s, Run step (initial .fixed) past s ∧
    s.handles.length = 127 ∧ s.owners.length = 64 := by
  obtain ⟨past, s, run, _, size⟩ := run_of_exec (fun _ _ => true) step (initial .fixed)
    [.call (.socket 2 1), .call (.bind 500 service), .call (.listen 500), .call (.listen 500)]
    (fun s => s.handles.length = 127 ∧ s.owners.length = 64) (by decide +kernel)
  exact ⟨past, s, run, of_decide_eq_true size⟩

section
variable [Stack]

def Typed (net : NetState) (sock : Socket) : Prop :=
  (sock.sockType = .udpDgram → (net.udp sock.handle).isSome) ∧
  (sock.sockType ≠ .udpDgram → (net.tcp sock.handle).isSome) ∧
  ∀ h ∈ sock.backlog, (net.tcp h).isSome

theorem balanced_typed (balanced : Balanced net sock rest) : Typed net sock := by
  refine ⟨?_, ?_, ?_⟩
  · intro type
    obtain ⟨u, got, _⟩ := dgram_udp balanced type
    rw [got]
    rfl
  · intro type
    obtain ⟨t, got⟩ := stream_tcp balanced type
    rw [got]
    rfl
  · intro h member
    obtain ⟨t, got⟩ := spare_tcp balanced member
    rw [got]
    rfl

/-- In every reachable state all entries have handles of their own type. A call stops the kernel
    if and only if it is listen or getpeername on a datagram socket, and a scan of accept if and
    only if the number of the listener has become that of a datagram socket. -/
theorem sockets_typed (setup : Setup) (past : List (State × Action)) (s : State)
    (reached : Run step (initial setup) past s) :
    (∀ sock ∈ s.sockets, Typed s.net sock) ∧ (s.poll).isSome ∧
      (∀ c, s.call c = none ↔ Mistyped s c = true) ∧
      ∀ i a, s.accepts[i]? = some a → a.captured = none →
        (s.scan i a = none ↔ s.dgram a.fd = true) := by
  have accounted := run_accounted reached
  refine ⟨?_, ?_, ?_, ?_⟩
  · intro sock member
    obtain ⟨before, after, split⟩ := List.append_of_mem member
    exact balanced_typed ((accounted_balanced split).mp accounted)
  · obtain ⟨net, polled, _⟩ := accounted_poll accounted
    rw [State.poll, polled]
    rfl
  · intro c
    constructor
    · intro stops
      by_contra typed
      obtain ⟨s', r, done, _⟩ := call_accounted accounted typed
      rw [stops] at done
      cases done
    · exact call_mistyped accounted
  · intro i a here scanning
    constructor
    · intro stops
      by_contra typed
      obtain ⟨s', r, done, _⟩ := scan_accounted accounted here scanning typed
      rw [stops] at done
      cases done
    · exact scan_mistyped accounted

end

theorem sockets_typed_stream : ∃ past s, Run step (initial .dhcp) past s ∧
    s.isSocketFd 500 = true ∧ ¬ s.call (.listen 500) = none := by
  obtain ⟨past, s, run, _, opened⟩ := run_of_exec (fun _ _ => true) step (initial .dhcp)
    [.call (.socket 2 1)] (fun s => s.isSocketFd 500 ∧ ¬ Mistyped s (.listen 500) = true)
    (by decide)
  obtain ⟨live, typed⟩ := of_decide_eq_true opened
  refine ⟨past, s, run, live, ?_⟩
  rw [(sockets_typed .dhcp past s run).2.2.1 (.listen 500)]
  exact typed

/-- listen and getpeername on a datagram socket stop the kernel. -/
theorem listen_on_datagram_stops : ∃ past s, Run step (initial .fixed) past s ∧
    s.isSocketFd 500 = true ∧ s.call (.listen 500) = none ∧ s.call (.getpeername 500) = none := by
  obtain ⟨past, s, run, _, stops⟩ := run_of_exec (fun _ _ => true) step (initial .fixed)
    [.call (.socket 2 2)] (fun s => s.isSocketFd 500 ∧ s.call (.listen 500) = none ∧
      s.call (.getpeername 500) = none) (by decide)
  exact ⟨past, s, run, of_decide_eq_true stops⟩

end TynKernel.Net
