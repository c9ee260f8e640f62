import TynKernel.Net.Pool

/-!
bind, listen and connect that fail. Each of them writes its part of the entry first and asks
the stack afterwards, and a refusal of the stack takes back at most the mark of a pending
connect.
-/
namespace TynKernel.Net
open Option Rows Runs
open Sockets (SockType)

section
variable [Stack]

def State.entry (s : State) (fd : Int) : Option Socket := (s.find fd).map fun found => found.2.1

def Configures (fd : Int) : Call → Bool
  | .bind fd' _ => fd' = fd
  | .listen fd' => fd' = fd
  | .connect fd' _ _ => fd' = fd
  | _ => false

def NetState.portFor (net : NetState) (port : Nat) : Nat :=
  if port = 0 then net.allocEphemeralPort.2 else port

/-- The entry already has what the call writes before it asks the stack. An address of another
    family is refused before anything is written. -/
def Socket.settled (net : NetState) (sock : Socket) : Call → Bool
  | .bind _ addr =>
    addr.family ≠ 2 ∨ (sock.localPort = net.portFor addr.port ∧ sock.localAddr = addr.addr)
  | .listen _ => sock.sockType = .tcpListener
  | .connect _ addr _ =>
    addr.family ≠ 2 ∨
      (sock.sockType = .tcpStream ∧ sock.localPort ≠ 0 ∧ sock.connecting = false)
  | _ => true

structure Unchanged (s s' : State) (fd : Int) : Prop where
  entry : s'.entry fd = s.entry fd
  sockets : s'.net.set = s.net.set

theorem ephemeral_range (net : NetState) :
    49152 ≤ net.allocEphemeralPort.2 ∧ net.allocEphemeralPort.2 < 65536 := by
  simp only [NetState.allocEphemeralPort]
  omega

section Bodies
variable {net net' : NetState} {sock sock' : Socket} {code : Int}

theorem bind_refused (done : Socket.bind port addr net sock = some (net', sock', .code code))
    (failed : code < 0) :
    net'.set = net.set ∧
      sock' = { sock with localPort := net.portFor port, localAddr := addr } := by
  have bound : (if port = 0 then net.allocEphemeralPort else (net, port)).1.set = net.set ∧
      (if port = 0 then net.allocEphemeralPort else (net, port)).2 = net.portFor port := by
    unfold NetState.portFor
    split <;> exact ⟨rfl, rfl⟩
  unfold Socket.bind at done
  obtain ⟨set_, port_⟩ := bound
  simp only [port_] at done
  split at done
  · obtain ⟨u, _, same⟩ := map_eq_some_iff.mp done
    split at same
    · cases same
      exact absurd failed (by decide)
    · cases same
      exact ⟨set_, rfl⟩
  · cases done
    exact absurd failed (by decide)
  · cases done
    exact absurd failed (by decide)

theorem listen_refused (done : Socket.listen net sock = some (net', sock', .code code))
    (failed : code < 0) : net'.set = net.set ∧ sock' = { sock with sockType := .tcpListener } := by
  obtain ⟨t, _, same⟩ := map_eq_some_iff.mp done
  split at same
  · cases same
    exact ⟨rfl, rfl⟩
  · cases (Prod.mk.inj (Prod.mk.inj same).2).2
    exact absurd failed (by decide)

theorem connect_refused
    (done : Socket.connect remote routed net sock = some (net', sock', .code code))
    (failed : code < 0) (other : code ≠ -115) :
    net'.set = net.set ∧ sock' = { (sock.bindEphemeral net).2 with
      sockType := .tcpStream, connecting := false } := by
  have streamed : Socket.connectStream remote routed net sock = some (net', sock', .code code) := by
    unfold Socket.connect at done
    split at done
    · obtain ⟨bound, _, same⟩ := map_eq_some_iff.mp done
      cases same
      exact absurd failed (by decide)
    · exact done
    · exact done
  obtain ⟨t, _, same⟩ := map_eq_some_iff.mp streamed
  split at same
  · cases same
    exact absurd rfl other
  · cases same
    exact ⟨(bindEphemeral_same net sock).1, rfl⟩

theorem bindEphemeral_settled (connecting : Bool) :
    { (sock.bindEphemeral net).2 with sockType := .tcpStream, connecting := connecting } = sock ↔
      sock.sockType = .tcpStream ∧ sock.localPort ≠ 0 ∧ sock.connecting = connecting := by
  cases sock
  simp only [Socket.bindEphemeral]
  split
  · rename_i unbound
    have some_ : net.allocEphemeralPort.2 ≠ 0 := by
      have := (ephemeral_range net).1
      omega
    simp [unbound, some_]
  · rename_i bound
    simp only [Socket.mk.injEq, bound, ne_eq, not_false_eq_true, true_and, and_true]
    exact and_congr eq_comm eq_comm

end Bodies

section Calls
variable {s s' : State} {fd : Int}

theorem entry_found (found : s.find fd = some (before, sock, after)) : s.entry fd = some sock := by
  rw [State.entry, found]
  rfl

theorem unchanged_refl (s : State) (fd : Int) : Unchanged s s fd := ⟨rfl, rfl⟩

theorem refused_unchanged {missing r : Reply} {settled : Socket → Bool}
    {f : NetState → Socket → Option (NetState × Socket × Reply)} (stable : Stable f)
    (done : s.withSocket fd missing f = some (s', r))
    (left : ∀ sock net' sock', f s.net sock = some (net', sock', r) →
      net'.set = s.net.set ∧ (sock' = sock ↔ settled sock = true)) :
    Unchanged s s' fd ↔ ∀ sock, s.entry fd = some sock → settled sock = true := by
  unfold State.withSocket at done
  split at done
  · rename_i absent
    cases done
    have none_ : s.entry fd = none := by
      rw [State.entry, absent]
      rfl
    refine ⟨fun _ sock found => ?_, fun _ => unchanged_refl s fd⟩
    rw [none_] at found
    cases found
  · rename_i before sock after found
    obtain ⟨⟨net', sock', r'⟩, inner, same⟩ := map_eq_some_iff.mp done
    cases same
    obtain ⟨set_, kept⟩ := left sock net' sock' inner
    have found' : State.find { s with net := net', sockets := before ++ sock' :: after } fd =
        some (before, sock', after) := find_replace found rfl (stable _ _ _ _ _ inner).fd
    have entry' := entry_found found'
    have entry_ := entry_found found
    constructor
    · rintro ⟨same, _⟩ other found''
      rw [entry', entry_] at same
      rw [entry_] at found''
      cases found''
      exact kept.mp (Option.some.inj same)
    · intro all
      refine ⟨?_, set_⟩
      rw [entry', entry_, kept.mpr (all sock entry_)]

end Calls

/-- bind, listen and connect on any number with any arguments, in every state: a call that fails
    leaves the entry and the sockets of the stack as they were, if and only if the entry already
    had what the call writes before it asks the stack. -/
theorem refused_calls_iff (s s' : State) (fd : Int) (c : Call) (code : Int)
    (call : Configures fd c = true) (done : s.call c = some (s', .code code)) (failed : code < 0)
    (other : code ≠ -115) :
    Unchanged s s' fd ↔ ∀ sock, s.entry fd = some sock → sock.settled s.net c = true := by
  cases c with
  | bind fd' addr =>
    have own : fd' = fd := of_decide_eq_true call
    subst own
    simp only [State.call] at done
    split at done
    · rename_i foreign
      cases done
      exact ⟨fun _ sock _ => decide_eq_true (.inl foreign), fun _ => unchanged_refl s fd'⟩
    rename_i family
    refine refused_unchanged (bind_stable addr.port addr.addr) done ?_
    intro sock net' sock' inner
    obtain ⟨set_, written⟩ := bind_refused inner failed
    refine ⟨set_, ?_⟩
    rw [written]
    cases sock
    simp only [Socket.mk.injEq, true_and, and_true, Socket.settled, decide_eq_true_eq, family,
      false_or]
    exact and_congr eq_comm eq_comm
  | listen fd' =>
    have own : fd' = fd := of_decide_eq_true call
    subst own
    refine refused_unchanged listen_stable done ?_
    intro sock net' sock' inner
    obtain ⟨set_, written⟩ := listen_refused inner failed
    refine ⟨set_, ?_⟩
    rw [written]
    cases sock
    simp only [Socket.mk.injEq, true_and, and_true, Socket.settled, decide_eq_true_eq]
    exact eq_comm
  | connect fd' addr routed =>
    have own : fd' = fd := of_decide_eq_true call
    subst own
    simp only [State.call] at done
    split at done
    · rename_i foreign
      cases done
      exact ⟨fun _ sock _ => decide_eq_true (.inl foreign), fun _ => unchanged_refl s fd'⟩
    rename_i family
    refine refused_unchanged (connect_stable _ routed) done ?_
    intro sock net' sock' inner
    obtain ⟨set_, written⟩ := connect_refused inner failed other
    refine ⟨set_, ?_⟩
    rw [written, bindEphemeral_settled]
    simp [Socket.settled, family]
  | _ => cases call

def State.outcome (s : State) (fd : Int) (c : Call) : Option (Reply × Bool) :=
  (s.call c).map fun result => (result.2, result.1.entry fd = s.entry fd)

end

theorem refused_connect_unchanged : ∃ past s s', Run step (initial .fixed) past s ∧
    s.call (.connect 500 ⟨2, 0, 1⟩ true) = some (s', .code (-111)) ∧ Unchanged s s' 500 := by
  obtain ⟨past, s, run, _, test⟩ := run_of_exec (fun _ _ => true) step (initial .fixed)
    [.call (.socket 2 1), .call (.bind 500 service)]
    (fun s => (s.call (.connect 500 ⟨2, 0, 1⟩ true)).any (fun result =>
        result.2 = .code (-111)) &&
      (s.entry 500).all fun sock => sock.settled s.net (.connect 500 ⟨2, 0, 1⟩ true))
    (by decide)
  rw [Bool.and_eq_true, all_eq_true] at test
  obtain ⟨⟨s', r⟩, done, refused⟩ := (any_eq_true _ _).mp test.1
  have answer : r = .code (-111) := of_decide_eq_true refused
  subst answer
  refine ⟨past, s, s', run, done, ?_⟩
  exact (refused_calls_iff s s' 500 _ (-111) rfl done (by decide) (by decide)).mpr test.2

/-- listen on a stream socket without a port, a second bind of a datagram socket and connect on a
    listener are refused and leave their marks: a listener that does not listen, a local port that
    the stack does not know, and a stream that listens. -/
theorem refused_calls_leave_marks : ∃ past s, Run step (initial .fixed) past s ∧
    s.outcome 500 (.listen 500) = some (.code (-98), false) ∧
    s.outcome 501 (.bind 501 service) = some (.code (-98), false) ∧
    s.outcome 502 (.connect 502 ⟨2, 80, 1⟩ true) = some (.code (-111), false) := by
  obtain ⟨past, s, run, _, test⟩ := run_of_exec (fun _ _ => true) step (initial .fixed)
    [.call (.socket 2 1), .call (.socket 2 2), .call (.socket 2 1), .call (.bind 501 ⟨2, 53, 0⟩),
      .call (.bind 502 service), .call (.listen 502)]
    (fun s => s.outcome 500 (.listen 500) = some (.code (-98), false) ∧
      s.outcome 501 (.bind 501 service) = some (.code (-98), false) ∧
      s.outcome 502 (.connect 502 ⟨2, 80, 1⟩ true) = some (.code (-111), false))
    (by decide +kernel)
  exact ⟨past, s, run, of_decide_eq_true test⟩

end TynKernel.Net
