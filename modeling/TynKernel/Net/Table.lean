import TynKernel.Net.Handles

/-!
What a step does to the table of sockets: it works on one entry and keeps its number, adds an
entry, or takes one away and gives its number back.
-/
namespace TynKernel.Net
open Arenas Option Rows Runs
open Sockets (SockType)

/-- What a call leaves of the entry it works on: its number and its id, and a stream does not
    become a datagram socket. -/
structure Kept (sock sock' : Socket) : Prop where
  fd : sock'.fd = sock.fd
  id : sock'.id = sock.id
  stream : sock.sockType ≠ .udpDgram → sock'.sockType ≠ .udpDgram

section
variable [Stack]

def Stable {R : Type} (f : NetState → Socket → Option (NetState × Socket × R)) : Prop :=
  ∀ net sock net' sock' r, f net sock = some (net', sock', r) → Kept sock sock'

variable {net : NetState} {sock : Socket} {c : Call} {r : Reply} {action : Action}

theorem bindEphemeral_kept (net : NetState) (sock : Socket) :
    Kept sock (sock.bindEphemeral net).2 := by
  unfold Socket.bindEphemeral
  split <;> exact ⟨rfl, rfl, id⟩

theorem udpBound_kept (done : Socket.udpBound net sock = some (net', sock')) : Kept sock sock' := by
  unfold Socket.udpBound at done
  split at done
  · obtain ⟨u, _, same⟩ := map_eq_some_iff.mp done
    cases same
    exact bindEphemeral_kept net sock
  · cases done
    exact ⟨rfl, rfl, id⟩

theorem connect_stable (remote : IpEndpoint) (routed : Bool) :
    Stable (Socket.connect remote routed) := by
  have stream : Stable (Socket.connectStream remote routed) := by
    intro net sock net' sock' r done
    obtain ⟨t, _, same⟩ := map_eq_some_iff.mp done
    have kept := bindEphemeral_kept net sock
    split at same <;> cases same <;> exact ⟨kept.fd, kept.id, fun _ type => by cases type⟩
  intro net sock net' sock' r done
  unfold Socket.connect at done
  split at done
  · obtain ⟨bound, inner, same⟩ := map_eq_some_iff.mp done
    cases same
    obtain ⟨fd, id, stream⟩ := udpBound_kept inner
    exact ⟨fd, id, stream⟩
  · exact stream net sock net' sock' r done
  · exact stream net sock net' sock' r done

theorem bind_stable (port addr : Nat) : Stable (Socket.bind port addr) := by
  intro net sock net' sock' r done
  unfold Socket.bind at done
  simp only at done
  split at done
  · obtain ⟨u, _, same⟩ := map_eq_some_iff.mp done
    split at same <;> cases same <;> exact ⟨rfl, rfl, id⟩
  · cases done
    exact ⟨rfl, rfl, id⟩
  · cases done
    exact ⟨rfl, rfl, id⟩

theorem listen_stable : Stable Socket.listen := by
  intro net sock net' sock' r done
  obtain ⟨t, _, same⟩ := map_eq_some_iff.mp done
  split at same <;>
  · obtain ⟨_, rest⟩ := Prod.mk.inj same
    rw [← (Prod.mk.inj rest).1]
    exact ⟨rfl, rfl, fun _ type => by cases type⟩

theorem getpeername_stable : Stable Socket.getpeername := by
  intro net sock net' sock' r done
  obtain ⟨t, _, same⟩ := map_eq_some_iff.mp done
  split at same <;> cases same <;> exact ⟨rfl, rfl, id⟩

theorem getsockopt_stable (level optname : Int) (len : Nat) :
    Stable (Socket.getsockopt level optname len) := by
  intro net sock net' sock' r done
  obtain ⟨result, inner, same⟩ := map_eq_some_iff.mp done
  cases same
  unfold Socket.soError at inner
  split at inner
  · obtain ⟨t, _, same⟩ := map_eq_some_iff.mp inner
    split at same <;> cases same <;> exact ⟨rfl, rfl, id⟩
  · cases inner
    exact ⟨rfl, rfl, id⟩

theorem sendto_stable (data : List UInt8) (dest : Option IpEndpoint) (room : Bool) :
    Stable (Socket.sendto data dest room) := by
  intro net sock net' sock' r done
  unfold Socket.sendto at done
  split at done
  · split at done
    · cases done
      exact ⟨rfl, rfl, id⟩
    split at done
    · cases done
    rename_i net'' sock'' bound
    split at done
    · cases done
    · obtain ⟨polled, _, same⟩ := map_eq_some_iff.mp done
      cases same
      exact udpBound_kept bound
  · obtain ⟨t, _, same⟩ := map_eq_some_iff.mp done
    split at same
    · split at same <;> cases same <;> exact ⟨rfl, rfl, id⟩
    · cases same
      exact ⟨rfl, rfl, id⟩
  · cases done
    exact ⟨rfl, rfl, id⟩

theorem recvfrom_stable (len : Nat) : Stable (Socket.recvfrom len) := by
  intro net sock net' sock' r done
  unfold Socket.recvfrom at done
  split at done
  · obtain ⟨t, _, same⟩ := map_eq_some_iff.mp done
    split at same <;> split at same <;> cases same <;> exact ⟨rfl, rfl, id⟩
  · obtain ⟨u, _, same⟩ := map_eq_some_iff.mp done
    split at same <;> cases same <;> exact ⟨rfl, rfl, id⟩
  · cases done
    exact ⟨rfl, rfl, id⟩

theorem pollSocket_stable (room : Bool) : Stable (Socket.pollSocket room) := by
  intro net sock net' sock' r done
  unfold Socket.pollSocket at done
  split at done
  · obtain ⟨t, _, same⟩ := map_eq_some_iff.mp done
    split at same
    · split at same <;> cases same <;> exact ⟨rfl, rfl, id⟩
    · cases same
      exact ⟨rfl, rfl, id⟩
  · split at done
    · cases done
    split at done
    · cases done
      exact ⟨rfl, rfl, id⟩
    · obtain ⟨found, _, same⟩ := map_eq_some_iff.mp done
      cases same
      exact ⟨rfl, rfl, id⟩
  · obtain ⟨u, _, same⟩ := map_eq_some_iff.mp done
    cases same
    exact ⟨rfl, rfl, id⟩

theorem scan_stable (endpoint : ListenEndpoint) : Stable (Socket.scan endpoint) := by
  intro net sock net' sock' r done
  unfold Socket.scan at done
  split at done
  · cases done
  · split at done
    · cases done
      exact ⟨rfl, rfl, id⟩
    · split at done <;> cases done <;> exact ⟨rfl, rfl, id⟩

inductive Edited (s : State) : State → Prop where
  | same (net : NetState) : Edited s { s with net := net }
  | one (net : NetState) {before after : List Socket} {sock sock' : Socket}
      (split : s.sockets = before ++ sock :: after) (kept : Kept sock sock') :
      Edited s { s with net := net, sockets := before ++ sock' :: after }

def Known (s : State) (accepts : List Accept) : Prop :=
  ∀ a ∈ accepts, ∃ b ∈ s.accepts, b.listener = a.listener

inductive Moves (s : State) : State → Prop where
  | edited {s' : State} (edited : Edited s s') (accepts : List Accept) (known : Known s accepts) :
      Moves s { s' with accepts := accepts }
  | called (a : Accept) (sock : Socket) (member : sock ∈ s.sockets)
      (listener : sock.sockType = .tcpListener) (own : a.listener = sock.id) :
      Moves s { s with accepts := s.accepts ++ [a] }
  | pushed (net : NetState) (accepts : List Accept) (known : Known s accepts) (type : SockType)
      (handle port addr : Nat) (nonblock : Bool) :
      Moves s (State.push { s with net := net, accepts := accepts } type handle nonblock port
        addr).1
  | closed (fd : Int) (net : NetState) {before after : List Socket} {sock : Socket}
      (found : s.find fd = some (before, sock, after)) :
      Moves s { s with net := net, toTable := s.recycle fd (before ++ after) }

section Moves
variable {s s' : State}

theorem known_self (s : State) : Known s s.accepts := fun a member => ⟨a, member, rfl⟩

theorem edited_accepts (edited : Edited s s') : s'.accepts = s.accepts := by
  cases edited <;> rfl

theorem moves_edited (edited : Edited s s') : Moves s s' := by
  have moves := Moves.edited edited s.accepts (known_self s)
  rw [← edited_accepts edited] at moves
  exact moves

theorem moves_net (s : State) (net : NetState) : Moves s { s with net := net } :=
  moves_edited (.same net)

inductive EditedAt (fd : Int) (s : State) : State → Prop where
  | same (net : NetState) : EditedAt fd s { s with net := net }
  | one (net : NetState) {before after : List Socket} {sock sock' : Socket}
      (split : s.sockets = before ++ sock :: after) (number : sock.fd = fd)
      (kept : Kept sock sock') :
      EditedAt fd s { s with net := net, sockets := before ++ sock' :: after }

theorem editedAt_edited {fd : Int} (edited : EditedAt fd s s') : Edited s s' := by
  cases edited with
  | same net => exact .same net
  | one net split number kept => exact .one net split kept

theorem withSocket_editedAt {R : Type} {fd : Int} {missing r : R}
    {f : NetState → Socket → Option (NetState × Socket × R)} (stable : Stable f)
    (done : State.withSocket { s with net := net } fd missing f = some (s', r)) :
    EditedAt fd s s' := by
  unfold State.withSocket at done
  split at done
  · cases done
    exact .same net
  rename_i before sock after found
  obtain ⟨⟨net', sock', r'⟩, inner, same⟩ := map_eq_some_iff.mp done
  cases same
  obtain ⟨split, number, _⟩ := find_split found
  exact .one net' split number (stable _ _ _ _ _ inner)

theorem withSocket_edited {R : Type} {fd : Int} {missing r : R}
    {f : NetState → Socket → Option (NetState × Socket × R)} (stable : Stable f)
    (done : State.withSocket { s with net := net } fd missing f = some (s', r)) :
    Edited s s' :=
  editedAt_edited (withSocket_editedAt stable done)

def Call.target : Call → Option Int
  | .socket _ _ | .accept _ _ | .close _ => none
  | .connect fd _ _ | .bind fd _ | .listen fd | .getsockname fd | .getpeername fd
  | .setsockopt fd _ _ | .getsockopt fd _ _ _ | .setNonblock fd _ | .sendto fd _ _ _
  | .recvfrom fd _ | .pollSocket fd _ => some fd

theorem poll_net (done : s.poll = some s') : ∃ net, s' = { s with net := net } := by
  obtain ⟨net, _, same⟩ := map_eq_some_iff.mp done
  exact ⟨net, same.symm⟩

theorem call_editedAt (target : c.target = some fd) (done : s.call c = some (s', r)) :
    EditedAt fd s s' := by
  have same : EditedAt fd s s := .same s.net
  cases c with
  | socket domain sockType | accept fd' flags | close fd' => cases target
  | connect =>
    cases target
    simp only [State.call] at done
    split at done
    · cases done
      exact same
    · exact withSocket_editedAt (connect_stable _ _) done
  | bind =>
    cases target
    simp only [State.call] at done
    split at done
    · cases done
      exact same
    · exact withSocket_editedAt (bind_stable _ _) done
  | listen =>
    cases target
    exact withSocket_editedAt listen_stable done
  | getsockname fd' | setNonblock fd' nonblock =>
    cases target
    refine withSocket_editedAt ?_ done
    rintro net sock net' sock' r ⟨⟩
    exact ⟨rfl, rfl, id⟩
  | getpeername =>
    cases target
    exact withSocket_editedAt getpeername_stable done
  | setsockopt =>
    cases done
    exact same
  | getsockopt fd' level optname len =>
    cases target
    cases len with
    | none =>
      cases done
      exact same
    | some => exact withSocket_editedAt (getsockopt_stable _ _ _) done
  | sendto =>
    cases target
    exact withSocket_editedAt (sendto_stable _ _ _) done
  | recvfrom =>
    cases target
    simp only [State.call] at done
    split at done
    · cases done
    · rename_i polled poll
      obtain ⟨net, same⟩ := poll_net poll
      subst same
      exact withSocket_editedAt (recvfrom_stable _) done
  | pollSocket =>
    cases target
    exact withSocket_editedAt (pollSocket_stable _) done

theorem sysSocket_moves (s : State) (domain : Int) (sockType : Nat) :
    Moves s (s.sysSocket domain sockType).1 := by
  unfold State.sysSocket
  split
  · exact moves_net s s.net
  · exact .pushed _ s.accepts (known_self s) _ _ _ _ _

theorem sysAccept_moves (s : State) (fd : Int) (flags : Nat) :
    Moves s (s.sysAccept fd flags).1 := by
  unfold State.sysAccept
  split
  · exact moves_net s s.net
  rename_i before sock after found
  split
  · exact moves_net s s.net
  · rename_i listener
    exact .called _ sock (found_mem found) (not_not.mp listener) rfl

theorem close_moves (done : s.close fd = some s') : Moves s s' := by
  unfold State.close at done
  split at done
  · cases done
    exact moves_net s s.net
  · rename_i before sock after found
    obtain ⟨net, _, same⟩ := map_eq_some_iff.mp done
    subst same
    exact .closed fd net found

theorem call_moves (done : s.call c = some (s', r)) : Moves s s' := by
  cases target : c.target with
  | some => exact moves_edited (editedAt_edited (call_editedAt target done))
  | none =>
    cases c with
    | socket domain sockType =>
      cases done
      exact sysSocket_moves s domain sockType
    | accept fd flags =>
      have moves := sysAccept_moves s fd flags
      rw [Option.some.inj done] at moves
      exact moves
    | close =>
      obtain ⟨closed, inner, same⟩ := map_eq_some_iff.mp done
      cases same
      exact close_moves inner
    | _ => cases target

theorem scan_moves {i : Nat} {a : Accept} (here : s.accepts[i]? = some a)
    (done : s.scan i a = some (s', r)) : Moves s s' := by
  unfold State.scan at done
  split at done
  · cases done
  rename_i polled poll
  obtain ⟨net, same⟩ := poll_net poll
  subst same
  split at done
  · cases done
  · rename_i scanned captured inner
    have edited := withSocket_edited (scan_stable _) inner
    cases done
    refine .edited edited _ ?_
    intro b member
    rw [edited_accepts edited] at member
    rcases List.mem_or_eq_of_mem_set member with old | new
    · exact ⟨b, old, rfl⟩
    · exact ⟨a, List.mem_of_getElem? here, by rw [new]⟩
  · rename_i scanned inner
    have edited := withSocket_edited (scan_stable _) inner
    split at done
    · cases done
      refine .edited edited _ ?_
      intro b member
      rw [edited_accepts edited] at member
      exact ⟨b, (List.eraseIdx_sublist _ _).subset member, rfl⟩
    · cases done
      exact moves_edited edited

theorem step_moves (taken : step s action = some s') : Moves s s' := by
  cases action with
  | call =>
    obtain ⟨⟨s'', r⟩, done, same⟩ := map_eq_some_iff.mp taken
    cases same
    exact call_moves done
  | accepting =>
    rw [step] at taken
    split at taken
    · cases taken
    rename_i a here
    split at taken
    · obtain ⟨⟨s'', r⟩, done, same⟩ := map_eq_some_iff.mp taken
      cases same
      exact scan_moves here done
    · cases taken
      refine .pushed s.net _ ?_ _ _ _ _ _
      intro b member
      exact ⟨b, (List.eraseIdx_sublist _ _).subset member, rfl⟩
  | poll =>
    obtain ⟨net, _, same⟩ := map_eq_some_iff.mp taken
    subst same
    exact moves_net s net
  | tcp =>
    obtain ⟨t, _, same⟩ := map_eq_some_iff.mp taken
    subst same
    exact moves_net s _
  | datagram =>
    obtain ⟨u, _, same⟩ := map_eq_some_iff.mp taken
    subst same
    exact moves_net s _

end Moves

def State.table (s : State) : Sockets.State :=
  ⟨s.initialized, s.sockets.map fun sock => ⟨sock.fd, sock.sockType, sock.nonblock⟩, s.nextSockFd,
    s.recycledFds⟩

section Table
variable {s s' : State}

theorem push_table (s : State) (type : SockType) (handle port addr : Nat) (nonblock : Bool) :
    (s.push type handle nonblock port addr).1.table = (s.table.push type nonblock).1 ∧
      (s.push type handle nonblock port addr).2 = (s.table.push type nonblock).2 := by
  unfold State.push Sockets.State.push Sockets.Table.add Sockets.Table.allocFd State.table
  cases s.recycledFds with
  | nil | cons fd rest => exact ⟨by simp, rfl⟩

theorem table_isSocketFd (s : State) (fd : Int) : s.table.isSocketFd fd = s.isSocketFd fd := by
  simp only [Sockets.State.isSocketFd, State.isSocketFd, State.table, List.any_map]
  rfl

theorem closed_table (found : s.find fd = some (before, sock, after)) :
    State.table { s with net := net, toTable := s.recycle fd (before ++ after) } =
      s.table.close fd := by
  obtain ⟨split, number, others⟩ := find_split found
  have present : s.table.isSocketFd fd = true := by
    rw [table_isSocketFd, State.isSocketFd, split]
    simp [number]
  have erased : s.table.sockets.eraseP (fun other => other.fd = fd) =
      (before ++ after).map fun sock => ⟨sock.fd, sock.sockType, sock.nonblock⟩ := by
    simp only [State.table, split, List.map_append, List.map_cons]
    rw [List.eraseP_append_right _ (by simpa using others), List.eraseP_cons_of_pos (by simp [number])]
  unfold Sockets.State.close
  rw [if_pos present, erased]
  rfl

inductive TableMoves (t : Sockets.State) : Sockets.State → Prop where
  | keep {t' : Sockets.State} (numbers : t'.descriptors = t.descriptors)
      (counter : t'.nextSockFd = t.nextSockFd) (pool : t'.recycledFds = t.recycledFds) :
      TableMoves t t'
  | push (type : SockType) (nonblock : Bool) : TableMoves t (t.push type nonblock).1
  | close (fd : Int) : TableMoves t (t.close fd)

theorem edited_table (edited : Edited s s') : s'.table.descriptors = s.table.descriptors ∧
    s'.table.nextSockFd = s.table.nextSockFd ∧ s'.table.recycledFds = s.table.recycledFds := by
  cases edited with
  | same => exact ⟨rfl, rfl, rfl⟩
  | one net split kept =>
    refine ⟨?_, rfl, rfl⟩
    simp [Sockets.State.descriptors, State.table, split, kept.fd]

theorem step_table (taken : step s action = some s') :
    TableMoves s.table s'.table := by
  cases step_moves taken with
  | edited edited =>
    obtain ⟨numbers, counter, pool⟩ := edited_table edited
    exact .keep numbers counter pool
  | called => exact .keep rfl rfl rfl
  | pushed net accepts known type handle port addr nonblock =>
    rw [(push_table _ type handle port addr nonblock).1]
    exact .push type nonblock
  | closed fd net found =>
    rw [closed_table found]
    exact .close fd

omit [Stack] in
theorem tableMoves_numbered (moves : TableMoves t t') (numbered : Sockets.Numbered t)
    (bound : t.nextSockFd ≤ 900) (room : t.recycledFds = [] → t.nextSockFd < 900) :
    Sockets.Numbered t' ∧ t'.nextSockFd ≤ 900 := by
  cases moves with
  | keep numbers counter pool =>
    refine ⟨⟨?_, ?_⟩, ?_⟩
    · rw [numbers, counter, pool]
      exact numbered.issued
    · rw [counter]
      exact numbered.started
    · rw [counter]
      exact bound
  | push type nonblock =>
    have opened : Sockets.Opened t (t.push type nonblock) :=
      Sockets.push_opened numbered bound room
    exact ⟨opened.numbered, opened.bound⟩
  | close fd =>
    obtain ⟨closed, counter⟩ := Sockets.close_numbered numbered fd
    refine ⟨closed, ?_⟩
    rw [counter]
    exact bound

end Table

/-- As long as the counter has not come to 900 when a fresh number may be needed, every number in
    use is between 500 and 899 and names one socket. -/
theorem run_numbered (run : Run step (initial setup) past s)
    (room : ∀ e ∈ past, e.1.recycledFds = [] → e.1.nextSockFd < 900) :
    Sockets.Numbered s.table ∧ s.table.nextSockFd ≤ 900 := by
  refine run_invariant_of (fun s _ => s.recycledFds = [] → s.nextSockFd < 900)
    (fun s => Sockets.Numbered s.table ∧ s.table.nextSockFd ≤ 900) ⟨?_, ?_⟩ ?_ run room
  · exact Sockets.numbered_initial _
  · show Sockets.sockFdBase ≤ 900
    decide
  · rintro s action s' ⟨numbered, bound⟩ free taken
    exact tableMoves_numbered (step_table taken) numbered bound free

end

theorem two_sockets_numbered : ∃ past s, Run step (initial .fixed) past s ∧
    s.sockets.length = 2 ∧ Sockets.Numbered s.table := by
  obtain ⟨past, s, run, room, two⟩ := run_of_exec
    (fun (s : State) _ => decide (s.recycledFds = [] → s.nextSockFd < 900)) step (initial .fixed)
    [.call (.socket 2 1), .call (.socket 2 1)] (fun s => s.sockets.length = 2) (by decide)
  have numbered := run_numbered run fun e member => of_decide_eq_true (room e member)
  exact ⟨past, s, run, of_decide_eq_true two, numbered.1⟩

end TynKernel.Net
