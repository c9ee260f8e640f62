import TynKernel.Net.Table

/-!
accept and the listener it was called on. The loop of accept finds the socket by its number in
every turn, and numbers are used again.
-/
namespace TynKernel.Net
open Arenas Option Rows Runs
open List (map_append map_cons mem_append mem_append_left mem_cons mem_cons_self mem_map
  mem_singleton)
open Sockets (SockType)

section
variable [Stack] {net net' : NetState} {h : Nat} {sock sock' : Socket} {r : Reply}
  {before after : List Socket}

theorem gcFrom_get (done : NetState.gcFrom fuel i net = some net') (other : h ∉ net.closing) :
    net'.set.get? h = net.set.get? h := by
  induction fuel generalizing i net with
  | zero =>
    cases done
    rfl
  | succ fuel ih =>
    rw [NetState.gcFrom] at done
    split at done
    · cases done
      rfl
    rename_i h' here
    split at done
    · cases done
    split at done
    · have member := List.mem_of_getElem? here
      have apart : h' ≠ h := by
        rintro rfl
        exact other member
      have fewer : h ∉ swapRemove net.closing i := by
        intro inside
        exact other ((swapRemove_perm here).mem_iff.mpr (List.mem_cons_of_mem _ inside))
      rw [ih done fewer]
      exact get?_remove apart
    · exact ih done other

theorem poll_get (done : net.poll = some net') (other : h ∉ net.closing) :
    net'.set.get? h = net.set.get? h := by
  unfold NetState.poll at done
  split at done
  · exact gcFrom_get done other
  · split at done
    · exact gcFrom_get done other
    · cases done

theorem slot_not_closing (accounted : Accounted s leaked) (member : sock ∈ s.sockets)
    (slot : h ∈ sock.slots) : h ∉ s.net.closing := by
  intro closing
  have distinct : (s.net.kinds.map Prod.fst).Nodup := by
    rw [handles_kinds]
    exact items_nodup s.net.set
  have apart := (accounted.map Prod.fst).nodup_iff.mp distinct
  rw [State.owned, map_append, map_append, List.append_assoc] at apart
  refine (List.nodup_append.mp apart).2.2 h ?_ h ?_ rfl
  · rw [List.map_flatMap, List.mem_flatMap]
    refine ⟨sock, member, ?_⟩
    unfold Socket.owns tcpHandles
    rw [map_cons, List.map_map]
    rcases mem_cons.mp slot with same | spare
    · rw [same]
      exact mem_cons_self
    · exact List.mem_cons_of_mem _ (mem_map.mpr ⟨h, spare, rfl⟩)
  · have owned : (h, .tcp) ∈ s.net.owned :=
      mem_append_left _ (mem_map.mpr ⟨h, closing, rfl⟩)
    refine mem_append_left _ (mem_map.mpr ⟨(h, .tcp), ?_, rfl⟩)
    exact mem_append_left _ owned

theorem poll_tcp (accounted : Accounted s leaked) (polled : s.net.poll = some net)
    (member : sock ∈ s.sockets) (slot : h ∈ sock.slots) : net.tcp h = s.net.tcp h := by
  unfold NetState.tcp
  rw [poll_get polled (slot_not_closing accounted member slot)]

structure Identified (s : State) : Prop where
  distinct : (s.sockets.map Socket.id).Nodup
  born : ∀ sock ∈ s.sockets, sock.id < s.born
  listeners : ∀ a ∈ s.accepts, a.listener < s.born
  streams : ∀ a ∈ s.accepts, ∀ sock ∈ s.sockets, sock.id = a.listener →
    sock.sockType ≠ .udpDgram

section Ids
variable {s s' : State}

theorem identified_edited (identified : Identified s) (edited : Edited s s') : Identified s' := by
  cases edited with
  | same =>
    exact ⟨identified.distinct, identified.born, identified.listeners, identified.streams⟩
  | @one net before after sock sock' split kept =>
    have ids : (before ++ sock' :: after).map Socket.id = s.sockets.map Socket.id := by
      rw [split]
      simp [kept.id]
    refine ⟨?_, ?_, identified.listeners, ?_⟩
    · simp only [ids]
      exact identified.distinct
    · intro other member
      have known : other.id ∈ s.sockets.map Socket.id := by
        rw [← ids]
        exact mem_map.mpr ⟨other, member, rfl⟩
      obtain ⟨old, oldMember, oldId⟩ := mem_map.mp known
      rw [← oldId]
      exact identified.born old oldMember
    · intro a member other otherMember isListener
      have streams := identified.streams a member
      rw [split] at streams
      rcases mem_append.mp otherMember with early | late
      · exact streams other (mem_append_left _ early) isListener
      rcases mem_cons.mp late with here | later
      · rw [here] at isListener ⊢
        exact kept.stream (streams sock (List.mem_append_right _ mem_cons_self)
          (kept.id.symm.trans isListener))
      · exact streams other (List.mem_append_right _ (List.mem_cons_of_mem _ later)) isListener

theorem identified_push (identified : Identified s) :
    Identified (s.push type handle nonblock port addr).1 := by
  refine ⟨?_, ?_, ?_, ?_⟩
  · simp only [State.push, Sockets.Table.add, map_append, map_cons, List.map_nil]
    rw [← List.concat_eq_append, List.nodup_concat]
    refine ⟨?_, identified.distinct⟩
    intro member
    obtain ⟨sock, inside, same⟩ := mem_map.mp member
    exact absurd (identified.born sock inside) (by omega)
  · intro sock member
    rcases mem_append.mp member with old | new
    · exact Nat.lt_succ_of_lt (identified.born sock old)
    · rw [mem_singleton.mp new]
      exact Nat.lt_succ_self _
  · intro a member
    exact Nat.lt_succ_of_lt (identified.listeners a member)
  · intro a member sock inside isListener
    rcases mem_append.mp inside with old | new
    · exact identified.streams a member sock old isListener
    · have older := identified.listeners a member
      rw [mem_singleton.mp new] at isListener
      exact absurd isListener (by simp only; omega)

theorem identified_fewer (identified : Identified s)
    (sockets : s'.sockets.Sublist s.sockets) (born : s'.born = s.born)
    (accepts : ∀ a ∈ s'.accepts, ∃ b ∈ s.accepts, b.listener = a.listener) : Identified s' := by
  refine ⟨(sockets.map Socket.id).nodup identified.distinct, ?_, ?_, ?_⟩
  · intro sock member
    rw [born]
    exact identified.born sock (sockets.subset member)
  · intro a member
    obtain ⟨b, inside, same⟩ := accepts a member
    rw [born, ← same]
    exact identified.listeners b inside
  · intro a member sock inside isListener
    obtain ⟨b, known, same⟩ := accepts a member
    exact identified.streams b known sock (sockets.subset inside) (isListener.trans same.symm)

theorem identified_called (identified : Identified s) (there : sock ∈ s.sockets)
    (listener : sock.sockType = .tcpListener) (own : a.listener = sock.id) :
    Identified { s with accepts := s.accepts ++ [a] } := by
  refine ⟨identified.distinct, identified.born, ?_, ?_⟩
  · intro b member
    rcases mem_append.mp member with old | new
    · exact identified.listeners b old
    · rw [mem_singleton.mp new, own]
      exact identified.born sock there
  · intro b member other inside isListener
    rcases mem_append.mp member with old | new
    · exact identified.streams b old other inside isListener
    rw [mem_singleton.mp new, own] at isListener
    have same : other = sock :=
      List.inj_on_of_nodup_map identified.distinct inside there isListener
    rw [same, listener]
    decide

theorem identified_step (identified : Identified s) (taken : step s action = some s') :
    Identified s' := by
  cases step_moves taken with
  | edited edited accepts known =>
    refine identified_fewer (identified_edited identified edited) (.refl _) rfl ?_
    rw [edited_accepts edited]
    exact known
  | called a sock member listener own => exact identified_called identified member listener own
  | pushed net accepts known =>
    exact identified_push (identified_fewer identified (.refl _) rfl known)
  | closed fd net found =>
    refine identified_fewer identified ?_ rfl (known_self s)
    rw [(find_split found).1]
    exact List.Sublist.append_left (List.sublist_cons_self _ _) _

end Ids

theorem run_identified (run : Run step (initial setup) past s) : Identified s := by
  refine run_invariant Identified ?_ (fun _ _ _ held taken => identified_step held taken) run
  refine ⟨List.nodup_nil, ?_, ?_, ?_⟩ <;> intro a member <;> cases member

def Idle (net : NetState) (sock : Socket) : Prop :=
  ∀ h ∈ sock.slots, ∀ t, net.tcp h = some t → ¬ t.ready = true

def Alive (s : State) (id : Nat) : Prop := ∃ sock ∈ s.sockets, sock.id = id

def Spares (s s' : State) (id : Nat) : Prop :=
  ∀ sock ∈ s.sockets, sock.id ≠ id → sock ∈ s'.sockets

def State.turns (i : Nat) (a : Accept) : Nat → State → Option (State × Reply)
  | 0, s => some (s, .pending)
  | n + 1, s =>
    match s.scan i a with
    | some (s', .pending) => if s'.accepts[i]? = some a then turns i a n s' else some (s', .pending)
    | result => result

/-- The next scan ends and leaves the other sockets alone, and once the listener is closed the
    call returns an error after finitely many turns. -/
def Obeys (s : State) (i : Nat) (a : Accept) : Prop :=
  (∃ s' r, s.scan i a = some (s', r) ∧ Spares s s' a.listener) ∧
    (¬ Alive s a.listener → ∃ n s' code, State.turns i a n s = some (s', .code code) ∧ code < 0)

/-- The number still is that of the listener. Or the socket under the number, if there is one, is
    a stream socket that has no connection to capture, and the listener is open or the call does
    not block. -/
def Undisturbed (s : State) (a : Accept) : Prop :=
  (∃ found, s.find a.fd = some found ∧ found.2.1.id = a.listener) ∨
    ((∀ found, s.find a.fd = some found →
        found.2.1.sockType ≠ .udpDgram ∧ Idle s.net found.2.1) ∧
      (Alive s a.listener ∨ a.nonblockCall = true))

section Law
variable {s : State} {leaked : Owned} {i : Nat} {a : Accept}

theorem blocking_pending (blocking : ¬ a.nonblockCall = true) (done : s.scan i a = some (s', r)) :
    r = .pending := by
  unfold State.scan at done
  split at done
  · cases done
  split at done
  · cases done
  · cases done
    rfl
  · rw [if_neg blocking] at done
    cases done
    rfl

theorem blocking_turns (blocking : ¬ a.nonblockCall = true) (n : Nat) (s : State)
    (done : State.turns i a n s = some (s', r)) : r = .pending := by
  induction n generalizing s with
  | zero =>
    cases done
    rfl
  | succ n ih =>
    rw [State.turns] at done
    split at done
    · split at done
      · exact ih _ done
      · cases done
        rfl
    · exact blocking_pending blocking done

theorem scan_nothing (accounted : Accounted s leaked)
    (nothing : ∀ found, s.find a.fd = some found →
      found.2.1.sockType ≠ .udpDgram ∧ Idle s.net found.2.1) :
    ∃ s', s'.sockets = s.sockets ∧
      s.scan i a = some (s', if a.nonblockCall then .code (-11) else .pending) := by
  obtain ⟨net, polled, accounted'⟩ := accounted_poll accounted
  have scanned : State.withSocket { s with net := net } a.fd none
      (Socket.scan (endpointOf a.addr a.port)) = some ({ s with net := net }, none) := by
    unfold State.withSocket
    cases found : s.find a.fd with
    | none =>
      have found' : State.find { s with net := net } a.fd = none := found
      simp [found']
    | some focused =>
      obtain ⟨before, sock, after⟩ := focused
      obtain ⟨type, idle⟩ := nothing _ found
      have found' : State.find { s with net := net } a.fd = some (before, sock, after) := found
      have split := (find_split found).1
      have member := found_mem found
      have balanced := (accounted_balanced (find_split found').1).mp accounted'
      rcases scan_outcome (slots_tcp balanced type) (endpointOf a.addr a.port) with
        ⟨none_, _⟩ | ⟨j, h, t, sock', place, got, ready, _⟩
      · have same : before ++ sock :: after = s.sockets := split.symm
        simp [found', none_, same]
      · have slot := List.mem_of_getElem? place
        rw [poll_tcp accounted polled member slot] at got
        exact absurd ready (idle h slot t got)
  unfold State.scan
  simp only [State.poll, polled, map_some, scanned]
  split
  · exact ⟨{ s with net := net, accepts := s.accepts.eraseIdx i }, rfl, rfl⟩
  · exact ⟨{ s with net := net }, rfl, rfl⟩

theorem scan_captures (accounted : Accounted s leaked)
    (found : s.find a.fd = some (before, sock, after)) (type : sock.sockType ≠ .udpDgram)
    (connected : ¬ Idle s.net sock) :
    ∃ s' sock', s.scan i a = some (s', .pending) ∧ s'.sockets = before ++ sock' :: after ∧
      sock' ≠ sock := by
  obtain ⟨net, polled, accounted'⟩ := accounted_poll accounted
  have found' : State.find { s with net := net } a.fd = some (before, sock, after) := found
  have member := found_mem found
  have balanced := (accounted_balanced (find_split found').1).mp accounted'
  rcases scan_outcome (slots_tcp balanced type) (endpointOf a.addr a.port) with
    ⟨_, idle⟩ | ⟨j, h, t, sock', place, got, ready, done, slots, _⟩
  · refine absurd ?_ connected
    intro h slot t got
    rw [← poll_tcp accounted polled member slot] at got
    exact idle h slot t got
  · have fresh : (net.installFreshListener (endpointOf a.addr a.port)).2 ≠ h :=
      fresh_ne (tcp_iff.mp got)
    have scanned : State.withSocket { s with net := net } a.fd none
        (Socket.scan (endpointOf a.addr a.port)) = some ({ s with
          net := (net.installFreshListener (endpointOf a.addr a.port)).1
          sockets := before ++ sock' :: after }, some (h, t.remote)) := by
      unfold State.withSocket
      simp [found', done]
    refine ⟨{ s with
      net := (net.installFreshListener (endpointOf a.addr a.port)).1
      sockets := before ++ sock' :: after
      accepts := s.accepts.set i { a with captured := some (h, t.remote) } }, sock', ?_, rfl, ?_⟩
    · unfold State.scan
      simp [State.poll, polled, scanned]
    intro same
    rw [same] at slots
    obtain ⟨bound, _⟩ := List.getElem?_eq_some_iff.mp place
    have twice : sock.slots[j]? = some (net.installFreshListener (endpointOf a.addr a.port)).2 := by
      rw [slots, List.getElem?_set_self bound]
    rw [place] at twice
    exact fresh (Option.some.inj twice).symm

theorem captured_spares (split : s.sockets = before ++ sock :: after)
    (sockets : s'.sockets = before ++ sock' :: after) (own : sock.id = a.listener) :
    Spares s s' a.listener := by
  intro other inside foreign
  rw [split] at inside
  rw [sockets]
  refine mem_replaced inside ?_ sock'
  rintro rfl
  exact foreign own

theorem captured_foreign (identified : Identified s) (split : s.sockets = before ++ sock :: after)
    (sockets : s'.sockets = before ++ sock' :: after) (changed : sock' ≠ sock)
    (foreign : sock.id ≠ a.listener) : ¬ Spares s s' a.listener := by
  intro spares
  have there : sock ∈ s.sockets := by
    rw [split]
    exact List.mem_append_right _ mem_cons_self
  have still := spares sock there foreign
  have distinct := identified.distinct
  rw [split, map_append, map_cons, List.nodup_append, List.nodup_cons] at distinct
  rw [sockets] at still
  rcases mem_append.mp still with early | late
  · exact distinct.2.2 _ (mem_map.mpr ⟨sock, early, rfl⟩) _ mem_cons_self rfl
  · rcases mem_cons.mp late with same | later
    · exact changed same.symm
    · exact distinct.2.1.1 (mem_map.mpr ⟨sock, later, rfl⟩)

theorem own_scan_spares (accounted : Accounted s leaked)
    (found : s.find a.fd = some (before, sock, after)) (type : sock.sockType ≠ .udpDgram)
    (own : sock.id = a.listener) :
    ∃ s' r, s.scan i a = some (s', r) ∧ Spares s s' a.listener := by
  by_cases idle : Idle s.net sock
  · obtain ⟨s', sockets, done⟩ := scan_nothing (i := i) (a := a) accounted (by
      rintro found' same
      rw [found] at same
      cases same
      exact ⟨type, idle⟩)
    refine ⟨s', _, done, ?_⟩
    intro other inside _
    rw [sockets]
    exact inside
  · obtain ⟨s', sock', done, sockets, _⟩ := scan_captures (i := i) accounted found type idle
    exact ⟨s', _, done, captured_spares (find_split found).1 sockets own⟩

theorem spared_idle (accounted : Accounted s leaked) (identified : Identified s)
    (found : s.find a.fd = some (before, sock, after)) (foreign : sock.id ≠ a.listener)
    (done : s.scan i a = some (s', r)) (spares : Spares s s' a.listener) :
    sock.sockType ≠ .udpDgram ∧ Idle s.net sock := by
  have type : sock.sockType ≠ .udpDgram := by
    intro dgram
    have stops : s.dgram a.fd = true := by
      rw [State.dgram, found, any_some]
      exact decide_eq_true dgram
    rw [scan_mistyped accounted stops] at done
    cases done
  refine ⟨type, ?_⟩
  by_contra connected
  obtain ⟨s'', sock', captured, sockets, changed⟩ :=
    scan_captures (i := i) accounted found type connected
  rw [done] at captured
  cases captured
  exact captured_foreign identified (find_split found).1 sockets changed foreign spares

end Law

/-- In every reachable state the next scan of an accept keeps to its listener, and the call ends
    once the listener is closed, if and only if nothing has disturbed it: the number is still that
    of the listener, or nothing can be captured under it and the call will not wait for ever. -/
theorem accept_keeps_to_listener (setup : Setup) (past : List (State × Action)) (s : State)
    (reached : Run step (initial setup) past s) (i : Nat) (a : Accept)
    (here : s.accepts[i]? = some a) : Obeys s i a ↔ Undisturbed s a := by
  have accounted := run_accounted reached
  have identified := run_identified reached
  have member := List.mem_of_getElem? here
  constructor
  · rintro ⟨⟨s', r, done, spares⟩, returns⟩
    by_cases own : ∃ found, s.find a.fd = some found ∧ found.2.1.id = a.listener
    · exact .inl own
    refine .inr ⟨?_, ?_⟩
    · rintro ⟨before, sock, after⟩ found
      have foreign : sock.id ≠ a.listener := fun same => own ⟨_, found, same⟩
      exact spared_idle accounted identified found foreign done spares
    by_cases alive : Alive s a.listener
    · exact .inl alive
    · refine .inr ?_
      by_contra blocking
      obtain ⟨n, s'', code, ended, _⟩ := returns alive
      cases blocking_turns blocking n s ended
  · rintro (⟨⟨before, sock, after⟩, found, own⟩ | ⟨nothing, ends⟩)
    · have there := found_mem found
      have type := identified.streams a member sock there own
      exact ⟨own_scan_spares accounted found type own,
        fun closed => absurd ⟨sock, there, own⟩ closed⟩
    · obtain ⟨s', sockets, done⟩ := scan_nothing (i := i) (a := a) accounted nothing
      refine ⟨⟨s', _, done, ?_⟩, ?_⟩
      · intro other inside _
        rw [sockets]
        exact inside
      intro closed
      rcases ends with alive | nonblock
      · exact absurd alive closed
      · rw [if_pos nonblock] at done
        refine ⟨1, s', -11, ?_, by decide⟩
        rw [State.turns, done]

end

theorem accept_open_listener : ∃ past s a, Run step (initial .fixed) past s ∧
    s.accepts[0]? = some a ∧ a.nonblockCall = false ∧ (s.net.tcp 0).any Tcp.ready = true ∧
    Obeys s 0 a := by
  obtain ⟨past, s, run, _, waiting⟩ := run_of_exec (fun _ _ => true) step (initial .fixed)
    [.call (.socket 2 1), .call (.bind 500 service), .call (.listen 500), .call (.accept 500 0),
      .call (.socket 2 2), .tcp 0 (.syn ⟨1, 80⟩), .tcp 0 .ack]
    (fun s => s.accepts[0]? = some ⟨500, false, false, 8080, 0, 0, none⟩ ∧
      (s.net.tcp 0).any Tcp.ready ∧ (s.find 500).any (fun found => found.2.1.id = 0))
    (by decide +kernel)
  obtain ⟨here, ready, own⟩ := of_decide_eq_true waiting
  obtain ⟨found, get, same⟩ := (any_eq_true _ _).mp own
  refine ⟨past, s, _, run, here, rfl, ready, ?_⟩
  exact (accept_keeps_to_listener .fixed past s run 0 _ here).mpr
    (.inl ⟨found, get, of_decide_eq_true same⟩)

/-- The listener 500 is closed while an accept on it waits, and its number goes to a socket that
    connects to a peer. The accept takes that connection, and its socket gets a listener. -/
theorem accept_takes_foreign : ∃ past s s' a sock, Run step (initial .fixed) past s ∧
    s.accepts[0]? = some a ∧ s.sockets = [sock] ∧ sock.id ≠ a.listener ∧
    step s (.accepting 0) = some s' ∧
    s'.accepts[0]? = some { a with captured := some (sock.handle, some ⟨1, 80⟩) } ∧
    ∀ other ∈ s'.sockets, other.handle ≠ sock.handle := by
  obtain ⟨past, s, run, _, holds⟩ := run_of_exec (fun _ _ => true) step (initial .fixed)
    [.call (.socket 2 1), .call (.bind 500 service), .call (.listen 500), .call (.accept 500 0),
      .call (.close 500), .call (.socket 2 1), .call (.connect 500 ⟨2, 80, 1⟩ true), .tcp 0 .ack]
    (fun s => (s.accepts[0]?).any fun a => (s.sockets.head?).any fun sock =>
      (step s (.accepting 0)).any fun s' => s.sockets = [sock] ∧ sock.id ≠ a.listener ∧
        s'.accepts[0]? = some { a with captured := some (sock.handle, some ⟨1, 80⟩) } ∧
        ∀ other ∈ s'.sockets, other.handle ≠ sock.handle) (by decide +kernel)
  obtain ⟨a, here, holds⟩ := (any_eq_true _ _).mp holds
  obtain ⟨sock, _, holds⟩ := (any_eq_true _ _).mp holds
  obtain ⟨s', taken, holds⟩ := (any_eq_true _ _).mp holds
  obtain ⟨only, foreign, captured, others⟩ := of_decide_eq_true holds
  exact ⟨past, s, s', a, sock, run, here, only, foreign, taken, captured, others⟩

end TynKernel.Net
