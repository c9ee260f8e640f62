import TynKernel.Net.Descriptors

/-!
The connections that accept delivers. In the one locked section of its scan a call takes a
handle out of the pool of the listener and puts a fresh listener there.
-/
namespace TynKernel.Net
open Arenas Freelists Numbers Option Rows Runs
open List (count_append count_nil filterMap_cons_none flatMap_cons map_append mem_cons_self mem_map
  nodup_append perm_iff_count)
open Sockets (SockType sockFdBase)

section
variable [Stack] {s kernel : State} {place place' : Place} {e : Fresh} {before after : List Socket}
  {sock : Socket} {r : Option (Nat × Option IpEndpoint)} {c : Nat × Option IpEndpoint}
  {setup : Setup} {h k : Nat} {w : Machine} {n : Int}

def Place.owns : Place → Owned
  | .poll _ | .scan _ | .returned _ => []
  | .pick e | .count e | .publish _ e => [(e.handle, kindOf e.sockType)]
  | .recycle sock | .release sock => sock.owns

def Machine.inHands (m : Machine) : Owned := m.calls.flatMap Place.owns

def Held (m : Machine) (leaked : Owned) : Prop := Accounted m.kernel (m.inHands ++ leaked)

section Handles
variable {m m' : Machine} {leaked : Owned}

theorem accounted_perm (accounted : Accounted s leaked) (same : leaked.Perm leaked') :
    Accounted s leaked' :=
  accounted.trans (same.append_left _)

theorem begin_inHands (m : Machine) (kernel : State) (place : Place) :
    (m.begin kernel place).inHands = m.inHands ++ place.owns := by
  simp [Machine.inHands, Machine.begin]

theorem goto_inHands (here : m.calls[i]? = some place) :
    ∃ rest, m.inHands.Perm (place.owns ++ rest) ∧
      ∀ kernel place', (m.goto i kernel place').inHands.Perm (place'.owns ++ rest) := by
  obtain ⟨others, before, after⟩ := set_exchange here
  exact ⟨others.flatMap Place.owns, before.flatMap_right _,
    fun kernel place' => (after place').flatMap_right _⟩

theorem held_goto (here : m.calls[i]? = some place) (owns : place'.owns = place.owns)
    (accounted : Accounted kernel (m.inHands ++ leaked)) :
    Held (m.goto i kernel place') leaked := by
  obtain ⟨rest, before, after⟩ := goto_inHands here
  have same := after kernel place'
  rw [owns] at same
  exact accounted_perm accounted ((before.trans same.symm).append_right leaked)

section
variable (held : Held m leaked)
include held

theorem created_held {inner : Inner} (kind : inner.kind = kindOf e.sockType)
    (handle : e.handle = (m.kernel.net.add inner).2) :
    Held (m.begin { m.kernel with net := (m.kernel.net.add inner).1 } (.pick e)) leaked := by
  have grown : (m.kernel.net.add inner).1.kinds.Perm
      (((m.kernel.net.add inner).2, inner.kind) :: m.kernel.net.kinds) :=
    add_marks m.kernel.net.set Inner.kind inner
  rw [kind, ← handle] at grown
  have all := grown.trans (List.Perm.cons _ held)
  unfold Held Accounted
  rw [begin_inHands]
  refine all.trans ?_
  rw [perm_iff_count]
  have owned : State.owned (m.begin { m.kernel with net := (m.kernel.net.add inner).1 }
      (.pick e)).kernel = m.kernel.owned := rfl
  simp only [owned, Place.owns, List.count_cons, count_append, count_nil]
  omega

theorem removed_held (found : m.kernel.find fd = some (before, sock, after)) :
    Held (m.begin { m.kernel with sockets := before ++ after } (.recycle sock)) leaked := by
  have balanced := (accounted_balanced (find_split found).1).mp held
  unfold Held Accounted State.owned
  rw [begin_inHands]
  unfold Balanced others at balanced
  refine balanced.trans ?_
  rw [perm_iff_count]
  simp only [Machine.begin, Place.owns, count_append]
  omega

theorem scanned_held (done : m.scanned a = some (kernel, r)) :
    Accounted kernel (r.toList.map (fun c => (c.1, .tcp)) ++ (m.inHands ++ leaked)) := by
  by_cases dgram : m.kernel.dgram a.fd = true
  · obtain ⟨before, sock, after, found, none_⟩ := dgram_none held dgram
    have stops : m.scanned a = none := by
      refine withSocket_none found ?_
      simp [Socket.scan, none_]
    rw [stops] at done
    cases done
  · obtain ⟨kernel', r', done', accounted, _⟩ := withSocket_ends a.fd none
      (Socket.scan (endpointOf a.addr a.port)) (fun r => r.toList.map fun c => (c.1, .tcp)) held
      (fun _ => rfl) (fun before sock after rest found balanced =>
        scan_ends balanced (stream_of_not_dgram dgram found) _)
    have same := done.symm.trans done'
    cases same
    exact accounted

theorem captured_held (here : m.calls[i]? = some (.scan a))
    (done : m.scanned a = some (kernel, some c)) :
    Held (m.goto i kernel (.pick (Machine.taken a c))) leaked := by
  obtain ⟨rest, before, after⟩ := goto_inHands here
  refine accounted_perm (scanned_held held done) ?_
  have same := (after kernel (.pick (Machine.taken a c))).append_right leaked
  refine List.Perm.trans ?_ same.symm
  exact (before.append_right leaked).cons _

theorem published_held (here : m.calls[i]? = some (.publish fd e)) :
    Held (m.goto i (Machine.publish m.kernel fd e) (.returned (e.reply fd))) leaked := by
  obtain ⟨rest, before, after⟩ := goto_inHands here
  have same := after (Machine.publish m.kernel fd e) (.returned (e.reply fd))
  unfold Held Accounted State.owned at held ⊢
  refine held.trans ?_
  rw [perm_iff_count] at before same ⊢
  intro x
  have := before x
  have := same x
  simp only [Machine.goto, Machine.publish, Place.owns, List.flatMap_append, flatMap_cons,
    List.flatMap_nil, Fresh.socket_owns, count_append, List.count_cons, count_nil] at *
  omega

theorem released_held (here : m.calls[i]? = some (.release sock))
    (done : sock.release m.kernel.net = some net) :
    Held (m.goto i { m.kernel with net := net } (.returned (.code 0)))
      (sock.lostByClose ++ leaked) := by
  obtain ⟨rest, before, after⟩ := goto_inHands here
  have same := after { m.kernel with net := net } (.returned (.code 0))
  have balanced : Balanced m.kernel.net sock (m.kernel.sockets.flatMap Socket.owns ++
      (m.kernel.accepts.flatMap Accept.owns ++ (rest ++ leaked))) := by
    unfold Held Accounted State.owned at held
    refine held.trans ?_
    rw [perm_iff_count] at before ⊢
    intro x
    have := before x
    simp only [Place.owns, count_append] at this ⊢
    omega
  obtain ⟨net', done', left⟩ := release_ends balanced
  rw [done] at done'
  cases done'
  unfold Held Accounted State.owned
  refine left.trans ?_
  rw [perm_iff_count] at same ⊢
  intro x
  have := same x
  simp only [Machine.goto, Place.owns, count_append, count_nil] at this ⊢
  omega

theorem next_held (taken : m.next a = some m') :
    ∃ leaked', Held m' leaked' := by
  cases next_progress taken with
  | @inPlace c fd kernel r target done =>
    by_cases mistyped : Mistyped m.kernel c = true
    · rw [call_mistyped held mistyped] at done
      cases done
    obtain ⟨kernel', r', done', accounted⟩ := call_accounted held mistyped
    rw [done] at done'
    cases done'
    refine ⟨lost m.kernel (.call c) ++ leaked, accounted_perm accounted ?_⟩
    exact List.perm_append_comm_assoc ..
  | ended => exact ⟨leaked, held⟩
  | created kind => exact ⟨leaked, created_held held kind rfl⟩
  | called =>
    refine ⟨leaked, ?_⟩
    unfold Held
    rw [begin_inHands, Place.owns, List.append_nil]
    exact held
  | removed found => exact ⟨leaked, removed_held held found⟩
  | polled here done =>
    obtain ⟨net, polled, accounted⟩ := accounted_poll held
    rw [State.poll, polled] at done
    cases done
    exact ⟨leaked, held_goto here rfl accounted⟩
  | captured here done => exact ⟨leaked, captured_held held here done⟩
  | missed here done =>
    refine ⟨leaked, held_goto here ?_ (scanned_held held done)⟩
    split <;> rfl
  | reused here free | none_free here empty | counted here | recycled here =>
    exact ⟨leaked, held_goto here rfl held⟩
  | published here => exact ⟨leaked, published_held held here⟩
  | released here done => exact ⟨_, released_held held here done⟩
  | @event a action kernel isEvent other noCall done =>
    have nothing : lost m.kernel action = [] := by
      cases action with
      | call => cases isEvent
      | _ => rfl
    have accounted := step_accounted held done
    rw [nothing] at accounted
    exact ⟨leaked, accounted⟩

end

theorem run_held (run : Run Machine.next (Machine.start setup) past m) :
    ∃ leaked, Held m leaked := by
  have begins : Held (Machine.start setup) [] := initial_accounted setup
  exact run_invariant (fun m => ∃ leaked, Held m leaked) ⟨[], begins⟩
    (fun _ _ _ ⟨_, held⟩ taken => next_held held taken) run

end Handles

def Place.holds : Place → Option Nat
  | .pick e | .count e | .publish _ e => e.captured
  | _ => none

def Place.idle (place : Place) : Bool := place.underway && place.holds.isNone

namespace Machine

def holding (m : Machine) (i : Nat) : Option Nat := (m.calls[i]?).bind Place.holds

def idle (m : Machine) (i : Nat) : Bool := (m.calls[i]?).all Place.idle

def captured (m : Machine) : List Nat := m.calls.flatMap fun place => place.holds.toList

end Machine

def captureBy (i : Nat) (e : Machine × Move) : Option Nat :=
  match e.2 with
  | .turn j =>
    if j = i then
      match e.1.calls[i]? with
      | some (.scan a) => ((e.1.scanned a).bind Prod.snd).map Prod.fst
      | _ => none
    else none
  | _ => none

def returnBy (i : Nat) (e : Machine × Move) : Option (Nat × Int) :=
  match e.2 with
  | .turn j =>
    if j = i then
      match e.1.calls[i]? with
      | some (.publish fd fresh) => fresh.captured.map fun h => (h, fd)
      | _ => none
    else none
  | _ => none

def captures (i : Nat) (past : List (Machine × Move)) : List Nat := past.filterMap (captureBy i)

def returns (i : Nat) (past : List (Machine × Move)) : List (Nat × Int) :=
  past.filterMap (returnBy i)

structure Told (i : Nat) (past : List (Machine × Move)) (m : Machine) : Prop where
  balance : captures i past = (m.holding i).toList ++ (returns i past).map Prod.fst
  once : (captures i past).length ≤ 1
  idle : m.idle i = true → captures i past = []

section Told
variable {i : Nat} {past : List (Machine × Move)} {m m' : Machine} {a : Move}

theorem told_same (told : Told i past m) (noCapture : captureBy i (m, a) = none)
    (noReturn : returnBy i (m, a) = none) (holding : m'.holding i = m.holding i)
    (idle : m'.idle i = true → m.idle i = true) : Told i ((m, a) :: past) m' := by
  have sameCaptures : captures i ((m, a) :: past) = captures i past :=
    filterMap_cons_none noCapture
  have sameReturns : returns i ((m, a) :: past) = returns i past :=
    filterMap_cons_none noReturn
  refine ⟨?_, ?_, ?_⟩
  · rw [sameCaptures, sameReturns, holding]
    exact told.balance
  · rw [sameCaptures]
    exact told.once
  · intro isIdle
    rw [sameCaptures]
    exact told.idle (idle isIdle)

theorem begin_place (new : place.holds = none) :
    (m.begin kernel place).holding i = m.holding i ∧
      ((m.begin kernel place).idle i = true → m.idle i = true) := by
  unfold Machine.holding Machine.idle Machine.begin
  rcases Nat.lt_trichotomy i m.calls.length with inside | last | outside
  · rw [List.getElem?_append_left inside]
    exact ⟨rfl, id⟩
  · subst last
    simp [new]
  · rw [List.getElem?_eq_none (by simp; omega), List.getElem?_eq_none (by omega)]
    exact ⟨rfl, id⟩

theorem goto_other (other : j ≠ i) (kernel : State) (place : Place) :
    (m.goto j kernel place).calls[i]? = m.calls[i]? := List.getElem?_set_ne other

theorem goto_same (here : m.calls[i]? = some place) (kernel : State) (place' : Place) :
    (m.goto i kernel place').calls[i]? = some place' := by
  obtain ⟨bound, _⟩ := List.getElem?_eq_some_iff.mp here
  exact List.getElem?_set_self bound

theorem told_turn (told : Told i past m) (here : m.calls[i]? = some place)
    (noCapture : captureBy i (m, .turn i) = none) (noReturn : returnBy i (m, .turn i) = none)
    (holds : place'.holds = place.holds) (idle : place'.idle = true → place.idle = true) :
    Told i ((m, .turn i) :: past) (m.goto i kernel place') := by
  refine told_same told noCapture noReturn ?_ ?_
  · rw [Machine.holding, Machine.holding, goto_same here, here]
    exact holds
  · rw [Machine.idle, Machine.idle, goto_same here, here]
    exact idle

theorem told_captured {a : Accept} (told : Told i past m) (here : m.calls[i]? = some (.scan a))
    (done : m.scanned a = some (kernel, some c)) :
    Told i ((m, .turn i) :: past) (m.goto i kernel (.pick (Machine.taken a c))) := by
  have capture : captureBy i (m, .turn i) = some c.1 := by
    simp [captureBy, here, done]
  have noReturn : returnBy i (m, .turn i) = none := by
    simp [returnBy, here]
  have nothing : captures i past = [] := by
    refine told.idle ?_
    rw [Machine.idle, here]
    rfl
  have none_ : (returns i past).map Prod.fst = [] := by
    have balance := told.balance
    rw [nothing] at balance
    exact (List.append_eq_nil_iff.mp balance.symm).2
  have captures' : captures i ((m, .turn i) :: past) = [c.1] := by
    rw [captures, List.filterMap_cons_some capture]
    exact congrArg _ nothing
  have returns' : (returns i ((m, .turn i) :: past)).map Prod.fst = [] := by
    rw [returns, filterMap_cons_none noReturn]
    exact none_
  have holds : (m.goto i kernel (.pick (Machine.taken a c))).holding i = some c.1 := by
    rw [Machine.holding, goto_same here]
    rfl
  refine ⟨?_, ?_, ?_⟩
  · rw [captures', returns', holds]
    rfl
  · rw [captures']
    exact Nat.le_refl _
  · rw [Machine.idle, goto_same here]
    intro idle
    cases idle

theorem told_published (told : Told i past m) (here : m.calls[i]? = some (.publish fd e)) :
    Told i ((m, .turn i) :: past) (m.goto i kernel (.returned (e.reply fd))) := by
  have noCapture : captureBy i (m, .turn i) = none := by
    simp [captureBy, here]
  have held : m.holding i = e.captured := by
    rw [Machine.holding, here]
    rfl
  have back : returnBy i (m, .turn i) = e.captured.map fun h => (h, fd) := by
    simp [returnBy, here]
  have ended : ∀ kernel, (m.goto i kernel (.returned (e.reply fd))).holding i = none ∧
      (m.goto i kernel (.returned (e.reply fd))).idle i = false := by
    intro kernel
    rw [Machine.holding, Machine.idle, goto_same here]
    exact ⟨rfl, rfl⟩
  obtain ⟨nothing, over_⟩ := ended kernel
  cases captured : e.captured with
  | none =>
    rw [captured] at held back
    refine told_same told noCapture back (nothing.trans held.symm) ?_
    rw [over_]
    exact nofun
  | some h =>
    rw [captured] at held back
    have sameCaptures : captures i ((m, .turn i) :: past) = captures i past :=
      filterMap_cons_none noCapture
    have returns' : returns i ((m, .turn i) :: past) = (h, fd) :: returns i past :=
      List.filterMap_cons_some back
    have balance := told.balance
    rw [held] at balance
    refine ⟨?_, ?_, ?_⟩
    · rw [sameCaptures, returns', nothing]
      exact balance
    · rw [sameCaptures]
      exact told.once
    · rw [over_]
      exact nofun

theorem told_own (told : Told i past m) (taken : m.next (.turn i) = some m') :
    Told i ((m, .turn i) :: past) m' := by
  cases next_progress taken with
  | polled here done | released here done =>
    exact told_turn told here (by simp [captureBy, here]) (by simp [returnBy, here]) rfl
      (fun _ => rfl)
  | captured here done => exact told_captured told here done
  | missed here done =>
    refine told_turn told here (by simp [captureBy, here, done]) (by simp [returnBy, here]) ?_
      (fun _ => rfl)
    split <;> rfl
  | reused here free | none_free here empty | counted here | recycled here =>
    exact told_turn told here (by simp [captureBy, here]) (by simp [returnBy, here]) rfl id
  | published here => exact told_published told here
  | event isEvent other => exact absurd rfl (other i)

theorem next_elsewhere (other : a ≠ .turn i) (taken : m.next a = some m') :
    m'.holding i = m.holding i ∧ (m'.idle i = true → m.idle i = true) := by
  have moved : ∀ j kernel place, Move.turn j ≠ .turn i →
      (m.goto j kernel place).holding i = m.holding i ∧
        ((m.goto j kernel place).idle i = true → m.idle i = true) := by
    intro j kernel place apart
    have place' := goto_other (fun same => apart (congrArg Move.turn same)) kernel place (m := m)
    rw [Machine.holding, Machine.holding, Machine.idle, Machine.idle, place']
    exact ⟨rfl, id⟩
  cases next_progress taken with
  | inPlace target done | ended none_ | event isEvent noTurn noCall done => exact ⟨rfl, id⟩
  | created kind | called a | removed found => exact begin_place rfl
  | polled here done | captured here done | missed here done | reused here free
  | none_free here empty | counted here | published here | recycled here | released here done =>
    exact moved _ _ _ other

theorem told_step (told : Told i past m) (taken : m.next a = some m') :
    Told i ((m, a) :: past) m' := by
  by_cases own : a = .turn i
  · subst own
    exact told_own told taken
  obtain ⟨holding, idle⟩ := next_elsewhere own taken
  refine told_same told ?_ ?_ holding idle
  · cases a with
    | turn => exact if_neg fun same => own (congrArg Move.turn same)
    | _ => rfl
  · cases a with
    | turn => exact if_neg fun same => own (congrArg Move.turn same)
    | _ => rfl

theorem run_told (run : Run Machine.next (Machine.start setup) past m) (i : Nat) :
    Told i past m := by
  induction run with
  | nil => exact ⟨rfl, Nat.zero_le _, fun _ => rfl⟩
  | snoc before taken ih => exact told_step ih taken

end Told

section Ends
variable {i : Nat} {m m' : Machine}

def ReturnsWithin (m : Machine) (i h k : Nat) : Prop :=
  ∃ later m' n, Run Machine.next m later m' ∧ later.length ≤ k ∧ (∀ e ∈ later, e.2 = .turn i) ∧
    returns i later = [(h, n)]

theorem fits_goto (fits : m.fits = true)
    (here : m.calls[i]? = some place) (underway : place.underway = true)
    (small : kernel.sockets.length + kernel.recycledFds.length + place'.underway.toNat ≤
      m.kernel.sockets.length + m.kernel.recycledFds.length + 1) :
    (m.goto i kernel place').fits = true := by
  obtain ⟨others, before, after⟩ := set_exchange here
  have counted : m.calls.countP Place.underway = others.countP Place.underway + 1 := by
    rw [before.countP_eq, List.countP_cons, underway]
    rfl
  have counted' : (m.calls.set i place').countP Place.underway =
      others.countP Place.underway + place'.underway.toNat := by
    rw [(after place').countP_eq, List.countP_cons]
    cases place'.underway <;> rfl
  have room := of_decide_eq_true fits
  refine decide_eq_true ?_
  simp only [Machine.goto]
  omega

theorem next_turn (here : m.calls[i]? = some place) (done : m.turn i place = some m')
    (fits : m'.fits = true) : m.next (.turn i) = some m' := by
  refine filter_eq_some_iff.mpr ⟨?_, fits⟩
  simp only [Machine.move, here]
  exact done

theorem publish_returns (fits : m.fits = true) (here : m.calls[i]? = some (.publish fd e))
    (captured : e.captured = some h) : ReturnsWithin m i h 1 := by
  have taken := next_turn here rfl (fits_goto fits here rfl (by
    simp only [Machine.publish, Place.underway, List.length_append, List.length_singleton,
      Bool.toNat_false]
    omega))
  have back : returnBy i (m, .turn i) = some (h, fd) := by
    simp [returnBy, here, captured]
  refine ⟨[(m, .turn i)], _, fd, .snoc .nil taken, Nat.le_refl _, by simp, ?_⟩
  exact List.filterMap_cons_some back

theorem returns_later (taken : m.next (.turn i) = some m')
    (noReturn : returnBy i (m, .turn i) = none) (rest : ReturnsWithin m' i h k) :
    ReturnsWithin m i h (k + 1) := by
  obtain ⟨later, final, n, run, short, own, back⟩ := rest
  refine ⟨later ++ [(m, .turn i)], final, n, run_append (.snoc .nil taken) run, ?_, ?_, ?_⟩
  · rw [List.length_append, List.length_singleton]
    omega
  · rw [List.forall_mem_append]
    exact ⟨own, by simp⟩
  · rw [returns, List.filterMap_append, filterMap_cons_none noReturn, List.filterMap_nil,
      List.append_nil]
    exact back

theorem returns_mono (ends : ReturnsWithin m i h k) (more : k ≤ k') : ReturnsWithin m i h k' := by
  obtain ⟨later, final, n, run, short, own, back⟩ := ends
  exact ⟨later, final, n, run, Nat.le_trans short more, own, back⟩

theorem count_returns (fits : m.fits = true) (here : m.calls[i]? = some (.count e))
    (captured : e.captured = some h) :
    ReturnsWithin m i h 2 := by
  have fits' : (m.goto i { m.kernel with nextSockFd := asI32 (m.kernel.nextSockFd + 1) }
      (.publish m.kernel.nextSockFd e)).fits = true := fits_goto fits here rfl (Nat.le_refl _)
  refine returns_later (next_turn here rfl fits') (by simp [returnBy, here]) ?_
  exact publish_returns fits' (goto_same here _ _) captured

theorem pick_returns (fits : m.fits = true) (here : m.calls[i]? = some (.pick e))
    (captured : e.captured = some h) :
    ReturnsWithin m i h 3 := by
  have quiet : returnBy i (m, .turn i) = none := by simp [returnBy, here]
  cases free : m.kernel.recycledFds with
  | nil =>
    have fits' : (m.goto i m.kernel (.count e)).fits = true :=
      fits_goto fits here rfl (Nat.le_refl _)
    have done : m.turn i (.pick e) = some (m.goto i m.kernel (.count e)) := by
      simp [Machine.turn, free]
    exact returns_later (next_turn here done fits') quiet
      (count_returns fits' (goto_same here _ _) captured)
  | cons fd rest =>
    have fits' : (m.goto i { m.kernel with recycledFds := rest } (.publish fd e)).fits = true := by
      refine fits_goto fits here rfl ?_
      simp only [free, Place.underway, List.length_cons, Bool.toNat_true]
      omega
    have done : m.turn i (.pick e) =
        some (m.goto i { m.kernel with recycledFds := rest } (.publish fd e)) := by
      simp [Machine.turn, free]
    exact returns_mono (returns_later (next_turn here done fits') quiet
      (publish_returns fits' (goto_same here _ _) captured)) (by decide)

theorem holding_returns (fits : m.fits = true) (holding : m.holding i = some h) :
    ReturnsWithin m i h 3 := by
  obtain ⟨place, here, holds⟩ := bind_eq_some_iff.mp holding
  cases place with
  | pick => exact pick_returns fits here holds
  | count => exact returns_mono (count_returns fits here holds) (by decide)
  | publish => exact returns_mono (publish_returns fits here holds) (by decide)
  | _ => cases holds

end Ends

def Serves (m : Machine) (fd : Int) : Prop :=
  ∃ sock ∈ m.kernel.sockets, sock.fd = fd ∧ sock.sockType = .tcpListener ∧
    sock.slots.length = listenerPoolSize

def LeavesOpen (fd : Int) : Move → Bool
  | .call (.close fd') => fd' ≠ fd
  | .call c => c.target ≠ some fd
  | _ => true

section Serves
variable {m m' : Machine} {fd : Int}

theorem listened_serves (done : m.kernel.call (.listen fd) = some (kernel, .code 0)) :
    Serves { m with kernel := kernel } fd := by
  obtain ⟨before, sock, after, t, t', pool, found, _, _, made, rfl⟩ := listen_done done
  refine ⟨{ sock with sockType := .tcpListener, backlog := pool.2 },
    List.mem_append_right _ mem_cons_self, (find_split found).2.1, rfl, ?_⟩
  rw [Socket.slots, List.length_cons, made, freshListeners_length]
  rfl

theorem editedAt_serves (serves : Serves m fd) (apart : other ≠ fd)
    (edited : EditedAt other m.kernel kernel) (calls : List Place) : Serves ⟨kernel, calls⟩ fd := by
  obtain ⟨sock, member, number, rest⟩ := serves
  cases edited with
  | same => exact ⟨sock, member, number, rest⟩
  | @one net before after edited edited' split number' =>
    rw [split] at member
    refine ⟨sock, mem_replaced member ?_ edited', number, rest⟩
    rintro rfl
    exact apart (number'.symm.trans number)

theorem scanned_serves (held : Held m leaked) (serves : Serves m fd)
    (done : m.scanned a = some (kernel, r)) (calls : List Place) : Serves ⟨kernel, calls⟩ fd := by
  obtain ⟨sock, member, number, type, size⟩ := serves
  unfold Machine.scanned State.withSocket at done
  split at done
  · cases done
    exact ⟨sock, member, number, type, size⟩
  rename_i before sock₁ after found
  obtain ⟨⟨net', sock₁', r'⟩, inner, same⟩ := map_eq_some_iff.mp done
  cases same
  obtain ⟨split, _, _⟩ := find_split found
  by_cases here : sock₁ = sock
  · subst here
    have balanced := (accounted_balanced split).mp held
    have tcp := slots_tcp balanced (by rw [type]; decide)
    rcases scan_outcome tcp (endpointOf a.addr a.port) with
      ⟨none_, _⟩ | ⟨j, h, t, sock', _, _, _, captured, slots, _, number', type', _⟩
    · rw [none_] at inner
      cases inner
      exact ⟨sock₁, List.mem_append_right _ mem_cons_self, number, type, size⟩
    rw [captured] at inner
    cases inner
    refine ⟨sock₁', List.mem_append_right _ mem_cons_self, number'.trans number,
      type'.trans type, ?_⟩
    rw [slots, List.length_set]
    exact size
  · rw [split] at member
    exact ⟨sock, mem_replaced member (Ne.symm here) sock₁', number, type, size⟩

theorem next_serves (held : Held m leaked) (serves : Serves m fd) (leaves : LeavesOpen fd a = true)
    (taken : m.next a = some m') : Serves m' fd := by
  cases next_progress taken with
  | @inPlace c fd' kernel r target done =>
    refine editedAt_serves serves ?_ (call_editedAt target done) m.calls
    rintro rfl
    cases c with
    | socket domain sockType | accept fd' flags | close fd' => cases target
    | _ => exact absurd target (of_decide_eq_true leaves)
  | ended none_ | created kind | called a | reused here free | none_free here empty | counted here
  | recycled here | released here done => exact serves
  | @removed fd' before after sock' found =>
    have apart : fd' ≠ fd := of_decide_eq_true leaves
    obtain ⟨sock, member, number, rest⟩ := serves
    obtain ⟨split, number', _⟩ := find_split found
    rw [split] at member
    refine ⟨sock, mem_removed member ?_, number, rest⟩
    rintro rfl
    exact apart (number'.symm.trans number)
  | polled here done =>
    obtain ⟨net, same⟩ := poll_net done
    subst same
    exact serves
  | captured here done | missed here done => exact scanned_serves held serves done _
  | published =>
    obtain ⟨sock, member, rest⟩ := serves
    exact ⟨sock, List.mem_append_left _ member, rest⟩
  | event isEvent other noCall done =>
    obtain ⟨net, same⟩ := event_net isEvent done
    subst same
    exact serves

end Serves

section Distinct
variable {m : Machine} {leaked : Owned}

omit [Stack] in
theorem slots_owns (sock : Socket) : sock.owns.map Prod.fst = sock.slots := by
  simp [Socket.owns, Socket.slots, tcpHandles, Function.comp_def]

theorem captured_sublist (m : Machine) : m.captured.Sublist (m.inHands.map Prod.fst) := by
  have made : ∀ e : Fresh, e.captured.toList.Sublist [e.handle] := by
    intro e
    cases e with
    | created => exact List.nil_sublist _
    | accepted => exact .refl _
  have each : ∀ place : Place, place.holds.toList.Sublist (place.owns.map Prod.fst) := by
    intro place
    cases place with
    | pick e | count e | publish fd e => exact made e
    | _ => exact List.nil_sublist _
  unfold Machine.captured Machine.inHands
  induction m.calls with
  | nil => exact List.Sublist.slnil
  | cons place rest ih =>
    rw [flatMap_cons, flatMap_cons, map_append]
    exact (each place).append ih

theorem held_distinct (held : Held m leaked) :
    ((m.kernel.sockets.flatMap Socket.owns).map Prod.fst ++ m.inHands.map Prod.fst).Nodup := by
  have distinct : (m.kernel.net.kinds.map Prod.fst).Nodup := by
    rw [handles_kinds]
    exact items_nodup m.kernel.net.set
  have all := (held.map Prod.fst).nodup_iff.mp distinct
  rw [← map_append]
  refine all.sublist (List.Sublist.map _ ?_)
  exact (List.sublist_append_left _ _).append (List.sublist_append_left _ _)

theorem found_of_mem (member : sock ∈ s.sockets) (distinct : (s.sockets.map Socket.fd).Nodup) :
    ∃ before after, s.find sock.fd = some (before, sock, after) := by
  obtain ⟨before, after, split⟩ := List.append_of_mem member
  refine ⟨before, after, ?_⟩
  rw [State.find, split]
  refine focus_append (decide_eq_true rfl) ?_
  intro other early same
  rw [split, map_append, nodup_append] at distinct
  refine distinct.2.2 other.fd (mem_map.mpr ⟨other, early, rfl⟩) sock.fd ?_
    (of_decide_eq_true same)
  exact mem_map.mpr ⟨sock, mem_cons_self, rfl⟩

theorem pool_distinct (held : Held m leaked) (split : m.kernel.sockets = before ++ sock :: after) :
    (sock.slots ++ m.captured).Nodup ∧
      ∀ other ∈ before ++ after, ∀ h ∈ other.slots, h ∉ sock.slots := by
  have distinct := held_distinct held
  have perm : m.kernel.sockets.Perm (sock :: (before ++ after)) := by
    rw [split]
    exact List.perm_middle
  have handles : ((m.kernel.sockets.flatMap Socket.owns).map Prod.fst).Perm
      (sock.slots ++ ((before ++ after).flatMap Socket.owns).map Prod.fst) := by
    rw [← slots_owns, ← map_append]
    exact (perm.flatMap_right Socket.owns).map _
  have all := (handles.append_right _).nodup_iff.mp distinct
  rw [List.append_assoc] at all
  constructor
  · refine all.sublist ((List.Sublist.refl _).append ?_)
    exact (captured_sublist m).trans (List.sublist_append_right _ _)
  intro other member h slot inPool
  refine (nodup_append.mp all).2.2 h inPool h (List.mem_append_left _ ?_) rfl
  rw [List.map_flatMap, List.mem_flatMap]
  refine ⟨other, member, ?_⟩
  rw [slots_owns]
  exact slot

end Distinct

theorem returnBy_some (back : returnBy i (w, a) = some (h, n)) :
    a = .turn i ∧ ∃ e, w.calls[i]? = some (.publish n e) ∧ e.captured = some h := by
  cases a with
  | turn =>
    simp only [returnBy] at back
    split at back
    · rename_i own
      subst own
      split at back
      · rename_i fd e here
        obtain ⟨h', captured, same⟩ := map_eq_some_iff.mp back
        cases same
        exact ⟨rfl, e, here, captured⟩
      · cases back
    · cases back
  | _ => cases back

theorem returned_fresh (exact_ : Exact sockFdBase w.pool) (back : returnBy i (w, a) = some (h, n))
    (taken : w.next a = some w') :
    n ∉ w.live ∧ ∃ before sock after, w'.kernel.find n = some (before, sock, after) ∧
      sock.sockType = .tcpStream ∧ sock.handle = h := by
  obtain ⟨own, e, here, captured⟩ := returnBy_some back
  subst own
  have unused : n ∉ w.live := by
    intro live_
    obtain ⟨rest, _, transit, _⟩ := Machine.goto_numbers here
    have inHand : n ∈ w.transit := transit.mem_iff.mpr mem_cons_self
    have apart := (nodup_append.mp (exact_nodup exact_)).1
    exact (nodup_append.mp apart).2.2 n live_ n inHand rfl
  obtain ⟨moved, _⟩ := filter_eq_some_iff.mp taken
  simp only [Machine.move, here, Machine.turn] at moved
  cases moved
  refine ⟨unused, w.kernel.sockets, e.socket n w.kernel.born, [], ?_, ?_⟩
  · refine focus_append (decide_eq_true (e.socket_fd n _)) ?_
    intro other member same
    exact unused (mem_map.mpr ⟨other, member, of_decide_eq_true same⟩)
  · cases e with
    | created => cases captured
    | accepted =>
      exact ⟨rfl, Option.some.inj captured⟩

structure Delivering (fd : Int) (past : List (Machine × Move)) (m : Machine) : Prop where
  listener : ∃ before sock after, m.kernel.find fd = some (before, sock, after) ∧
    sock.sockType = .tcpListener ∧ sock.slots.length = listenerPoolSize ∧
    (sock.slots ++ m.captured).Nodup ∧
    ∀ other ∈ before ++ after, ∀ h ∈ other.slots, h ∉ sock.slots
  once : ∀ i, captures i past = (m.holding i).toList ++ (returns i past).map Prod.fst ∧
    (captures i past).length ≤ 1
  ends : ∀ i h, m.holding i = some h → ReturnsWithin m i h 3
  fresh : ∀ e ∈ past, ∀ i h n, returnBy i e = some (h, n) → n ∉ e.1.live ∧
    ∃ m' before sock after, e.1.next e.2 = some m' ∧ m'.kernel.find n = some (before, sock, after) ∧
      sock.sockType = .tcpStream ∧ sock.handle = h

/-- From a listen that has succeeded on, as long as nobody closes the listener or works on its
    entry, for every interleaving of the calls of all threads with arrivals and polls: the pool of
    the listener has 64 different handles, and none that a call has captured or that another
    socket has. Every call of accept has returned what it has captured, or holds it and returns it
    in three turns of its own at the most, and that is one connection at the most. It is returned
    as the stream of a number that was not live. -/
theorem accept_delivers_once (setup : Setup) (fd : Int) (earlier later : List (Machine × Move))
    (w m : Machine)
    (run : Run Machine.next (Machine.start setup) (later ++ (w, .call (.listen fd)) :: earlier) m)
    (listened : (w.kernel.call (.listen fd)).map Prod.snd = some (.code 0))
    (leaves : ∀ e ∈ later, LeavesOpen fd e.2 = true) :
    Delivering fd (later ++ (w, .call (.listen fd)) :: earlier) m := by
  obtain ⟨mid, before, taken, after⟩ := run_at run
  have serving : Serves mid fd := by
    obtain ⟨moved, _⟩ := filter_eq_some_iff.mp taken
    obtain ⟨⟨kernel, r⟩, done, same⟩ := map_eq_some_iff.mp moved
    obtain ⟨⟨kernel', r'⟩, done', zero⟩ := map_eq_some_iff.mp listened
    have answers := done.symm.trans done'
    cases answers
    cases zero
    subst same
    exact listened_serves done
  have start : (∃ leaked, Held mid leaked) ∧ Serves mid fd :=
    ⟨run_held (.snoc before taken), serving⟩
  obtain ⟨⟨leaked, held⟩, serves⟩ := run_invariant_of (fun _ a => LeavesOpen fd a = true)
    (fun m => (∃ leaked, Held m leaked) ∧ Serves m fd) start
    (fun _ _ _ ⟨⟨_, held⟩, serves⟩ ok taken =>
      ⟨next_held held taken, next_serves held serves ok taken⟩) after leaves
  have numbers := (run_numbers run).1
  refine ⟨?_, ?_, ?_, ?_⟩
  · obtain ⟨sock, member, number, type, size⟩ := serves
    have distinct : (m.kernel.sockets.map Socket.fd).Nodup :=
      (nodup_append.mp (nodup_append.mp (exact_nodup numbers)).1).1
    obtain ⟨front, back, found⟩ := found_of_mem member distinct
    rw [number] at found
    exact ⟨front, sock, back, found, type, size, pool_distinct held (find_split found).1⟩
  · intro i
    exact ⟨(run_told run i).balance, (run_told run i).once⟩
  · intro i h holding
    exact holding_returns (run_fits run) holding
  · intro e member i h n back
    obtain ⟨later', earlier', split⟩ := List.append_of_mem member
    rw [split] at run
    obtain ⟨mid', before', taken', _⟩ := run_at run
    obtain ⟨unused, front, sock, rest, found, type, handle⟩ :=
      returned_fresh (run_numbers before').1 back taken'
    exact ⟨unused, mid', front, sock, rest, taken', found, type, handle⟩

end

def serverSteps : List Move :=
  [.call (.socket 2 1), .turn 0, .turn 0, .turn 0, .call (.bind 500 service)]

def racing : List Move :=
  [.call (.accept 500 0), .call (.accept 500 0), .tcp 0 (.syn ⟨1, 4000⟩), .tcp 0 .ack, .turn 1,
    .turn 2, .turn 1, .turn 2, .turn 1, .tcp 5 (.syn ⟨2, 4000⟩), .tcp 5 .ack, .poll, .turn 2,
    .turn 2, .turn 1, .turn 2, .turn 1]

theorem accept_delivers_two : ∃ past m, Run Machine.next (Machine.start .fixed) past m ∧
    (m.live = [500, 501] ∧ m.holding 2 = some 5) ∧ Delivering 500 past m := by
  obtain ⟨later, w, earlier, m, run, listened, _, leaves, ends⟩ :=
    run_through (fun _ _ => true) (fun _ a => LeavesOpen 500 a) Machine.next
      (Machine.start .fixed) serverSteps (.call (.listen 500)) racing
      (fun w => (w.kernel.call (.listen 500)).map Prod.snd = some (.code 0))
      (fun m => m.live = [500, 501] ∧ m.holding 2 = some 5) (by decide +kernel)
  exact ⟨_, m, run, of_decide_eq_true ends, accept_delivers_once .fixed 500 earlier later w m run
    (of_decide_eq_true listened) leaves⟩

end TynKernel.Net
