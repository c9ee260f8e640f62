import TynKernel.Lib.Freelist
import TynKernel.Net.Threads

/-!
The numbers of the sockets. Each is in the table, on the list of recycled numbers, or in the
hands of a call.
-/
namespace TynKernel.Net
open Freelists Numbers Rows Runs
open Sockets (SockType sockFdBase)

def Place.numbers : Place → List Int
  | .publish fd _ => [fd]
  | .recycle sock => [sock.fd]
  | _ => []

def Place.counts : Place → Bool
  | .count _ => true
  | _ => false

section
variable [Stack] {place : Place} {i : Nat} {fd : Int} {a : Move}

namespace Machine

def live (m : Machine) : List Int := m.kernel.sockets.map Socket.fd

def transit (m : Machine) : List Int := m.calls.flatMap Place.numbers

def allocating (m : Machine) : Nat := m.calls.countP Place.counts

def load (m : Machine) : Nat := m.live.length + m.transit.length + m.allocating

def pool (m : Machine) : Freelists.Pool :=
  ⟨m.kernel.nextSockFd, m.kernel.recycledFds, m.live ++ m.transit, m.allocating⟩

theorem pool_load (m : Machine) : m.pool.load = m.load := by
  rw [Pool.load, pool, load, List.length_append]

section Calls
variable {m : Machine} {kernel : State}

theorem begin_transit (place : Place) :
    (m.begin kernel place).transit = m.transit ++ place.numbers := by
  simp [transit, begin]

theorem begin_allocating (other : place.counts = false) :
    (m.begin kernel place).allocating = m.allocating := by
  simp [allocating, begin, List.countP_append, other]

theorem goto_numbers (here : m.calls[i]? = some place) :
    ∃ rest n, m.transit.Perm (place.numbers ++ rest) ∧ m.allocating = n + place.counts.toNat ∧
      ∀ kernel place', (m.goto i kernel place').transit.Perm (place'.numbers ++ rest) ∧
        (m.goto i kernel place').allocating = n + place'.counts.toNat := by
  obtain ⟨others, before, after⟩ := set_exchange here
  have counted : ∀ (calls : List Place) (place : Place), calls.Perm (place :: others) →
      calls.countP Place.counts = others.countP Place.counts + place.counts.toNat := by
    intro calls place perm
    rw [perm.countP_eq, List.countP_cons]
    cases place.counts <;> rfl
  refine ⟨others.flatMap Place.numbers, others.countP Place.counts,
    before.flatMap_right _, counted _ _ before, ?_⟩
  intro kernel place'
  exact ⟨(after place').flatMap_right _, counted _ _ (after place')⟩

end Calls

theorem transit_le (m : Machine) : m.transit.length ≤ m.calls.countP Place.underway := by
  have each : ∀ calls : List Place,
      (calls.flatMap Place.numbers).length ≤ calls.countP Place.underway := by
    intro calls
    induction calls with
    | nil => exact Nat.le_refl _
    | cons place =>
      rw [List.flatMap_cons, List.length_append, List.countP_cons]
      cases place with
      | publish fd e | recycle sock =>
        simp only [Place.numbers, Place.underway, List.length_singleton, if_true]
        omega
      | _ =>
        simp only [Place.numbers, List.length_nil]
        omega
  exact each m.calls

theorem counter_small {m : Machine} (exact_ : Exact sockFdBase m.pool) (fits : m.fits = true) :
    asI32 (m.kernel.nextSockFd + 1) = m.kernel.nextSockFd + 1 := by
  have size := exact_size exact_
  have started := exact_.started
  have room : 4 * (m.kernel.sockets.length + m.kernel.recycledFds.length +
      m.calls.countP Place.underway) ≤ 2 ^ 32 := of_decide_eq_true fits
  have few := m.transit_le
  simp only [pool, live, List.length_append, List.length_map, sockFdBase] at size started
  apply asI32_of_lt <;> omega

end Machine

section Step
variable {m m' : Machine}

theorem editedAt_live (edited : EditedAt fd s s') :
    s'.sockets.map Socket.fd = s.sockets.map Socket.fd ∧ s'.nextSockFd = s.nextSockFd ∧
      s'.recycledFds = s.recycledFds := by
  cases edited with
  | same => exact ⟨rfl, rfl, rfl⟩
  | one net split number kept =>
    refine ⟨?_, rfl, rfl⟩
    simp [split, kept.fd]

theorem scanned_editedAt {a : Accept} {kernel : State}
    {r : Option (Nat × Option IpEndpoint)} (done : m.scanned a = some (kernel, r)) :
    EditedAt a.fd m.kernel kernel := by
  have unpolled : State.withSocket { m.kernel with net := m.kernel.net } a.fd none
      (Socket.scan (endpointOf a.addr a.port)) = some (kernel, r) := done
  exact withSocket_editedAt (scan_stable _) unpolled

open Machine in
theorem quiet_turn {i : Nat} {place place' : Place} {kernel : State}
    (here : m.calls[i]? = some place) (numbers : place.numbers = place'.numbers)
    (counts : place.counts = place'.counts)
    (same : kernel.sockets.map Socket.fd = m.kernel.sockets.map Socket.fd ∧
      kernel.nextSockFd = m.kernel.nextSockFd ∧ kernel.recycledFds = m.kernel.recycledFds) :
    Freelists.Step m.pool (m.goto i kernel place').pool := by
  obtain ⟨rest, n, before, waiting, after⟩ := goto_numbers here
  obtain ⟨transit, waiting'⟩ := after kernel place'
  rw [numbers] at before
  rw [counts] at waiting
  obtain ⟨live_, next, free⟩ := same
  refine .keep next free ?_ (waiting'.trans waiting.symm)
  exact (List.Perm.of_eq live_).append (transit.trans before.symm)

open Machine in
theorem quiet_begin (numbers : place.numbers = []) (counts : place.counts = false) :
    Freelists.Step m.pool (m.begin { m.kernel with net := net } place).pool := by
  refine .keep rfl rfl ?_ (begin_allocating counts)
  simp only [pool, begin_transit, numbers, List.append_nil]
  exact .refl _

open Machine in
theorem removed_pool (found : m.kernel.find fd = some (before, sock, after)) : Freelists.Step m.pool
      (m.begin { m.kernel with sockets := before ++ after } (.recycle sock)).pool := by
  refine .keep rfl rfl ?_ (begin_allocating rfl)
  have live_ : m.live = before.map Socket.fd ++ sock.fd :: after.map Socket.fd := by
    rw [live, (find_split found).1, List.map_append, List.map_cons]
  have live' : live (m.begin { m.kernel with sockets := before ++ after } (.recycle sock)) =
      before.map Socket.fd ++ after.map Socket.fd := List.map_append
  simp only [pool, begin_transit, live_, live', Place.numbers]
  rw [List.perm_iff_count]
  intro n
  simp only [List.count_append, List.count_cons, List.count_nil]
  omega

open Machine in
theorem published_pool (here : m.calls[i]? = some (.publish fd e)) :
    Freelists.Step m.pool
      (m.goto i (publish m.kernel fd e) (.returned (e.reply fd))).pool := by
  obtain ⟨others, n, before, waiting, after⟩ := goto_numbers here
  obtain ⟨transit, waiting'⟩ := after (publish m.kernel fd e) (.returned (e.reply fd))
  refine .keep rfl rfl ?_ (waiting'.trans waiting.symm)
  have live_ : live (m.goto i (publish m.kernel fd e) (.returned (e.reply fd))) =
      m.live ++ [fd] := by
    simp only [live, goto, publish, List.map_append, List.map_singleton, Fresh.socket_fd]
  simp only [pool]
  rw [live_, List.append_assoc]
  exact ((transit.cons fd).trans before.symm).append_left _

open Machine in
theorem next_pool (fits : m.fits = true) (exact_ : Exact sockFdBase m.pool)
    (taken : m.next a = some m') : Freelists.Step m.pool m'.pool := by
  have idle : ∀ kernel : State, kernel.sockets.map Socket.fd = m.kernel.sockets.map Socket.fd ∧
      kernel.nextSockFd = m.kernel.nextSockFd ∧ kernel.recycledFds = m.kernel.recycledFds →
      Freelists.Step m.pool (pool { m with kernel := kernel }) := by
    rintro kernel ⟨live_, next, free⟩
    exact .keep next free ((List.Perm.of_eq live_).append_right _) rfl
  cases next_progress taken with
  | inPlace target done => exact idle _ (editedAt_live (call_editedAt target done))
  | ended => exact idle m.kernel ⟨rfl, rfl, rfl⟩
  | created kind | called a => exact quiet_begin rfl rfl
  | removed found => exact removed_pool found
  | polled here done =>
    obtain ⟨net, same⟩ := poll_net done
    subst same
    exact quiet_turn here rfl rfl ⟨rfl, rfl, rfl⟩
  | captured here done =>
    exact quiet_turn here rfl rfl (editedAt_live (scanned_editedAt done))
  | missed here done =>
    refine quiet_turn here ?_ ?_ (editedAt_live (scanned_editedAt done))
    · split <;> rfl
    · split <;> rfl
  | @reused i e fd rest here free =>
    obtain ⟨others, n, before, waiting, after⟩ := goto_numbers here
    obtain ⟨transit, waiting'⟩ := after { m.kernel with recycledFds := rest } (.publish fd e)
    refine .reuse fd rfl free ?_ (waiting'.trans waiting.symm)
    exact (transit.trans (before.symm.cons fd)).append_left _ |>.trans List.perm_middle
  | none_free here empty =>
    obtain ⟨others, n, before, waiting, after⟩ := goto_numbers here
    obtain ⟨transit, waiting'⟩ := after m.kernel (.count _)
    refine .miss rfl empty rfl ((transit.trans before.symm).append_left _) ?_
    exact waiting'.trans (congrArg (· + 1) waiting.symm)
  | @counted i e here =>
    obtain ⟨others, n, before, waiting, after⟩ := goto_numbers here
    obtain ⟨transit, waiting'⟩ := after
      { m.kernel with nextSockFd := asI32 (m.kernel.nextSockFd + 1) }
      (.publish m.kernel.nextSockFd e)
    refine .count (counter_small exact_ fits) rfl ?_ ?_
    · exact (transit.trans (before.symm.cons _)).append_left _ |>.trans List.perm_middle
    · exact waiting.trans (congrArg (· + 1) waiting'.symm)
  | published here => exact published_pool here
  | @recycled i sock here =>
    obtain ⟨others, n, before, waiting, after⟩ := goto_numbers here
    obtain ⟨transit, waiting'⟩ := after
      { m.kernel with recycledFds := sock.fd :: m.kernel.recycledFds } (.release sock)
    refine .give sock.fd rfl rfl ?_ (waiting'.trans waiting.symm)
    exact (before.trans (transit.symm.cons _)).append_left _ |>.trans List.perm_middle
  | released here => exact quiet_turn here rfl rfl ⟨rfl, rfl, rfl⟩
  | event isEvent other noCall done =>
    obtain ⟨net, same⟩ := event_net isEvent done
    subst same
    exact idle _ ⟨rfl, rfl, rfl⟩

end Step

/-- The number that alloc_fd returns in a step: the last one given back, or the next one of the
    counter for a call that has found none. -/
def handsOut (e : Machine × Move) : Option Int :=
  match e.2 with
  | .turn i =>
    match e.1.calls[i]? with
    | some (.pick _) => e.1.kernel.recycledFds.head?
    | some (.count _) => some e.1.kernel.nextSockFd
    | _ => none
  | _ => none

section Runs
variable {setup : Setup} {past : List (Machine × Move)} {m : Machine}

theorem start_fits (setup : Setup) : (Machine.start setup).fits = true := by
  cases setup <;> rfl

theorem run_fits (run : Run Machine.next (Machine.start setup) past m) : m.fits = true := by
  cases run with
  | nil => exact start_fits setup
  | snoc before taken => exact next_fits taken

theorem start_exact (setup : Setup) : Exact sockFdBase (Machine.start setup).pool := by
  cases setup <;> exact ⟨Int.le_refl _, .refl _⟩

theorem run_numbers (run : Run Machine.next (Machine.start setup) past m) :
    Exact sockFdBase m.pool ∧
      m.kernel.nextSockFd - sockFdBase + m.allocating ≤ peak Machine.load past m := by
  have loads : (fun m : Machine => m.pool.load) = Machine.load := funext Machine.pool_load
  have result := run_exact Machine.pool (fun m => m.fits = true) (start_exact setup)
    (by cases setup <;> exact ⟨rfl, rfl⟩) (start_fits setup) (fun _ _ _ taken => next_fits taken)
    (fun _ _ _ fits exact_ taken => next_pool fits exact_ taken) run
  rw [loads] at result
  exact result

theorem handsOut_spec (exact_ : Exact sockFdBase w.pool) (given : handsOut (w, a) = some fd)
    (taken : w.next a = some w') : fd ∉ w.live ++ w.transit ∧ fd ∈ w'.transit := by
  have held : ∀ {i place} kernel e, w.calls[i]? = some place →
      fd ∈ Machine.transit (w.goto i kernel (.publish fd e)) := by
    intro i place kernel e here
    obtain ⟨_, _, _, _, after⟩ := Machine.goto_numbers here
    exact (after kernel (.publish fd e)).1.mem_iff.mpr List.mem_cons_self
  cases next_progress taken with
  | reused here free =>
    simp only [handsOut, here, free, List.head?_cons, Option.some.injEq] at given
    subst given
    refine ⟨?_, held _ _ here⟩
    intro inside
    have apart := (List.nodup_append.mp (exact_nodup exact_)).2.2 _ inside
    refine apart _ ?_ rfl
    simp only [Machine.pool, free]
    exact List.mem_cons_self
  | counted here =>
    simp only [handsOut, here, Option.some.injEq] at given
    subst given
    refine ⟨?_, held _ _ here⟩
    intro inside
    have below := ((exact_mem exact_).mp (List.mem_append_left _ inside)).2
    exact absurd below (Int.lt_irrefl _)
  | none_free here empty =>
    simp only [handsOut, here, empty, List.head?_nil] at given
    cases given
  | polled here | captured here | missed here | published here | recycled here | released here =>
    simp [handsOut, here] at given
  | inPlace target done | ended none_ | created kind | called a | removed found => cases given
  | event isEvent other =>
    cases a with
    | turn i => exact absurd rfl (other i)
    | _ => cases given

end Runs

structure Numbering (past : List (Machine × Move)) (m : Machine) : Prop where
  distinct : (m.live ++ m.transit ++ m.kernel.recycledFds).Nodup
  exact_ : ∀ n, n ∈ m.live ++ m.transit ++ m.kernel.recycledFds ↔
    sockFdBase ≤ n ∧ n < m.kernel.nextSockFd
  unused : ∀ e ∈ past, ∀ fd, handsOut e = some fd → fd ∉ e.1.live ++ e.1.transit
  bounded : ∀ e ∈ past, ∀ fd, handsOut e = some fd → fd < sockFdBase + peak Machine.load past m

/-- In every run of socket, accept, close and all other calls of any threads: the numbers in the
    table, in transit and on the freelist are different and are exactly those from 500 on below
    the counter. alloc_fd never returns a number that is live or in transit, and all numbers it
    returns are below 500 and the peak of the descriptors that are live, in transit or being
    allocated at one time. -/
theorem descriptors_numbered (setup : Setup) (past : List (Machine × Move)) (m : Machine)
    (run : Run Machine.next (Machine.start setup) past m) : Numbering past m := by
  have numbers := (run_numbers run).1
  refine ⟨exact_nodup numbers, fun n => exact_mem numbers, ?_, ?_⟩
  · intro e member fd given
    obtain ⟨later, earlier, split⟩ := List.append_of_mem member
    subst split
    obtain ⟨mid, before, taken, _⟩ := run_at run
    exact (handsOut_spec (run_numbers before).1 given taken).1
  · -- the number is below the counter after the step, and the peak does not fall any more
    intro e member fd given
    obtain ⟨later, earlier, split⟩ := List.append_of_mem member
    subst split
    obtain ⟨mid, before, taken, after⟩ := run_at run
    have onward : Run Machine.next (Machine.start setup) (e :: earlier) mid :=
      .snoc before taken
    obtain ⟨numbers', bound⟩ := run_numbers onward
    have held := (handsOut_spec (run_numbers before).1 given taken).2
    have below := ((exact_mem numbers').mp
      (List.mem_append_left _ (List.mem_append_right _ held))).2
    have grows := peak_mono Machine.load after (e :: earlier)
    simp only [Machine.pool] at below
    omega

end

def crossing : List Move :=
  [.call (.socket 2 1), .call (.socket 2 2), .turn 0, .turn 1, .turn 1, .turn 0, .turn 0, .turn 1,
    .call (.close 501), .turn 2, .call (.socket 2 1), .turn 3, .turn 2, .call (.close 501),
    .call (.close 499), .turn 3]

theorem descriptors_numbered_crossing : ∃ past m, Run Machine.next (Machine.start .fixed) past m ∧
    m.live = [500, 501] ∧ m.kernel.nextSockFd = 502 ∧ Numbering past m := by
  obtain ⟨past, m, run, _, test⟩ := run_of_exec (fun _ _ => true) Machine.next
    (Machine.start .fixed) crossing (fun m => m.live = [500, 501] ∧ m.kernel.nextSockFd = 502)
    (by decide)
  obtain ⟨live_, counter⟩ := of_decide_eq_true test
  exact ⟨past, m, run, live_, counter, descriptors_numbered .fixed past m run⟩

end TynKernel.Net
