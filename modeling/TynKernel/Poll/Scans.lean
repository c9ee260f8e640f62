import TynKernel.Net.Table
import TynKernel.Poll.Readiness

/-!
The scans of epoll_wait and ppoll. A turn of a scan may end a connect and so changes the
socket it asks about; the events of the other descriptors are not changed by it.
-/
namespace TynKernel.Poll
open List Runs

structure EpollEntry where
  fd : Int
  data : BitVec 64
  events : BitVec 32
  deriving DecidableEq, Repr

section
variable [Net.Stack]

namespace Kernel

def ppollScan : Kernel → List (Int × BitVec 16) → Option (Kernel × List (BitVec 16))
  | k, [] => some (k, [])
  | k, pfd :: rest =>
    (k.ppollRevents pfd.1 pfd.2).bind fun r =>
      (ppollScan r.1 rest).map fun later => (later.1, r.2 :: later.2)

end Kernel

structure Untouched (k k' : Kernel) (fd : Int) : Prop where
  input : ∀ other, k'.input other = k.input other
  ready : ∀ other, other ≠ fd → k'.ready other = k.ready other

theorem untouched_refl (k : Kernel) (fd : Int) : Untouched k k fd :=
  ⟨fun _ => rfl, fun _ _ => rfl⟩

theorem pollSocket_others {s s' : Net.State} {fd : Int} {room : Bool} {r : Net.Reply}
    (done : s.call (.pollSocket fd room) = some (s', r)) :
    s'.net = s.net ∧ ∀ other, other ≠ fd →
      s'.sockets.find? (fun sock => sock.fd = other) =
        s.sockets.find? (fun sock => sock.fd = other) := by
  rw [Net.State.call, Net.State.withSocket] at done
  cases found : s.find fd with
  | none =>
    rw [found] at done
    cases done
    exact ⟨rfl, fun _ _ => rfl⟩
  | some parts =>
    obtain ⟨before, sock, after⟩ := parts
    rw [found] at done
    obtain ⟨⟨net', sock', r'⟩, inner, same⟩ := Option.map_eq_some_iff.mp done
    cases same
    obtain ⟨split, number, _⟩ := Net.find_split found
    have kept := (Net.pollSocket_stable room _ _ _ _ _ inner).fd
    refine ⟨pollSocket_net inner, fun other apart => ?_⟩
    have first : decide (sock.fd = other) = false := by
      rw [decide_eq_false_iff_not, number]
      exact apart.symm
    have second : decide (sock'.fd = other) = false := by
      rw [decide_eq_false_iff_not, kept, number]
      exact apart.symm
    simp only [split, find?_append, find?_cons, first, second]

theorem pollSocket_untouched {k k' : Kernel} {fd : Int} {events : BitVec 16}
    (done : k.pollSocket fd = some (k', events)) : Untouched k k' fd := by
  obtain ⟨⟨s', r⟩, call, same⟩ := Option.map_eq_some_iff.mp done
  cases same
  obtain ⟨net, others⟩ := pollSocket_others call
  refine ⟨fun _ => rfl, fun other apart => ?_⟩
  have reply : (s'.call (.pollSocket other (k.room other))).map Prod.snd =
      (k.net.call (.pollSocket other (k.room other))).map Prod.snd := by
    rw [pollSocket_reply, pollSocket_reply, others other apart, net]
  have masked := congrArg (Option.map mask) reply
  rw [Option.map_map, Option.map_map] at masked
  have socket : (Kernel.pollSocket { k with net := s' } other).map Prod.snd =
      (k.pollSocket other).map Prod.snd := by
    rw [Kernel.pollSocket, Kernel.pollSocket, Option.map_map, Option.map_map]
    exact masked
  unfold Kernel.ready
  rw [socket]
  rfl

theorem ppollRevents_untouched {k k' : Kernel} {fd : Int} {events r : BitVec 16}
    (done : k.ppollRevents fd events = some (k', r)) : Untouched k k' fd := by
  unfold Kernel.ppollRevents at done
  split at done
  · cases done
    exact untouched_refl k fd
  split at done
  · cases done
    exact untouched_refl k fd
  split at done
  · cases done
    exact untouched_refl k fd
  split at done
  · cases done
    exact untouched_refl k fd
  split at done
  · obtain ⟨⟨k'', r'⟩, polled, same⟩ := Option.map_eq_some_iff.mp done
    cases same
    exact pollSocket_untouched polled
  · cases done
    exact untouched_refl k fd

/-- ppoll computes for each number what is ready and in the mask, if no number comes twice. -/
theorem ppollScan_eq (once : (pfds.map Prod.fst).Nodup) {k : Kernel} (reached : k.Reached) :
    ∃ k', k.ppollScan pfds = some (k', pfds.map fun pfd => k.ready pfd.1 &&& pfd.2) := by
  induction pfds generalizing k with
  | nil => exact ⟨k, rfl⟩
  | cons pfd rest ih =>
    rw [map_cons, nodup_cons] at once
    obtain ⟨k', turn, reached'⟩ := ppollRevents_eq reached pfd.1 pfd.2
    have untouched := ppollRevents_untouched turn
    obtain ⟨k'', done⟩ := ih once.2 reached'
    refine ⟨k'', ?_⟩
    rw [Kernel.ppollScan, turn, Option.bind_some, done, Option.map_some, map_cons]
    have same : rest.map (fun pfd => k'.ready pfd.1 &&& pfd.2) =
        rest.map (fun pfd => k.ready pfd.1 &&& pfd.2) := by
      refine map_congr_left fun x member => ?_
      rw [untouched.ready x.1 fun eq => once.1 (eq ▸ mem_map.mpr ⟨x, member, rfl⟩)]
    rw [same]

end

theorem ppollScan_fresh : ∃ k k' : Kernel, k.Reached ∧
    k.ppollScan [(0, pollIn), (500, pollHup)] = some (k', [pollIn, pollHup]) := by
  obtain ⟨net, reached, ready⟩ := fresh_reached
  have once : ([((0 : Int), pollIn), (500, pollHup)].map Prod.fst).Nodup := by decide
  obtain ⟨k', done⟩ := ppollScan_eq once reached
  have serial : (fresh net).ready 0 = pollIn := rfl
  simp only [map_cons, map_nil, serial, ready, BitVec.and_self] at done
  exact ⟨fresh net, k', reached, done⟩

end TynKernel.Poll
