import TynKernel.Net.Handles
import TynKernel.Pipes.Ring

/-!
What epoll_wait and ppoll report for one descriptor: the serial line, the timer, the ends of
pipes and the sockets.
-/
namespace TynKernel.Poll
open Option Runs

def pollIn : BitVec 16 := 0x001
def pollOut : BitVec 16 := 0x004
def pollErr : BitVec 16 := 0x008
def pollHup : BitVec 16 := 0x010

def epollIn : BitVec 32 := 0x001
def epollErr : BitVec 32 := 0x008
def epollHup : BitVec 32 := 0x010

/-- All that readiness depends on, with the room of datagram sockets by their numbers. -/
structure Kernel [Net.Stack] where
  net : Net.State
  room : Int → Bool
  pipes : Pipes.State
  stdin : Bool
  timerfd : Nat
  now : Nat

def mask : Net.Reply → BitVec 16
  | .events isIn isOut isErr isHup =>
    (if isIn then pollIn else 0#16) ||| (if isOut then pollOut else 0#16) |||
      ((if isErr then pollErr else 0#16) ||| (if isHup then pollHup else 0#16))
  | _ => 0#16

theorem in_and (events : BitVec 16) :
    pollIn &&& events = if events &&& pollIn ≠ 0#16 then pollIn else 0#16 := by
  have bit : (events &&& pollIn).toNat = events.toNat % 2 := by
    exact Nat.and_one_is_mod _
  rw [BitVec.and_comm]
  split
  · rename_i some_
    have : (events &&& pollIn).toNat ≠ 0 := fun zero => some_ (BitVec.eq_of_toNat_eq zero)
    exact BitVec.eq_of_toNat_eq (by rw [bit]; change _ = 1; omega)
  · rename_i zero
    exact not_not.mp zero

theorem input_and (has : Bool) (events : BitVec 16) :
    (if events &&& pollIn ≠ 0#16 ∧ has = true then pollIn else 0#16) =
      (if has then pollIn else 0#16) &&& events := by
  cases has with
  | true => simp only [and_true, if_true, in_and]
  | false => simp

namespace Kernel
variable [Net.Stack]

def timerfdReady (k : Kernel) : Bool := k.timerfd ≠ 0 && k.timerfd ≤ k.now

def pollSocket (k : Kernel) (fd : Int) : Option (Kernel × BitVec 16) :=
  (k.net.call (.pollSocket fd (k.room fd))).map fun r => ({ k with net := r.1 }, mask r.2)

def epollRevents (k : Kernel) (fd : Int) (events : BitVec 32) : Option (Kernel × BitVec 32) :=
  if fd < 0 then some (k, 0#32)
  else if fd = 51 then some (k, if k.timerfdReady then epollIn else 0#32)
  else if fd = 0 then some (k, if k.stdin then epollIn else 0#32)
  else if k.pipes.isPipeFd fd then some (k, if k.pipes.hasData fd then epollIn else 0#32)
  else if k.net.isSocketFd fd then
    (k.pollSocket fd).map fun r => (r.1, r.2.setWidth 32 &&& (events ||| epollErr ||| epollHup))
  else some (k, 0#32)

def ppollRevents (k : Kernel) (fd : Int) (events : BitVec 16) : Option (Kernel × BitVec 16) :=
  if events = 0#16 then some (k, 0#16)
  else if fd = 0 then some (k, if events &&& pollIn ≠ 0#16 ∧ k.stdin then pollIn else 0#16)
  else if fd = 51 then some (k, if events &&& pollIn ≠ 0#16 ∧ k.timerfdReady then pollIn else 0#16)
  else if k.pipes.isPipeFd fd then
    some (k, if events &&& pollIn ≠ 0#16 ∧ k.pipes.hasData fd then pollIn else 0#16)
  else if k.net.isSocketFd fd then (k.pollSocket fd).map fun r => (r.1, r.2 &&& events)
  else some (k, 0#16)

def input (k : Kernel) (fd : Int) : Option Bool :=
  if fd = 0 then some k.stdin
  else if fd = 51 then some k.timerfdReady
  else if k.pipes.isPipeFd fd then some (k.pipes.hasData fd)
  else none

/-- The readiness as the kernel has it: a write end of a pipe never reports POLLOUT. -/
def ready (k : Kernel) (fd : Int) : BitVec 16 :=
  match k.input fd with
  | some has => if has then pollIn else 0#16
  | none => ((k.pollSocket fd).map Prod.snd).getD 0#16

def Reached (k : Kernel) : Prop :=
  ∃ setup past, Run Net.step (Net.initial setup) past k.net

end Kernel

section Sockets
variable [Net.Stack] {s : Net.State} {fd : Int}

theorem isSocketFd_find (s : Net.State) (fd : Int) :
    s.isSocketFd fd = (s.sockets.find? fun sock => sock.fd = fd).isSome := by
  rw [Net.State.isSocketFd, List.isSome_find?]

theorem pollSocket_reply (s : Net.State) (fd : Int) (room : Bool) :
    (s.call (.pollSocket fd room)).map Prod.snd =
      match s.sockets.find? fun sock => sock.fd = fd with
      | none => some (.events false false false false)
      | some sock => (Net.Socket.pollSocket room s.net sock).map fun r => r.2.2 := by
  have found := Rows.focus_find (fun sock : Net.Socket => decide (sock.fd = fd)) s.sockets
  rw [Net.State.call, Net.State.withSocket, Net.State.find, ← found]
  cases Rows.focus (fun sock : Net.Socket => decide (sock.fd = fd)) s.sockets with
  | none => rfl
  | some parts =>
    simp only [map_some, map_map]
    rfl

theorem pollSocket_net (done : Net.Socket.pollSocket room net sock = some (net', sock', r)) :
    net' = net := by
  unfold Net.Socket.pollSocket at done
  split at done
  · obtain ⟨t, _, same⟩ := map_eq_some_iff.mp done
    split at same
    · split at same <;> cases same <;> rfl
    · cases same
      rfl
  · split at done
    · cases done
    split at done
    · cases done
      rfl
    · obtain ⟨found, _, same⟩ := map_eq_some_iff.mp done
      cases same
      rfl
  · obtain ⟨u, _, same⟩ := map_eq_some_iff.mp done
    cases same
    rfl

end Sockets

section Kernel
variable [Net.Stack] {k k' : Kernel} {fd : Int}

theorem pollSocket_returns (reached : k.Reached) (fd : Int) :
    ∃ k' ready, k.pollSocket fd = some (k', ready) ∧ k'.Reached := by
  obtain ⟨setup, past, run⟩ := reached
  obtain ⟨s', r, done, _⟩ := Net.call_accounted (Net.run_accounted run)
    (c := .pollSocket fd (k.room fd)) (by simp [Net.Mistyped])
  have taken : Net.step k.net (.call (.pollSocket fd (k.room fd))) = some s' := by
    rw [Net.step, done]
    rfl
  exact ⟨{ k with net := s' }, mask r, by rw [Kernel.pollSocket, done]; rfl, setup, _,
    run.snoc taken⟩

theorem pollSocket_missing (missing : k.net.isSocketFd fd = false) :
    ((k.pollSocket fd).map Prod.snd).getD 0#16 = 0#16 := by
  rw [isSocketFd_find, isSome_eq_false_iff, isNone_iff_eq_none] at missing
  have reply := pollSocket_reply k.net fd (k.room fd)
  rw [missing] at reply
  obtain ⟨r, done, same⟩ := map_eq_some_iff.mp reply
  rw [Kernel.pollSocket, done, map_some, map_some, getD_some, same]
  rfl

theorem ready_input (input : k.input fd = some has) :
    k.ready fd = if has then pollIn else 0#16 := by
  rw [Kernel.ready, input]

theorem ready_socket (input : k.input fd = none) :
    k.ready fd = ((k.pollSocket fd).map Prod.snd).getD 0#16 := by
  rw [Kernel.ready, input]

theorem ppoll_input (input : k.input fd = some has) (events : BitVec 16) :
    k.ppollRevents fd events = some (k, k.ready fd &&& events) := by
  rw [ready_input input]
  unfold Kernel.input at input
  unfold Kernel.ppollRevents
  split
  · rename_i none_
    rw [none_, BitVec.and_zero]
  split
  · rename_i stdin
    rw [if_pos stdin] at input
    rw [Option.some.inj input, input_and]
  rename_i other
  rw [if_neg other] at input
  split
  · rename_i timer
    rw [if_pos timer] at input
    rw [Option.some.inj input, input_and]
  rename_i other'
  rw [if_neg other'] at input
  split
  · rename_i pipe
    rw [if_pos pipe] at input
    rw [Option.some.inj input, input_and]
  · rename_i socket
    rw [if_neg socket] at input
    cases input

theorem epoll_input (input : k.input fd = some has) (valid : ¬ fd < 0) (events : BitVec 32) :
    k.epollRevents fd events = some (k, (k.ready fd).setWidth 32) := by
  have widened : (if has = true then epollIn else 0#32) =
      (if has = true then pollIn else 0#16).setWidth 32 := by cases has <;> rfl
  rw [ready_input input, ← widened]
  unfold Kernel.input at input
  unfold Kernel.epollRevents
  rw [if_neg valid]
  split
  · rename_i timer
    have other : ¬ fd = 0 := by omega
    rw [if_neg other, if_pos timer] at input
    rw [Option.some.inj input]
  rename_i other
  rw [if_neg other] at input
  split
  · rename_i stdin
    rw [if_pos stdin] at input
    rw [Option.some.inj input]
  rename_i other'
  rw [if_neg other'] at input
  split
  · rename_i pipe
    rw [if_pos pipe] at input
    rw [Option.some.inj input]
  · rename_i socket
    rw [if_neg socket] at input
    cases input

theorem input_none : k.input fd = none ↔ ¬ fd = 0 ∧ ¬ fd = 51 ∧ ¬ k.pipes.isPipeFd fd = true := by
  unfold Kernel.input
  split
  · rename_i stdin
    exact ⟨nofun, fun h => absurd stdin h.1⟩
  split
  · rename_i timer
    exact ⟨nofun, fun h => absurd timer h.2.1⟩
  rename_i other other'
  split
  · rename_i pipe
    exact ⟨nofun, fun h => absurd pipe h.2.2⟩
  · rename_i socket
    exact ⟨fun _ => ⟨other, other', socket⟩, fun _ => rfl⟩

theorem ppollRevents_eq (reached : k.Reached) (fd : Int) (events : BitVec 16) :
    ∃ k', k.ppollRevents fd events = some (k', k.ready fd &&& events) ∧ k'.Reached := by
  cases input : k.input fd with
  | some => exact ⟨k, ppoll_input input events, reached⟩
  | none =>
    obtain ⟨stdin, timer, pipe⟩ := input_none.mp input
    rw [ready_socket input]
    unfold Kernel.ppollRevents
    split
    · rename_i none_
      exact ⟨k, by rw [none_, BitVec.and_zero], reached⟩
    split
    · obtain ⟨k', ready, done, reached'⟩ := pollSocket_returns reached fd
      exact ⟨k', by rw [done]; rfl, reached'⟩
    · rename_i missing
      have nothing := pollSocket_missing (Bool.eq_false_iff.mpr missing)
      exact ⟨k, by rw [nothing, BitVec.zero_and], reached⟩

/-- epoll_wait reports nothing for a negative number, all that is ready where it is not a socket,
    and of a socket what is in the mask, with errors and hang-ups. -/
def Kernel.revents (k : Kernel) (fd : Int) (events : BitVec 32) : BitVec 32 :=
  if fd < 0 then 0#32
  else if (k.input fd).isSome then (k.ready fd).setWidth 32
  else (k.ready fd).setWidth 32 &&& (events ||| epollErr ||| epollHup)

theorem epollRevents_eq (reached : k.Reached) (fd : Int) (events : BitVec 32) :
    ∃ k', k.epollRevents fd events = some (k', k.revents fd events) ∧ k'.Reached := by
  unfold Kernel.revents
  by_cases negative : fd < 0
  · exact ⟨k, by rw [Kernel.epollRevents, if_pos negative, if_pos negative], reached⟩
  rw [if_neg negative]
  cases input : k.input fd with
  | some => exact ⟨k, epoll_input input negative events, reached⟩
  | none =>
    obtain ⟨stdin, timer, pipe⟩ := input_none.mp input
    rw [ready_socket input]
    unfold Kernel.epollRevents
    rw [if_neg negative, if_neg timer, if_neg stdin, if_neg pipe]
    split
    · obtain ⟨k', ready, done, reached'⟩ := pollSocket_returns reached fd
      exact ⟨k', by rw [done]; rfl, reached'⟩
    · rename_i missing
      have nothing := pollSocket_missing (Bool.eq_false_iff.mpr missing)
      exact ⟨k, by rw [nothing]; simp, reached⟩

end Kernel

/-- What the mask has to be like: whatever is ready of errors and hang-ups is in it, and so is the
    input of what is not a socket. Of a negative number nothing may be ready. -/
def Heeds [Net.Stack] (k : Kernel) (fd : Int) (events : BitVec 16) : Prop :=
  if fd < 0 then k.ready fd &&& (events ||| (pollErr ||| pollHup)) = 0#16
  else k.ready fd &&& (pollErr ||| pollHup) &&& ~~~events = 0#16 ∧
    (k.input fd = some true → events &&& pollIn ≠ 0#16)

/-! The masks, bit by bit. -/

section Bits
variable {w : Nat} (r m c : BitVec w)

theorem bit_iff (r m c : Bool) : (r && m) = (r && (m || c)) ↔ (r && c && !m) = false := by
  revert r m c
  decide

theorem and_or_iff : r &&& m = r &&& (m ||| c) ↔ r &&& c &&& ~~~m = 0#w := by
  constructor
  · intro same
    ext i inside
    have bit := congrArg (fun x => x[i]) same
    simp only [BitVec.getElem_and, BitVec.getElem_or] at bit
    rw [BitVec.getElem_and, BitVec.getElem_and, BitVec.getElem_not, BitVec.getElem_zero]
    exact (bit_iff ..).mp bit
  · intro zero
    ext i inside
    have bit := congrArg (fun x => x[i]) zero
    simp only [BitVec.getElem_and, BitVec.getElem_not, BitVec.getElem_zero] at bit
    rw [BitVec.getElem_and, BitVec.getElem_and, BitVec.getElem_or]
    exact (bit_iff ..).mpr bit

theorem and_zero_of_or (zero : r &&& (m ||| c) = 0#w) : r &&& m = 0#w := by
  rw [BitVec.and_or_distrib_left] at zero
  exact (BitVec.or_eq_zero_iff.mp zero).1

end Bits

theorem setWidth_inj {a b : BitVec 16} : a.setWidth 32 = b.setWidth 32 ↔ a = b := by
  refine ⟨fun same => ?_, fun same => by rw [same]⟩
  have numbers := congrArg BitVec.toNat same
  simp only [BitVec.toNat_setWidth] at numbers
  exact BitVec.eq_of_toNat_eq (by omega)

theorem in_apart : pollIn &&& (pollErr ||| pollHup) = 0#16 := by decide

theorem input_apart [Net.Stack] {k : Kernel} {fd : Int} {has : Bool}
    (input : k.input fd = some has) (events : BitVec 16) :
    k.ready fd &&& (events ||| (pollErr ||| pollHup)) = k.ready fd &&& events ∧
      (k.ready fd = k.ready fd &&& events ↔ (has = true → events &&& pollIn ≠ 0#16)) := by
  rw [ready_input input]
  cases has with
  | false => simp
  | true =>
    simp only [if_true, forall_const]
    refine ⟨by rw [BitVec.and_or_distrib_left, in_apart, BitVec.or_zero], ?_⟩
    rw [in_and]
    split
    · rename_i some_
      exact ⟨fun _ => some_, fun _ => rfl⟩
    · rename_i zero
      exact ⟨fun same => absurd same (by decide), fun some_ => absurd some_ zero⟩

/-- In every state the two scans report, for a descriptor and a mask, the same events, and these are
    what is ready of the mask and of errors and hang-ups, exactly if the mask heeds what is
    ready. -/
theorem scans_agree_iff [Net.Stack] {k : Kernel} (reached : k.Reached) (fd : Int)
    (events : BitVec 16) :
    ∃ k₁ k₂ epoll ppoll, k.epollRevents fd (events.setWidth 32) = some (k₁, epoll) ∧
      k.ppollRevents fd events = some (k₂, ppoll) ∧
      ((epoll = ppoll.setWidth 32 ∧ ppoll = k.ready fd &&& (events ||| (pollErr ||| pollHup))) ↔
        Heeds k fd events) := by
  obtain ⟨k₁, first, _⟩ := epollRevents_eq reached fd (events.setWidth 32)
  obtain ⟨k₂, second, _⟩ := ppollRevents_eq reached fd events
  refine ⟨k₁, k₂, _, _, first, second, ?_⟩
  unfold Kernel.revents Heeds
  by_cases negative : fd < 0
  · rw [if_pos negative, if_pos negative]
    have zero : 0#32 = (0#16).setWidth 32 := rfl
    rw [zero, setWidth_inj]
    constructor
    · rintro ⟨none_, same⟩
      rw [← same, ← none_]
    · intro none_
      have masked := and_zero_of_or _ _ _ none_
      exact ⟨masked.symm, masked.trans none_.symm⟩
  rw [if_neg negative, if_neg negative]
  cases input : k.input fd with
  | some =>
    obtain ⟨apart, heeded⟩ := input_apart input events
    rw [isSome_some, if_pos rfl, setWidth_inj, ← and_or_iff, apart, some_inj, heeded]
    exact ⟨fun h => ⟨rfl, h.1⟩, fun h => ⟨h.2, rfl⟩⟩
  | none =>
    have wide : (k.ready fd).setWidth 32 &&& (events.setWidth 32 ||| epollErr ||| epollHup) =
        (k.ready fd &&& (events ||| (pollErr ||| pollHup))).setWidth 32 := by
      rw [BitVec.setWidth_and, BitVec.setWidth_or, BitVec.or_assoc]
      rfl
    rw [isSome_none, if_neg Bool.false_ne_true, wide, setWidth_inj, ← and_or_iff]
    constructor
    · rintro ⟨_, same⟩
      exact ⟨same, nofun⟩
    · rintro ⟨same, _⟩
      exact ⟨same.symm, same⟩

def fresh [Net.Stack] (net : Net.State) : Kernel :=
  ⟨net, fun _ => true, Pipes.initial, true, 0, 0⟩

theorem fresh_reached : ∃ net, (fresh net).Reached ∧ (fresh net).ready 500 = pollHup := by
  obtain ⟨past, net, run, _, test⟩ := run_of_exec (fun _ _ => true) Net.step (Net.initial .fixed)
    [.call (.socket 2 1)] (fun net => decide ((fresh net).ready 500 = pollHup)) (by decide)
  exact ⟨net, ⟨.fixed, past, run⟩, of_decide_eq_true test⟩

theorem scans_agree_on_fresh : ∃ k k₁ k₂ : Kernel, k.Reached ∧
    k.epollRevents 500 ((pollIn ||| pollHup).setWidth 32) = some (k₁, epollHup) ∧
    k.ppollRevents 500 (pollIn ||| pollHup) = some (k₂, pollHup) := by
  obtain ⟨net, reached, ready⟩ := fresh_reached
  obtain ⟨k₁, k₂, epoll, ppoll, first, second, agree⟩ :=
    scans_agree_iff reached 500 (pollIn ||| pollHup)
  have heeds : Heeds (fresh net) 500 (pollIn ||| pollHup) := by
    unfold Heeds
    rw [if_neg (by decide), ready]
    exact ⟨by decide, nofun⟩
  obtain ⟨same, value⟩ := agree.mpr heeds
  rw [ready] at value
  subst value same
  exact ⟨fresh net, k₁, k₂, reached, first, second⟩

/-- Input on the serial line is reported by epoll_wait to one that asks for output only, and a
    socket that is not connected by epoll_wait only, to one that asks for input. -/
theorem scans_differ : ∃ k : Kernel, k.Reached ∧ k.ready 0 = pollIn ∧
    (k.epollRevents 0 (pollOut.setWidth 32)).map Prod.snd = some epollIn ∧
    (k.ppollRevents 0 pollOut).map Prod.snd = some 0#16 ∧
    k.ready 500 = pollHup ∧
    (k.epollRevents 500 (pollIn.setWidth 32)).map Prod.snd = some epollHup ∧
    (k.ppollRevents 500 pollIn).map Prod.snd = some 0#16 := by
  obtain ⟨past, net, run, _, test⟩ := run_of_exec (fun _ _ => true) Net.step (Net.initial .fixed)
    [.call (.socket 2 1)] (fun net => decide ((fresh net).ready 0 = pollIn ∧
      ((fresh net).epollRevents 0 (pollOut.setWidth 32)).map Prod.snd = some epollIn ∧
      ((fresh net).ppollRevents 0 pollOut).map Prod.snd = some 0#16 ∧
      (fresh net).ready 500 = pollHup ∧
      ((fresh net).epollRevents 500 (pollIn.setWidth 32)).map Prod.snd = some epollHup ∧
      ((fresh net).ppollRevents 500 pollIn).map Prod.snd = some 0#16)) (by decide)
  exact ⟨fresh net, ⟨.fixed, past, run⟩, of_decide_eq_true test⟩

end TynKernel.Poll
