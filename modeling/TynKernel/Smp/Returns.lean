import TynKernel.Smp.Started

/-!
Whether boot_aps returns. Whatever it waits for is about to be done, unless a processor is
missing from the count.
-/
namespace TynKernel.Smp
open Function Turns

variable {w : Words} {a : Ap} {k c : Nat}

section Progress
variable {n i : Nat} {answers : Nat → Bool} {s : Machines}

def ApPlace.rank : ApPlace → Nat
  | .off => 18
  | .trampoline => 17
  | .main => 16
  | .awaitOne r => 5 * (3 - r)
  | .rdtsc r => 5 * (3 - r) - 1
  | .publish r _ => 5 * (3 - r) - 2
  | .answer r => 5 * (3 - r) - 3
  | .awaitReset r => 5 * (3 - r) - 4
  | .idle => 0

def BspPlace.rank (n : Nat) : BspPlace → Nat
  | .prepare i => 2000000 * (n - i) + 1000050
  | .sipi i => 2000000 * (n - i) + 1000049
  | .poll i waited => 2000000 * (n - i) + (1000000 - waited) + 40
  | .awaitStarted i => 2000000 * (n - i) + 39
  | .reset i offsets => 2000000 * (n - i) + 6 * (3 - offsets.length) + 8
  | .signal i offsets => 2000000 * (n - i) + 6 * (3 - offsets.length) + 7
  | .rdtsc i offsets => 2000000 * (n - i) + 6 * (3 - offsets.length) + 6
  | .awaitTwo i offsets _ => 2000000 * (n - i) + 6 * (3 - offsets.length) + 5
  | .subtract i offsets _ => 2000000 * (n - i) + 6 * (3 - offsets.length) + 4
  | .store i _ => 2000000 * (n - i) + 3
  | .finish i => 2000000 * (n - i) + 2
  | .returned => 0

def Machines.rank (n : Nat) (s : Machines) : Nat :=
  s.bsp.rank n + ∑ j ∈ Finset.range n, (s.aps j).place.rank

theorem nextAp_rank : (nextAp n i).rank n < 2000000 * (n - i) + 2 := by
  unfold nextAp
  split
  · simp only [BspPlace.rank]
    omega
  · simp only [BspPlace.rank]
    omega

def Machines.BspWaits (s : Machines) : Prop :=
  (∃ i, s.bsp = .awaitStarted i ∧ s.words.apStartedCount < i) ∨
    (∃ i offsets bspTsc, s.bsp = .awaitTwo i offsets bspTsc ∧ s.words.syncState ≠ 2) ∨
    s.bsp = .returned

theorem bootAp_waits (waits : s.BspWaits) (tsc : Nat) : bootAp n answers s tsc = s := by
  rcases waits with ⟨i, place, short⟩ | ⟨i, offsets, bspTsc, place, other⟩ | place
  · simp [bootAp, place, short]
  · simp [bootAp, place, other]
  · simp [bootAp, place]

theorem Machines.Sound.inside (sound : s.Sound n answers) (place : s.bsp = p)
    (active : p ≠ .returned) : p.cpu n < n := by
  subst place
  exact (sound.range active).2

theorem bootAp_rank (sound : s.Sound n answers) (moves : ¬ s.BspWaits) (tsc : Nat) :
    (bootAp n answers s tsc).rank n < s.rank n := by
  unfold Machines.rank
  cases place : s.bsp with
  | returned => exact absurd (.inr (.inr place)) moves
  | prepare i | reset i offsets | signal i offsets | rdtsc i offsets | store i offsets =>
    simp only [bootAp, place, BspPlace.rank]
    omega
  | sipi i =>
    obtain ⟨off, _⟩ := sound.at place
    have woken : ApPlace.rank .trampoline < (s.aps i).place.rank := by
      rw [show s.aps i = ⟨.off, []⟩ from off]
      decide
    have lower : ∑ j ∈ Finset.range n, ((if answers i then update s.aps i
        ⟨.trampoline, (s.aps i).readings⟩ else s.aps) j).place.rank ≤
        ∑ j ∈ Finset.range n, (s.aps j).place.rank := by
      split
      · exact Nat.le_of_lt (sum_rank_lt (fun a : Ap => a.place.rank) s.aps
          ⟨.trampoline, (s.aps i).readings⟩ (sound.inside place (by simp)) woken)
      · exact Nat.le_refl _
    simp only [bootAp, place, BspPlace.rank]
    omega
  | poll i =>
    have next := nextAp_rank (n := n) (i := i)
    simp only [bootAp, place]
    split
    · split
      · simp only [BspPlace.rank]
        omega
      · simp only [BspPlace.rank]
        omega
    · simp only [BspPlace.rank] at next ⊢
      omega
  | awaitStarted i =>
    have enough : ¬ s.words.apStartedCount < i := fun short => moves (.inl ⟨i, place, short⟩)
    simp only [bootAp, place, enough, if_false, BspPlace.rank, List.length_nil]
    omega
  | awaitTwo i offsets bspTsc =>
    have two : s.words.syncState = 2 := by
      by_contra other
      exact moves (.inr (.inl ⟨i, offsets, bspTsc, place, other⟩))
    simp only [bootAp, place, two, if_true, BspPlace.rank]
    omega
  | subtract =>
    obtain ⟨_, _, few, _⟩ := sound.at place
    simp only [bootAp, place]
    split
    · simp only [BspPlace.rank, List.length_append, List.length_singleton]
      omega
    · simp only [BspPlace.rank]
      omega
  | finish i =>
    have next := nextAp_rank (n := n) (i := i)
    simp only [bootAp, place]
    simp only [BspPlace.rank] at next ⊢
    omega

def Waits (w : Words) (a : Ap) : Prop :=
  a.place = .off ∨ a.place = .idle ∨ (∃ r, a.place = .awaitOne r ∧ w.syncState ≠ 1) ∨
    ∃ r, a.place = .awaitReset r ∧ w.syncState = 2

def ApPlace.inRounds : ApPlace → Prop
  | .awaitOne r | .rdtsc r | .publish r _ | .answer r | .awaitReset r => r < 3
  | _ => True

theorem apMain_waits (waits : Waits w a) (tsc : Nat) :
    apMain w a tsc = (w, a) := by
  rcases waits with here | here | ⟨r, here, other⟩ | ⟨r, here, two⟩
  · simp [apMain, here]
  · simp [apMain, here]
  · simp [apMain, here, other]
  · simp [apMain, here, two]

theorem apMain_rank (rounds : a.place.inRounds) (moves : ¬ Waits w a) (tsc : Nat) :
    (apMain w a tsc).2.place.rank < a.place.rank := by
  unfold apMain
  cases here : a.place with
  | off => exact absurd (.inl here) moves
  | idle => exact absurd (.inr (.inl here)) moves
  | trampoline | main => simp [ApPlace.rank]
  | awaitOne r =>
    rw [here] at rounds
    simp only [ApPlace.inRounds] at rounds
    have one : w.syncState = 1 := by
      by_contra other
      exact moves (.inr (.inr (.inl ⟨r, here, other⟩)))
    simp only [one, if_true, ApPlace.rank]
    omega
  | rdtsc r | publish r _ | answer r =>
    rw [here] at rounds
    simp only [ApPlace.inRounds] at rounds
    simp only [ApPlace.rank]
    omega
  | awaitReset r =>
    rw [here] at rounds
    simp only [ApPlace.inRounds] at rounds
    have other : w.syncState ≠ 2 := fun two => moves (.inr (.inr (.inr ⟨r, here, two⟩)))
    simp only [other, if_false]
    split
    · simp only [ApPlace.rank]
      omega
    · simp only [ApPlace.rank]
      omega

def Machines.InRounds (s : Machines) : Prop := ∀ j, (s.aps j).place.inRounds

theorem apMain_inRounds (rounds : a.place.inRounds) (tsc : Nat) :
    (apMain w a tsc).2.place.inRounds := by
  unfold apMain
  cases here : a.place with
  | off | idle | rdtsc r | publish r myTsc | answer r =>
    rw [here] at rounds
    simp only [here]
    exact rounds
  | trampoline => trivial
  | main => exact (by decide : 0 < 3)
  | awaitOne =>
    rw [here] at rounds
    dsimp only
    split
    · exact rounds
    · simp only [here]
      exact rounds
  | awaitReset =>
    rw [here] at rounds
    dsimp only
    split
    · simp only [here]
      exact rounds
    · split
      · rename_i more
        exact more
      · trivial

theorem bootAp_aps (n : Nat) (answers : Nat → Bool) (s : Machines) (tsc j : Nat) :
    (bootAp n answers s tsc).aps j = s.aps j ∨
    ((bootAp n answers s tsc).aps j).place = .trampoline := by
  unfold bootAp
  cases s.bsp with
  | sipi i =>
    dsimp only
    split
    · by_cases same : j = i
      · right
        rw [same, update_self]
      · left
        rw [update_of_ne same]
    · exact .inl rfl
  | poll =>
    dsimp only
    split
    · split
      · exact .inl rfl
      · exact .inl rfl
    · exact .inl rfl
  | awaitStarted i | awaitTwo i offsets bspTsc =>
    dsimp only
    split
    · exact .inl rfl
    · exact .inl rfl
  | prepare i | reset i offsets | signal i offsets | rdtsc i offsets | subtract i offsets bspTsc
  | store i offsets | finish i | returned => exact .inl rfl

theorem bringupStep_inRounds (rounds : s.InRounds) (p : Party) (tsc : Nat) :
    (bringupStep n answers s p tsc).InRounds := by
  intro j
  cases p with
  | bsp =>
    change ((bootAp n answers s tsc).aps j).place.inRounds
    rcases bootAp_aps n answers s tsc j with same | woken
    · rw [same]
      exact rounds j
    · rw [woken]
      trivial
  | ap i =>
    change (update s.aps i _ j).place.inRounds
    by_cases same : j = i
    · rw [same, update_self]
      exact apMain_inRounds (rounds i) tsc
    · rw [update_of_ne same]
      exact rounds j

theorem Machines.Sound.listed (sound : s.Sound n answers) (started : (s.aps j).place ≠ .off) :
    j < n := by
  by_contra high
  by_cases active : s.bsp = .returned
  · have phase := sound.at active
    rcases Nat.lt_trichotomy j (max n 1) with before | same | behind
    · -- with no listed processor at all, only the number of the boot processor is left
      have zero : j = 0 := by omega
      have clean := sound.silent j (by rw [active]; exact before) (by rw [zero]; rfl)
      rw [clean.ap] at started
      exact started rfl
    · rw [same] at started
      exact started (by rw [show s.aps (max n 1) = ⟨.off, []⟩ from phase.1])
    · have clean := sound.later j (by rw [active]; exact behind)
      rw [clean.ap] at started
      exact started rfl
  · have inside := sound.range active
    have clean := sound.later j (by omega)
    rw [clean.ap] at started
    exact started rfl

theorem ap_rank (sound : s.Sound n answers) (rounds : s.InRounds)
    (moves : ¬ Waits s.words (s.aps i)) (tsc : Nat) :
    (bringupStep n answers s (.ap i) tsc).rank n < s.rank n := by
  have inside : i < n := sound.listed (fun off => moves (.inl off))
  have lower := sum_rank_lt (fun a : Ap => a.place.rank) s.aps (apMain s.words (s.aps i) tsc).2
    inside (apMain_rank (rounds i) moves tsc)
  exact Nat.add_lt_add_left lower _

theorem bringupStep_lowers (sound : s.Sound n answers) (rounds : s.InRounds) (p : Party)
    (tsc : Nat) :
    bringupStep n answers s p tsc = s ∨ (bringupStep n answers s p tsc).rank n < s.rank n := by
  cases p with
  | bsp =>
    by_cases waits : s.BspWaits
    · exact .inl (bootAp_waits waits tsc)
    · exact .inr (bootAp_rank sound waits tsc)
  | ap i =>
    by_cases waits : Waits s.words (s.aps i)
    · left
      simp [bringupStep, apMain_waits waits tsc, update_eq_self]
    · exact .inr (ap_rank sound rounds waits tsc)

def InOrder (n : Nat) (answers : Nat → Bool) : Prop :=
  ∀ i j, 0 < j → j < i → i < n → answers i = true → answers j = true

theorem bsp_wait_moves (inOrder : InOrder n answers) (sound : s.Sound n answers)
    (waits : s.BspWaits) (active : s.bsp ≠ .returned) :
    ¬ Waits s.words (s.aps (s.bsp.cpu n)) := by
  rcases waits with ⟨i, place, short⟩ | ⟨i, offsets, bspTsc, place, other⟩ | place
  · obtain ⟨yes, _, _, _, sync, began⟩ := sound.at place
    obtain ⟨positive, inside⟩ := sound.range active
    have count := sound.count
    simp only [place, BspPlace.cpu] at positive inside yes began count ⊢
    have full := (answeredBelow_full positive).mpr
      (fun j low less => inOrder i j low less inside yes)
    rcases began with main | waiting
    · simp [Waits, main]
    · simp only [waiting, ApPlace.counted, if_true] at count
      omega
  · obtain ⟨_, _, _, before, theirs, _, _, round⟩ := sound.at place
    simp only [place, BspPlace.cpu] at round ⊢
    cases round with
    | asked at_ one =>
      rcases at_ with (here | ⟨q, _, here⟩) | here
      · simp [Waits, here, one]
      · simp [Waits, here, one]
      · simp [Waits, here]
    | read _ at_ =>
      rcases at_ with here | ⟨here, _⟩
      · simp [Waits, here]
      · simp [Waits, here]
    | answered _ _ _ two => exact absurd two other
  · exact absurd place active

theorem bringup_moves (inOrder : InOrder n answers) (sound : s.Sound n answers)
    (rounds : s.InRounds) (active : s.bsp ≠ .returned) :
    ∃ p, takesPart n p ∧ ∀ tsc, (bringupStep n answers s p tsc).rank n < s.rank n := by
  by_cases waits : s.BspWaits
  · have moves := bsp_wait_moves inOrder sound waits active
    obtain ⟨positive, inside⟩ := sound.range active
    exact ⟨.ap (s.bsp.cpu n), .inr ⟨_, positive, inside, rfl⟩, ap_rank sound rounds moves⟩
  · exact ⟨.bsp, .inl rfl, bootAp_rank sound waits⟩

variable {x : Schedule Party Nat}

theorem boots_sound (timely : ∀ l, l < k → (boots n answers x l).InTime answers) :
    (boots n answers x k).Sound n answers :=
  trace_invariant (Machines.InTime answers) (Machines.Sound n answers) bringupStart_sound
    (fun _ p tsc sound inTime => bringupStep_sound sound inTime p tsc) k timely

theorem boots_inRounds (k : Nat) : (boots n answers x k).InRounds :=
  trace_invariant (fun _ => True) Machines.InRounds
    (show (bringupStart n).InRounds from fun _ => trivial)
    (fun _ p tsc rounds _ => bringupStep_inRounds rounds p tsc) k (fun _ _ => trivial)

theorem boots_returns (inOrder : InOrder n answers) (fair : Fair (takesPart n) x)
    (timely : Timely n answers x) : ∃ k, (boots n answers x k).bsp = .returned := by
  apply fair_reaches fair (Machines.rank n) (fun s => s.Sound n answers ∧ s.InRounds)
    (fun s => s.bsp = .returned)
  · intro k
    exact ⟨boots_sound (fun l _ => timely l), boots_inRounds k⟩
  · rintro s p tsc ⟨sound, rounds⟩
    exact bringupStep_lowers sound rounds p tsc
  · rintro s ⟨sound, rounds⟩ active
    exact bringup_moves inOrder sound rounds active

theorem Machines.Sound.complete (sound : s.Sound n answers) (place : s.bsp = .returned) :
    s.Complete n answers := by
  have phase := sound.at place
  refine ⟨place, fun i => ⟨?_, ?_⟩⟩
  · rintro ⟨positive, inside, yes⟩
    refine (sound.served i ?_ ?_).measured
    · rw [place]
      exact Nat.lt_of_lt_of_le inside (Nat.le_max_left n 1)
    · simp [responds, positive, yes]
  · intro other
    rcases Nat.lt_trichotomy i (max n 1) with before | same | behind
    · refine (sound.silent i (by rw [place]; exact before) ?_).offset
      simp only [responds, Bool.and_eq_false_iff, decide_eq_false_iff_not]
      by_contra both
      push Not at both
      refine other ⟨both.1, by omega, ?_⟩
      simpa using both.2
    · rw [same]
      exact phase.2.2
    · exact (sound.later i (by rw [place]; exact behind)).offset

theorem Machines.Sound.inOrder (sound : s.Sound n answers) (place : s.bsp = .returned) :
    InOrder n answers := by
  intro i j low less inside yes
  refine sound.noGap i ?_ ?_ j low less
  · rw [place]
    exact Nat.lt_of_lt_of_le inside (Nat.le_max_left n 1)
  · simp [responds, yes, show 0 < i by omega]

/-! A processor that is given up is not measured. -/

def Machines.Passed (n c : Nat) (s : Machines) : Prop :=
  (c < s.bsp.cpu n ∨ ∃ waited, s.bsp = .poll c waited ∧ 1000000 ≤ waited) ∧ s.tscOffsets c = none

theorem bootAp_passed (inside : c + 1 ≤ n) (tsc : Nat) (passed : s.Passed n c) :
    (bootAp n answers s tsc).Passed n c := by
  obtain ⟨ahead | ⟨waited, place, late⟩, blank⟩ := passed
  · have further : ∀ i, c < i → c < (nextAp n i).cpu n := by
      intro i less
      unfold nextAp
      split
      · exact Nat.lt_succ_of_lt less
      · exact Nat.lt_of_lt_of_le inside (Nat.le_max_left n 1)
    cases place : s.bsp with
    | returned =>
      simp only [bootAp, place]
      exact ⟨.inl ahead, blank⟩
    | prepare i | sipi i | reset i offsets | signal i offsets | rdtsc i offsets =>
      rw [place] at ahead
      simp only [bootAp, place]
      exact ⟨.inl ahead, blank⟩
    | poll i =>
      rw [place] at ahead
      simp only [bootAp, place]
      split
      · split
        · exact ⟨.inl ahead, blank⟩
        · exact ⟨.inl ahead, blank⟩
      · exact ⟨.inl (further i ahead), blank⟩
    | awaitStarted =>
      simp only [bootAp, place]
      split
      · exact ⟨.inl ahead, blank⟩
      · rw [place] at ahead
        exact ⟨.inl ahead, blank⟩
    | awaitTwo =>
      simp only [bootAp, place]
      split
      · rw [place] at ahead
        exact ⟨.inl ahead, blank⟩
      · exact ⟨.inl ahead, blank⟩
    | subtract =>
      rw [place] at ahead
      simp only [bootAp, place]
      split
      · exact ⟨.inl ahead, blank⟩
      · exact ⟨.inl ahead, blank⟩
    | store i =>
      rw [place] at ahead
      have other : c ≠ i := Nat.ne_of_lt ahead
      simp only [bootAp, place]
      refine ⟨.inl ahead, ?_⟩
      change update s.tscOffsets i _ c = none
      rw [update_of_ne other]
      exact blank
    | finish i =>
      rw [place] at ahead
      simp only [bootAp, place]
      exact ⟨.inl (further i ahead), blank⟩
  · simp only [bootAp, place, Nat.not_lt.mpr late, if_false]
    refine ⟨.inl ?_, blank⟩
    rw [nextAp_cpu (Nat.le_trans inside (Nat.le_max_left n 1))]
    exact Nat.lt_succ_self c

theorem bringupStep_passed (inside : c + 1 ≤ n) (p : Party) (tsc : Nat) (passed : s.Passed n c) :
    (bringupStep n answers s p tsc).Passed n c := by
  cases p with
  | bsp => exact bootAp_passed inside tsc passed
  | ap => exact passed

theorem timely_of_complete (complete : (boots n answers x k).Complete n answers) :
    Timely n answers x := by
  intro l
  induction l using Nat.strong_induction_on with
  | _ l ih =>
    intro c waited place late
    have sound := boots_sound ih
    obtain ⟨_, _, blank, _⟩ := sound.at place
    obtain ⟨positive, inside⟩ := sound.range (by rw [place]; simp)
    rw [place] at positive inside
    by_contra yes
    rw [Bool.not_eq_false] at yes
    have passed : (boots n answers x l).Passed n c := ⟨.inr ⟨waited, place, late⟩, blank⟩
    have kept := trace_stays (Machines.Passed n c)
      (fun s p tsc => bringupStep_passed inside p tsc) passed
    have measured := (complete.2 c).1 ⟨positive, inside, yes⟩
    rcases Nat.lt_or_ge k l with early | done
    · -- what has returned does not poll again
      have stays := trace_stays (fun s : Machines => s.bsp = .returned) ?_ complete.1 l
        (Nat.le_of_lt early)
      · change (boots n answers x l).bsp = .returned at stays
        rw [place] at stays
        cases stays
      intro s p tsc returned
      cases p with
      | bsp =>
        simp [bringupStep, bootAp, returned]
      | ap => exact returned
    · have missing : (boots n answers x k).tscOffsets c = none := (kept k done).2
      rw [measured.offset] at missing
      cases missing

end Progress

theorem inOrder_iff {m : Machine} : InOrder m.numCpus m.answers ↔ ¬ m.Stalls := by
  have counts := numCpus_max m
  constructor
  · rintro inOrder ⟨j, i, low, less, inside, no, yes⟩
    have answered := inOrder i j low less (by omega) yes
    rw [no] at answered
    cases answered
  · intro stalls i j low less inside yes
    by_contra no
    rw [Bool.not_eq_true] at no
    exact stalls ⟨j, i, low, less, by omega, no, yes⟩

/-- boot_aps returns, with the offsets of the processors that answer, if and only if none of them
    answers behind one that does not, and none later than boot_ap waits. -/
theorem boot_aps_returns_iff (m : Machine) (x : Schedule Party Nat)
    (fair : Fair (takesPart m.numCpus) x) :
    (∃ k, (boots m.numCpus m.answers x k).Complete m.numCpus m.answers) ↔
      ¬ m.Stalls ∧ Timely m.numCpus m.answers x := by
  constructor
  · rintro ⟨k, complete⟩
    have timely := timely_of_complete complete
    have sound := boots_sound (x := x) (k := k) (fun l _ => timely l)
    exact ⟨inOrder_iff.mp (sound.inOrder complete.1), timely⟩
  · rintro ⟨stalls, timely⟩
    obtain ⟨k, returned⟩ := boots_returns (inOrder_iff.mpr stalls) fair timely
    have sound := boots_sound (x := x) (k := k) (fun l _ => timely l)
    exact ⟨k, sound.complete returned⟩

/-- The loop over the listed processors that bringUp runs ends if and only if boot_aps returns. -/
theorem bringUp_ends_iff (m : Machine) (x : Schedule Party Nat)
    (fair : Fair (takesPart m.numCpus) x) (timely : Timely m.numCpus m.answers x) :
    (∃ b, bringUp m = some b) ↔ ∃ k, (boots m.numCpus m.answers x k).bsp = .returned := by
  rw [← Option.ne_none_iff_exists', ne_eq, bringUp_none]
  constructor
  · intro stalls
    exact boots_returns (inOrder_iff.mpr stalls) fair timely
  · rintro ⟨k, returned⟩
    have sound := boots_sound (x := x) (k := k) (fun l _ => timely l)
    exact inOrder_iff.mp (sound.inOrder returned)

section Circle
variable {n : Nat} {answers : Nat → Bool} {s : Machines}

def inCircle (n : Nat) : Schedule Party Nat :=
  circle n id fun r => if r = 0 then .bsp else .ap r

theorem inCircle_fair (some_cpu : 0 < n) : Fair (takesPart n) (inCircle n) := by
  intro p member
  apply circle_fair
  rcases member with rfl | ⟨i, positive, inside, rfl⟩
  · exact ⟨0, some_cpu, rfl⟩
  · exact ⟨i, inside, if_neg (Nat.ne_of_gt positive)⟩

def Punctual (n : Nat) (answers : Nat → Bool) (k : Nat) (s : Machines) : Prop :=
  ∀ i waited, s.bsp = .poll i waited → answers i = true →
    waited = 0 ∧ (s.words.ready = 1 ∨
      ((s.aps i).place = .trampoline ∧ 0 < k % n ∧ k % n ≤ i))

theorem Punctual.inTime (punctual : Punctual n answers k s) : s.InTime answers := by
  intro i waited place late
  by_contra yes
  rw [Bool.not_eq_false] at yes
  have zero := (punctual i waited place yes).1
  omega

theorem next_turn (more : k % n + 1 < n) : (k + 1) % n = k % n + 1 := by
  rw [Nat.add_mod, Nat.mod_eq_of_lt (show 1 < n by omega), Nat.mod_eq_of_lt more]

theorem punctual_bsp (sound : s.Sound n answers) (punctual : Punctual n answers k s)
    (turn : k % n = 0) (tsc : Nat) : Punctual n answers (k + 1) (bootAp n answers s tsc) := by
  intro i waited polls yes
  have behind : ∀ j, nextAp n j ≠ .poll i waited := by
    intro j
    unfold nextAp
    split <;> simp
  cases place : s.bsp with
  | sipi =>
    obtain ⟨positive, inside⟩ := sound.range (by rw [place]; simp)
    rw [place] at positive inside
    simp only [bootAp, place] at polls ⊢
    cases polls
    refine ⟨rfl, .inr ⟨?_, ?_, ?_⟩⟩
    · rw [if_pos yes, update_self]
    · rw [next_turn (by omega)]
      exact Nat.succ_pos _
    · rw [next_turn (by omega), turn]
      exact positive
  | poll j past =>
    simp only [bootAp, place] at polls
    split at polls
    · split at polls
      · cases polls
      rename_i unready
      cases polls
      obtain ⟨_, ready | ⟨_, early, _⟩⟩ := punctual i past place yes
      · exact absurd ready unready
      · omega
    · exact absurd polls (behind j)
  | finish j =>
    simp only [bootAp, place] at polls
    exact absurd polls (behind j)
  | awaitStarted =>
    simp only [bootAp, place] at polls
    split at polls
    · rw [place] at polls
      cases polls
    · cases polls
  | awaitTwo =>
    simp only [bootAp, place] at polls
    split at polls
    · cases polls
    · rw [place] at polls
      cases polls
  | subtract =>
    simp only [bootAp, place] at polls
    split at polls <;> cases polls
  | returned | prepare j | reset j offsets | signal j offsets | rdtsc j offsets | store j offsets =>
    simp only [bootAp, place] at polls
    cases polls

theorem apMain_ready (ready : w.ready = 1) (tsc : Nat) :
    (apMain w a tsc).1.ready = 1 := by
  unfold apMain
  cases a.place with
  | awaitOne =>
    dsimp only
    split <;> exact ready
  | awaitReset =>
    dsimp only
    split
    · exact ready
    · split <;> exact ready
  | trampoline => rfl
  | off | main | rdtsc r | publish r myTsc | answer r | idle => exact ready

theorem punctual_ap (sound : s.Sound n answers) (punctual : Punctual n answers k s) (tsc : Nat) :
    Punctual n answers (k + 1) (bringupStep n answers s (.ap (k % n)) tsc) := by
  intro i waited polls yes
  have place : s.bsp = .poll i waited := polls
  obtain ⟨_, inside⟩ := sound.range (by rw [place]; simp)
  rw [place] at inside
  simp only [BspPlace.cpu] at inside
  obtain ⟨zero, ready | ⟨woken, early, due⟩⟩ := punctual i waited place yes
  · exact ⟨zero, .inl (apMain_ready ready tsc)⟩
  refine ⟨zero, ?_⟩
  by_cases own : k % n = i
  · left
    change (apMain s.words (s.aps (k % n)) tsc).1.ready = 1
    rw [own]
    simp [apMain, woken]
  · right
    refine ⟨?_, ?_, ?_⟩
    · change (update s.aps (k % n) _ i).place = .trampoline
      rw [update_of_ne (Ne.symm own)]
      exact woken
    · rw [next_turn (by omega)]
      exact Nat.succ_pos _
    · rw [next_turn (by omega)]
      omega

theorem inCircle_punctual (k : Nat) :
    (boots n answers (inCircle n) k).Sound n answers ∧
      Punctual n answers k (boots n answers (inCircle n) k) := by
  induction k with
  | zero =>
    refine ⟨bringupStart_sound, ?_⟩
    intro i waited polls
    simp only [boots, trace, bringupStart] at polls
    split at polls <;> cases polls
  | succ k ih =>
    obtain ⟨sound, punctual⟩ := ih
    refine ⟨bringupStep_sound sound punctual.inTime _ _, ?_⟩
    by_cases turn : k % n = 0
    · have next : boots n answers (inCircle n) (k + 1) =
          bootAp n answers (boots n answers (inCircle n) k) k := by
        simp [boots, trace, inCircle, circle, turn, bringupStep, id]
      rw [next]
      exact punctual_bsp sound punctual turn k
    · have next : boots n answers (inCircle n) (k + 1) =
          bringupStep n answers (boots n answers (inCircle n) k) (.ap (k % n)) k := by
        simp [boots, trace, inCircle, circle, turn, id]
      rw [next]
      exact punctual_ap sound punctual k

theorem inCircle_timely : Timely n answers (inCircle n) :=
  fun k => (inCircle_punctual k).2.inTime

end Circle

def enabledApic (id : UInt8) : Entry := ⟨0, [id, id, 1, 0, 0, 0], by simp⟩

def threeCpus (answers : Nat → Bool) : Machine where
  madt := some
    { localApicAddr := 0xFEE00000
      entries := [enabledApic 0, enabledApic 1, enabledApic 2]
      fits := by decide }
  bsp := 0
  answers := answers

theorem first_ap_measured :
    ∃ k, (boots 3 (fun i => i = 1) (inCircle 3) k).Complete 3 fun i => i = 1 := by
  have count : (threeCpus fun i => i = 1).numCpus = 3 := by decide
  have fair := inCircle_fair (n := 3) (by decide)
  have stalls : ¬ (threeCpus fun i => i = 1).Stalls := by
    rw [← inOrder_iff, count]
    intro i j low less inside yes
    have last := of_decide_eq_true yes
    omega
  have done := (boot_aps_returns_iff (threeCpus fun i => i = 1) (inCircle 3)
    (by rw [count]; exact fair)).mpr ⟨stalls, inCircle_timely⟩
  exact done

theorem first_ap_ends :
    (∃ b, bringUp (threeCpus fun i => i = 1) = some b) ∧
      ∃ k, (boots 3 (fun i => i = 1) (inCircle 3) k).bsp = .returned := by
  have count : (threeCpus fun i => i = 1).numCpus = 3 := by decide
  have ends : ∃ b, bringUp (threeCpus fun i => i = 1) = some b :=
    Option.isSome_iff_exists.mp (by decide)
  have agree := bringUp_ends_iff (threeCpus fun i => i = 1) (inCircle 3)
    (by rw [count]; exact inCircle_fair (by decide)) inCircle_timely
  rw [count] at agree
  exact ⟨ends, agree.mp ends⟩

/-- If the first one is silent then boot_aps waits for the other one for ever. -/
theorem second_ap_never_counted :
    Fair (takesPart 3) (inCircle 3) ∧ Timely 3 (fun i => i = 2) (inCircle 3) ∧
      ∀ k, (boots 3 (fun i => i = 2) (inCircle 3) k).bsp ≠ .returned := by
  refine ⟨inCircle_fair (by decide), inCircle_timely, ?_⟩
  intro k returned
  have answered :=
    (inCircle_punctual k).1.inOrder returned 2 1 (by decide) (by decide) (by decide) rfl
  cases answered

end TynKernel.Smp
