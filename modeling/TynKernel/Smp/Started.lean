import TynKernel.Smp.Bringup

/-!
What holds of all processors together while boot_aps goes through the list.
-/
namespace TynKernel.Smp
open Function

def responds (answers : Nat → Bool) (i : Nat) : Bool := decide (0 < i) && answers i

def answeredBelow (answers : Nat → Bool) (c : Nat) : Nat :=
  (List.range c).countP (responds answers)

variable {c j bspTsc : Nat} {w : Words} {a : Ap} {s' : Machines} {p : BspPlace}

theorem answeredBelow_succ (answers : Nat → Bool) (c : Nat) :
    answeredBelow answers (c + 1) =
      answeredBelow answers c + if responds answers c then 1 else 0 := by
  simp [answeredBelow, List.range_succ]

theorem answeredBelow_lt (answers : Nat → Bool) (positive : 0 < c) :
    answeredBelow answers c < c := by
  induction c, positive using Nat.le_induction with
  | base => simp [answeredBelow, responds]
  | succ =>
    rw [answeredBelow_succ]
    split <;> omega

theorem answeredBelow_full (positive : 0 < c) :
    c ≤ answeredBelow answers c + 1 ↔ ∀ j, 0 < j → j < c → answers j = true := by
  induction c, positive using Nat.le_induction with
  | base => exact ⟨fun _ j low high => by omega, fun _ => Nat.le_add_left _ _⟩
  | succ c positive ih =>
    have less := answeredBelow_lt answers positive
    have here : responds answers c = answers c := by
      simp [responds, Nat.pos_of_ne_zero (Nat.ne_of_gt positive)]
    rw [answeredBelow_succ, here]
    constructor
    · intro high
      cases yes : answers c with
      | false =>
        simp only [yes, Bool.false_eq_true, if_false] at high
        omega
      | true =>
        simp only [yes, if_true] at high
        intro j low bound
        by_cases last : j = c
        · rw [last, yes]
        · exact ih.mp (by omega) j low (by omega)
    · intro all
      have before := ih.mpr (fun j low bound => all j low (by omega))
      rw [all c positive (Nat.lt_succ_self c), if_pos rfl]
      omega

def BspPlace.cpu (n : Nat) : BspPlace → Nat
  | .prepare i | .sipi i | .poll i _ | .awaitStarted i | .reset i _ | .signal i _ | .rdtsc i _
  | .awaitTwo i _ _ | .subtract i _ _ | .store i _ | .finish i => i
  | .returned => max n 1

def BspPlace.measures : BspPlace → Bool
  | .reset .. | .signal .. | .rdtsc .. | .awaitTwo .. | .subtract .. | .store .. | .finish _ => true
  | _ => false

def ApPlace.counted : ApPlace → Bool
  | .off | .trampoline | .main => false
  | _ => true

structure Machines.Untouched (s : Machines) (j : Nat) : Prop where
  ap : s.aps j = ⟨.off, []⟩
  readings : s.readings j = []
  offset : s.tscOffsets j = none

structure Machines.Served (s : Machines) (j : Nat) : Prop where
  place : (s.aps j).place = .awaitReset 2 ∨ (s.aps j).place = .idle
  measured : s.Measured j

/-- What holds as long as boot_ap has not given up a processor that answers. -/
structure Machines.Sound (n : Nat) (answers : Nat → Bool) (s : Machines) : Prop where
  range : s.bsp ≠ .returned → 0 < s.bsp.cpu n ∧ s.bsp.cpu n < n
  current : Phase (answers (s.bsp.cpu n)) s.bsp s.words (s.aps (s.bsp.cpu n))
    (s.readings (s.bsp.cpu n)) (s.tscOffsets (s.bsp.cpu n))
  later : ∀ j, s.bsp.cpu n < j → s.Untouched j
  served : ∀ j, j < s.bsp.cpu n → responds answers j = true → s.Served j
  silent : ∀ j, j < s.bsp.cpu n → responds answers j = false → s.Untouched j
  count : s.words.apStartedCount = answeredBelow answers (s.bsp.cpu n) +
    if (s.aps (s.bsp.cpu n)).place.counted then 1 else 0
  level : s.bsp.measures = true → ∀ j, 0 < j → j < s.bsp.cpu n → answers j = true
  noGap : ∀ i, i < s.bsp.cpu n → responds answers i = true →
    ∀ j, 0 < j → j < i → answers j = true

section Sound
variable {n : Nat} {answers : Nat → Bool}

theorem nextAp_cpu (few : i + 1 ≤ max n 1) : (nextAp n i).cpu n = i + 1 := by
  unfold nextAp
  split
  · rfl
  · change max n 1 = i + 1
    omega

theorem nextAp_sound {s : Machines} (few : i + 1 ≤ max n 1) (place : s.bsp = nextAp n i)
    (later : ∀ j, i < j → s.Untouched j)
    (served : ∀ j, j ≤ i → responds answers j = true → s.Served j)
    (silent : ∀ j, j ≤ i → responds answers j = false → s.Untouched j)
    (count : s.words.apStartedCount = answeredBelow answers (i + 1))
    (noGap : ∀ k, k ≤ i → responds answers k = true → ∀ j, 0 < j → j < k → answers j = true) :
    s.Sound n answers := by
  have cpu : s.bsp.cpu n = i + 1 := by rw [place, nextAp_cpu few]
  have next := later (i + 1) (Nat.lt_succ_self i)
  constructor
  · intro active
    rw [cpu]
    refine ⟨Nat.succ_pos i, ?_⟩
    by_contra last
    rw [place, nextAp, if_neg last] at active
    exact active rfl
  · rw [cpu, place, next.ap, next.readings, next.offset]
    unfold nextAp
    split <;> exact ⟨rfl, rfl, rfl⟩
  · intro j less
    exact later j (by omega)
  · intro j less yes
    exact served j (by omega) yes
  · intro j less no
    exact silent j (by omega) no
  · rw [cpu, next.ap, count]
    rfl
  · intro measures
    rw [place] at measures
    unfold nextAp at measures
    split at measures <;> cases measures
  · intro k less yes
    exact noGap k (by omega) yes

theorem bringupStart_sound : (bringupStart n).Sound n answers := by
  have first : ∀ j, j ≤ 0 → responds answers j = false := by
    intro j low
    rw [Nat.le_zero.mp low]
    rfl
  apply nextAp_sound (i := 0) (Nat.le_max_right n 1)
  · by_cases single : n ≤ 1
    · simp [bringupStart, nextAp, single]
    · simp [bringupStart, nextAp, single, show 1 < n by omega]
  · exact fun j _ => ⟨rfl, rfl, rfl⟩
  · intro j low yes
    rw [first j low] at yes
    cases yes
  · exact fun j _ _ => ⟨rfl, rfl, rfl⟩
  · simp [bringupStart, answeredBelow, responds]
  · intro k low yes
    rw [first k low] at yes
    cases yes

/-! One step of a started processor. -/

theorem counted_apMain (tsc : Nat) :
    (apMain w a tsc).1.apStartedCount + (if a.place.counted then 1 else 0) =
      w.apStartedCount + if (apMain w a tsc).2.place.counted then 1 else 0 := by
  unfold apMain
  cases here : a.place with
  | off | trampoline | main | rdtsc _ | publish _ _ | answer _ | idle =>
    simp [here, ApPlace.counted]
  | awaitOne => by_cases one : w.syncState = 1 <;> simp [here, one, ApPlace.counted]
  | awaitReset r =>
    by_cases two : w.syncState = 2
    · simp [here, two, ApPlace.counted]
    · by_cases more : r + 1 < 3 <;> simp [two, more, ApPlace.counted]

theorem served_apMain (tsc : Nat) (done : a.place = .awaitReset 2 ∨ a.place = .idle) :
    (apMain w a tsc).1 = w ∧ (apMain w a tsc).2.readings = a.readings ∧
      ((apMain w a tsc).2.place = .awaitReset 2 ∨ (apMain w a tsc).2.place = .idle) := by
  rcases done with here | here
  · by_cases two : w.syncState = 2 <;> simp [apMain, here, two]
  · simp [apMain, here]

variable {s : Machines}

theorem aside_apMain (sound : s.Sound n answers) (aside : i ≠ s.bsp.cpu n) (tsc : Nat) :
    (apMain s.words (s.aps i) tsc).1 = s.words ∧
      (s.Untouched i → (apMain s.words (s.aps i) tsc).2 = s.aps i) ∧
      (s.Served i → (apMain s.words (s.aps i) tsc).2.readings = (s.aps i).readings ∧
        ((apMain s.words (s.aps i) tsc).2.place = .awaitReset 2 ∨
          (apMain s.words (s.aps i) tsc).2.place = .idle)) := by
  have calm : s.Untouched i ∨ s.Served i := by
    rcases Nat.lt_or_gt_of_ne aside with before | behind
    · cases yes : responds answers i with
      | false => exact .inl (sound.silent i before yes)
      | true => exact .inr (sound.served i before yes)
    · exact .inl (sound.later i behind)
  have untouched : s.Untouched i → apMain s.words (s.aps i) tsc = (s.words, s.aps i) := by
    intro clean
    apply off_apMain
    rw [clean.ap]
  refine ⟨?_, ?_, ?_⟩
  · rcases calm with clean | done
    · rw [untouched clean]
    · exact (served_apMain tsc done.place).1
  · intro clean
    rw [untouched clean]
  · intro done
    exact (served_apMain tsc done.place).2

theorem ap_untouched (clean : s.Untouched j) (same : j = i → a = s.aps i) :
    Machines.Untouched { s with words := w, aps := update s.aps i a } j := by
  refine ⟨?_, clean.readings, clean.offset⟩
  by_cases here : j = i
  · change update s.aps i a j = _
    rw [here, update_self, same here, ← here]
    exact clean.ap
  · change update s.aps i a j = _
    rw [update_of_ne here]
    exact clean.ap

theorem ap_served (done : s.Served j)
    (same : j = i → a.readings = (s.aps i).readings ∧ (a.place = .awaitReset 2 ∨ a.place = .idle)) :
    Machines.Served { s with words := w, aps := update s.aps i a } j := by
  by_cases here : j = i
  · subst here
    obtain ⟨readings, place⟩ := same rfl
    have new : ({ s with words := w, aps := update s.aps j a } : Machines).aps j = a :=
      update_self ..
    refine ⟨?_, done.measured.bsp, ?_, ?_⟩
    · rw [new]
      exact place
    · rw [new, readings]
      exact done.measured.ap
    · rw [new, readings]
      exact done.measured.offset
  · have old : ({ s with words := w, aps := update s.aps i a } : Machines).aps j =
        s.aps j := update_of_ne here ..
    refine ⟨?_, done.measured.bsp, ?_, ?_⟩
    · rw [old]
      exact done.place
    · rw [old]
      exact done.measured.ap
    · rw [old]
      exact done.measured.offset

theorem ap_sound (sound : s.Sound n answers) (i tsc : Nat) :
    (bringupStep n answers s (.ap i) tsc).Sound n answers := by
  have others : ∀ j, j ≠ s.bsp.cpu n → s.Untouched j →
      (bringupStep n answers s (.ap i) tsc).Untouched j := by
    intro j aside clean
    apply ap_untouched clean
    intro same
    subst same
    exact (aside_apMain sound aside tsc).2.1 clean
  have done : ∀ j, j ≠ s.bsp.cpu n → s.Served j →
      (bringupStep n answers s (.ap i) tsc).Served j := by
    intro j aside before
    apply ap_served before
    intro same
    subst same
    exact (aside_apMain sound aside tsc).2.2 before
  have pair : Phase (answers (s.bsp.cpu n)) s.bsp (bringupStep n answers s (.ap i) tsc).words
      ((bringupStep n answers s (.ap i) tsc).aps (s.bsp.cpu n)) (s.readings (s.bsp.cpu n))
      (s.tscOffsets (s.bsp.cpu n)) ∧
      (bringupStep n answers s (.ap i) tsc).words.apStartedCount =
        answeredBelow answers (s.bsp.cpu n) +
          if ((bringupStep n answers s (.ap i) tsc).aps (s.bsp.cpu n)).place.counted
          then 1 else 0 := by
    have count := sound.count
    by_cases here : i = s.bsp.cpu n
    · have new : (bringupStep n answers s (.ap i) tsc).aps (s.bsp.cpu n) =
          (apMain s.words (s.aps (s.bsp.cpu n)) tsc).2 := by
        rw [here]
        exact update_self ..
      have words : (bringupStep n answers s (.ap i) tsc).words =
          (apMain s.words (s.aps (s.bsp.cpu n)) tsc).1 := by
        rw [here]
        rfl
      rw [new, words]
      refine ⟨phase_apMain tsc sound.current, ?_⟩
      have moved := counted_apMain (w := s.words) (a := s.aps (s.bsp.cpu n)) tsc
      omega
    · have old : (bringupStep n answers s (.ap i) tsc).aps (s.bsp.cpu n) = s.aps (s.bsp.cpu n) :=
        update_of_ne (Ne.symm here) ..
      have words : (bringupStep n answers s (.ap i) tsc).words = s.words :=
        (aside_apMain sound here tsc).1
      rw [old, words]
      exact ⟨sound.current, count⟩
  constructor
  · exact sound.range
  · exact pair.1
  · exact fun j behind => others j (Nat.ne_of_gt behind) (sound.later j behind)
  · exact fun j before yes => done j (Nat.ne_of_lt before) (sound.served j before yes)
  · exact fun j before no => others j (Nat.ne_of_lt before) (sound.silent j before no)
  · exact pair.2
  · exact sound.level
  · exact sound.noGap

/-! One step of boot_aps. -/

structure OnlyAt (s s' : Machines) (i : Nat) : Prop where
  aps : ∀ j, j ≠ i → s'.aps j = s.aps j
  readings : ∀ j, j ≠ i → s'.readings j = s.readings j
  offsets : ∀ j, j ≠ i → s'.tscOffsets j = s.tscOffsets j
  count : s'.words.apStartedCount = s.words.apStartedCount

theorem OnlyAt.untouched (only : OnlyAt s s' i) (other : j ≠ i) (clean : s.Untouched j) :
    s'.Untouched j := by
  constructor
  · rw [only.aps j other]
    exact clean.ap
  · rw [only.readings j other]
    exact clean.readings
  · rw [only.offsets j other]
    exact clean.offset

theorem OnlyAt.served (only : OnlyAt s s' i) (other : j ≠ i) (done : s.Served j) : s'.Served j := by
  constructor
  · rw [only.aps j other]
    exact done.place
  constructor
  · rw [only.readings j other]
    exact done.measured.bsp
  · rw [only.aps j other]
    exact done.measured.ap
  · rw [only.offsets j other, only.readings j other, only.aps j other]
    exact done.measured.offset

theorem Machines.Sound.at (sound : s.Sound n answers) (place : s.bsp = p) :
    Phase (answers (p.cpu n)) p s.words (s.aps (p.cpu n)) (s.readings (p.cpu n))
      (s.tscOffsets (p.cpu n)) := by
  subst place
  exact sound.current

theorem same_ap_sound (sound : s.Sound n answers)
    (place : s.bsp = p) (active : p ≠ .returned) (only : OnlyAt s s' (p.cpu n))
    (stays : s'.bsp.cpu n = p.cpu n)
    (counted : (s'.aps (p.cpu n)).place.counted = (s.aps (p.cpu n)).place.counted)
    (phase : Phase (answers (p.cpu n)) s'.bsp s'.words (s'.aps (p.cpu n)) (s'.readings (p.cpu n))
      (s'.tscOffsets (p.cpu n))) (level : s'.bsp.measures = true → p.measures = true ∨
      ∀ j, 0 < j → j < p.cpu n → answers j = true) :
    s'.Sound n answers := by
  subst place
  constructor
  · intro _
    rw [stays]
    exact sound.range active
  · rw [stays]
    exact phase
  · intro j behind
    rw [stays] at behind
    exact only.untouched (Nat.ne_of_gt behind) (sound.later j behind)
  · intro j before yes
    rw [stays] at before
    exact only.served (Nat.ne_of_lt before) (sound.served j before yes)
  · intro j before no
    rw [stays] at before
    exact only.untouched (Nat.ne_of_lt before) (sound.silent j before no)
  · rw [stays, only.count, counted]
    exact sound.count
  · intro measures
    rw [stays]
    rcases level measures with old | new
    · exact sound.level old
    · exact new
  · rw [stays]
    exact sound.noGap

theorem next_ap_sound {s' : Machines} (sound : s.Sound n answers)
    (place : s.bsp = p) (active : p ≠ .returned) (only : OnlyAt s s' (p.cpu n))
    (moves : s'.bsp = nextAp n (p.cpu n)) (done : answers (p.cpu n) = true → s'.Served (p.cpu n) ∧
      (s.aps (p.cpu n)).place.counted = true ∧ p.measures = true)
    (given : answers (p.cpu n) = false → s'.Untouched (p.cpu n) ∧
      (s.aps (p.cpu n)).place = .off) :
    s'.Sound n answers := by
  subst place
  obtain ⟨positive, less⟩ := sound.range active
  have same : responds answers (s.bsp.cpu n) = answers (s.bsp.cpu n) := by
    simp [responds, positive]
  apply nextAp_sound (by omega) moves
  · intro j behind
    exact only.untouched (Nat.ne_of_gt behind) (sound.later j behind)
  · intro j low yes
    by_cases last : j = s.bsp.cpu n
    · rw [last] at yes ⊢
      exact (done (same ▸ yes)).1
    · exact only.served last (sound.served j (by omega) yes)
  · intro j low no
    by_cases last : j = s.bsp.cpu n
    · rw [last] at no ⊢
      exact (given (same ▸ no)).1
    · exact only.untouched last (sound.silent j (by omega) no)
  · rw [only.count, sound.count, answeredBelow_succ, same]
    cases yes : answers (s.bsp.cpu n) with
    | false =>
      rw [(given yes).2]
      rfl
    | true =>
      rw [(done yes).2.1]
  · intro k low yes
    by_cases last : k = s.bsp.cpu n
    · rw [last] at yes ⊢
      exact sound.level (done (same ▸ yes)).2.2
    · exact sound.noGap k (by omega) yes

theorem onlyAt_place : OnlyAt s { s with bsp := place } i :=
  ⟨fun _ _ => rfl, fun _ _ => rfl, fun _ _ => rfl, rfl⟩

theorem onlyAt_words (count : w.apStartedCount = s.words.apStartedCount) :
    OnlyAt s { s with words := w, bsp := place } i :=
  ⟨fun _ _ => rfl, fun _ _ => rfl, fun _ _ => rfl, count⟩

variable {i : Nat}

section
variable (sound : s.Sound n answers)
include sound

theorem prepare_sound (place : s.bsp = .prepare i) (tsc : Nat) :
    (bootAp n answers s tsc).Sound n answers := by
  obtain ⟨off, mine, blank⟩ := sound.at place
  simp only [bootAp, place]
  refine same_ap_sound sound place (by simp) (onlyAt_words rfl) rfl rfl ?_
    (by simp [BspPlace.measures])
  exact ⟨off, mine, blank, rfl, rfl⟩

theorem sipi_sound (place : s.bsp = .sipi i) (tsc : Nat) :
    (bootAp n answers s tsc).Sound n answers := by
  obtain ⟨off, mine, blank, sync, ready⟩ := sound.at place
  change s.aps i = _ at off
  simp only [bootAp, place]
  cases yes : answers i with
  | false =>
    refine same_ap_sound sound place (by simp) onlyAt_place rfl rfl ?_ (by simp [BspPlace.measures])
    change Phase (answers i) (.poll i 0) s.words (s.aps i) _ _
    rw [yes, off]
    exact ⟨rfl, mine, blank, sync, rfl, ready⟩
  | true =>
    have new : update s.aps i { s.aps i with place := .trampoline } i =
        ⟨.trampoline, []⟩ := by
      rw [update_self, off]
    refine same_ap_sound sound place (by simp) ?_ rfl ?_ ?_ (by simp [BspPlace.measures])
    · exact ⟨fun j other => update_of_ne other .., fun _ _ => rfl, fun _ _ => rfl, rfl⟩
    · change (update s.aps i _ i).place.counted = (s.aps i).place.counted
      rw [new, off]
      rfl
    · change Phase (answers i) (.poll i 0) s.words (update s.aps i _ i) _ _
      rw [yes, new]
      exact ⟨rfl, mine, blank, sync, .woken rfl ready⟩

theorem poll_sound (timely : s.InTime answers)
    (place : s.bsp = .poll i waited) (tsc : Nat) : (bootAp n answers s tsc).Sound n answers := by
  obtain ⟨fresh, mine, blank, sync, state⟩ := sound.at place
  change if answers i then Starting s.words (s.aps i)
    else (s.aps i).place = .off ∧ s.words.ready = 0 at state
  simp only [bootAp, place]
  by_cases soon : waited < 1000000
  · by_cases ready : s.words.ready = 1
    · rw [if_pos soon, if_pos ready]
      have began : answers i = true ∧
          ((s.aps i).place = .main ∨ (s.aps i).place = .awaitOne 0) := by
        cases yes : answers i with
        | false =>
          rw [yes] at state
          rw [state.2] at ready
          cases ready
        | true =>
          rw [yes] at state
          cases state with
          | woken _ zero =>
            rw [zero] at ready
            cases ready
          | running at_ => exact ⟨rfl, at_⟩
      refine same_ap_sound sound place (by simp) onlyAt_place rfl rfl ?_
        (by simp [BspPlace.measures])
      exact ⟨began.1, fresh, mine, blank, sync, began.2⟩
    · rw [if_pos soon, if_neg ready]
      refine same_ap_sound sound place (by simp) onlyAt_place rfl rfl ?_
        (by simp [BspPlace.measures])
      exact ⟨fresh, mine, blank, sync, state⟩
  · rw [if_neg soon]
    have no := timely i waited place (Nat.le_of_not_lt soon)
    rw [no] at state
    refine next_ap_sound sound place (by simp) onlyAt_place rfl ?_ ?_
    · intro yes
      change answers i = true at yes
      rw [no] at yes
      cases yes
    · intro _
      exact ⟨⟨by rw [← state.1, ← fresh]; rfl, mine, blank⟩, state.1⟩

theorem awaitStarted_sound (place : s.bsp = .awaitStarted i)
    (tsc : Nat) : (bootAp n answers s tsc).Sound n answers := by
  obtain ⟨yes, fresh, mine, blank, sync, began⟩ := sound.at place
  have count : s.words.apStartedCount =
      answeredBelow answers i + if (s.aps i).place.counted then 1 else 0 := by
    have all := sound.count
    rw [place] at all
    exact all
  have positive : 0 < i := by
    have inside := sound.range (by rw [place]; simp)
    rw [place] at inside
    exact inside.1
  simp only [BspPlace.cpu] at fresh mine began
  simp only [bootAp, place]
  by_cases short : s.words.apStartedCount < i
  · rw [if_pos short]
    exact sound
  rw [if_neg short]
  have below := answeredBelow_lt answers positive
  have waits : (s.aps i).place = .awaitOne 0 := by
    rcases began with main | waits
    · rw [main] at count
      simp only [ApPlace.counted, Bool.false_eq_true, if_false] at count
      omega
    · exact waits
  rw [waits] at count
  simp only [ApPlace.counted, if_true] at count
  refine same_ap_sound sound place (by simp) onlyAt_place rfl rfl ?_ ?_
  · refine ⟨yes, blank, by decide, ?_, .inl waits, ?_, .inl waits⟩
    · change Paired [] (s.readings i) (s.aps i).readings
      rw [mine, fresh]
      exact ⟨rfl, rfl⟩
    · rw [sync]
      decide
  · intro _
    exact .inr ((answeredBelow_full positive).mp (by omega))

theorem round_sound (tsc : Nat) :
    (∀ offsets, s.bsp = .reset i offsets → (bootAp n answers s tsc).Sound n answers) ∧
      (∀ offsets, s.bsp = .signal i offsets → (bootAp n answers s tsc).Sound n answers) ∧
      ∀ offsets, s.bsp = .rdtsc i offsets → (bootAp n answers s tsc).Sound n answers := by
  refine ⟨?_, ?_, ?_⟩
  · intro offsets place
    obtain ⟨yes, blank, few, paired, awaits, _⟩ := sound.at place
    simp only [bootAp, place]
    refine same_ap_sound sound place (by simp) (onlyAt_words rfl) rfl rfl ?_ (fun _ => .inl rfl)
    exact ⟨yes, blank, few, paired, awaits, rfl⟩
  · intro offsets place
    obtain ⟨yes, blank, few, paired, awaits, _⟩ := sound.at place
    simp only [bootAp, place]
    refine same_ap_sound sound place (by simp) (onlyAt_words rfl) rfl rfl ?_ (fun _ => .inl rfl)
    exact ⟨yes, blank, few, _, paired, .asked (.inl awaits) rfl rfl⟩
  · intro offsets place
    obtain ⟨yes, blank, few, theirs, paired, round⟩ := sound.at place
    simp only [bootAp, place]
    refine same_ap_sound sound place (by simp) ?_ rfl rfl ?_ (fun _ => .inl rfl)
    · exact ⟨fun _ _ => rfl, fun j other => update_of_ne other .., fun _ _ => rfl, rfl⟩
    · exact ⟨yes, blank, few, s.readings i, theirs, update_self .., paired, round⟩

theorem awaitTwo_sound (place : s.bsp = .awaitTwo i offsets bspTsc)
    (tsc : Nat) : (bootAp n answers s tsc).Sound n answers := by
  obtain ⟨yes, blank, few, before, theirs, split, paired, round⟩ := sound.at place
  simp only [bootAp, place]
  by_cases two : s.words.syncState = 2
  · rw [if_pos two]
    refine same_ap_sound sound place (by simp) onlyAt_place rfl rfl ?_ (fun _ => .inl rfl)
    cases round with
    | asked _ one _ | read _ _ one _ =>
      rw [one] at two
      cases two
    | answered _ waits word _ new =>
      rw [← word] at new
      exact ⟨yes, blank, few, two, waits, before, theirs, split, paired, new⟩
  · rw [if_neg two]
    exact sound

theorem subtract_sound (place : s.bsp = .subtract i offsets bspTsc)
    (tsc : Nat) : (bootAp n answers s tsc).Sound n answers := by
  obtain ⟨yes, blank, few, two, waits, before, theirs, split, paired, new⟩ := sound.at place
  have longer := paired.snoc bspTsc s.words.apTsc
  rw [← split, ← new] at longer
  have length : (offsets ++ [difference bspTsc s.words.apTsc]).length = offsets.length + 1 :=
    List.length_append
  simp only [bootAp, place]
  by_cases more : (offsets ++ [difference bspTsc s.words.apTsc]).length < 3
  · rw [if_pos more]
    refine same_ap_sound sound place (by simp) onlyAt_place rfl rfl ?_ (fun _ => .inl rfl)
    refine ⟨yes, blank, more, longer, .inr ⟨offsets.length, length, waits⟩, ?_, .inr two⟩
    rw [two]
    decide
  · rw [if_neg more]
    refine same_ap_sound sound place (by simp) onlyAt_place rfl rfl ?_ (fun _ => .inl rfl)
    have last : offsets.length = 2 := by omega
    rw [last] at waits
    exact ⟨yes, blank, by omega, two, waits, longer⟩

theorem store_sound (place : s.bsp = .store i offsets) (tsc : Nat) :
    (bootAp n answers s tsc).Sound n answers := by
  obtain ⟨yes, blank, three, two, waits, paired⟩ := sound.at place
  simp only [bootAp, place]
  refine same_ap_sound sound place (by simp) ?_ rfl rfl ?_ (fun _ => .inl rfl)
  · exact ⟨fun _ _ => rfl, fun _ _ => rfl, fun j other => update_of_ne other .., rfl⟩
  · exact ⟨yes, waits, offsets, update_self .., three, two, paired⟩

theorem finish_sound (place : s.bsp = .finish i) (tsc : Nat) :
    (bootAp n answers s tsc).Sound n answers := by
  obtain ⟨yes, waits, offsets, stored, three, two, paired⟩ := sound.at place
  obtain ⟨mine, theirs⟩ := paired.length
  simp only [bootAp, place]
  refine next_ap_sound sound place (by simp) (onlyAt_words rfl) rfl ?_ ?_
  · intro _
    rw [three] at mine theirs
    refine ⟨⟨.inl waits, ⟨mine, theirs, ?_⟩⟩, ?_, rfl⟩
    · rw [paired.1] at stored
      exact stored
    · rw [waits]
      rfl
  · intro no
    rw [yes] at no
    cases no

theorem bringupStep_sound (timely : s.InTime answers) (p : Party)
    (tsc : Nat) : (bringupStep n answers s p tsc).Sound n answers := by
  cases p with
  | ap i => exact ap_sound sound i tsc
  | bsp =>
    change (bootAp n answers s tsc).Sound n answers
    cases place : s.bsp with
    | prepare => exact prepare_sound sound place tsc
    | sipi => exact sipi_sound sound place tsc
    | poll => exact poll_sound sound timely place tsc
    | awaitStarted => exact awaitStarted_sound sound place tsc
    | reset i offsets => exact (round_sound sound tsc).1 offsets place
    | signal i offsets => exact (round_sound sound tsc).2.1 offsets place
    | rdtsc i offsets => exact (round_sound sound tsc).2.2 offsets place
    | awaitTwo => exact awaitTwo_sound sound place tsc
    | subtract => exact subtract_sound sound place tsc
    | store => exact store_sound sound place tsc
    | finish => exact finish_sound sound place tsc
    | returned =>
      simp only [bootAp, place]
      exact sound

end

end Sound

end TynKernel.Smp
