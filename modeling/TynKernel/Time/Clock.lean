import Mathlib.Order.Bounds.Image
import TynKernel.Lib.Numbers
import TynKernel.Lib.Runs

/-!
The monotonic clock of syscall.rs. A call reads the time-stamp counter of its CPU, adds the
offset of that CPU, converts the sum to nanoseconds and ratchets a global maximum.
-/
namespace TynKernel.Time
open Function List Numbers Runs

/-- calibrate_tsc, from its two readings of the counter: the ticks in the time in which the
    timer counts 11932 down at 1193182 Hz. -/
def calibrateTsc (tscStart tscEnd : Nat) : Nat :=
  let tscTicks := asU64 (tscEnd - tscStart)
  tscTicks * 1193182 % 2 ^ 64 / 11932

def freqMhz (freqHz : Nat) : Nat := freqHz / 1000000

def correctedTsc (rawTsc : Nat) (offset : Int) : Nat := asU64 (asI64 (asI64 rawTsc + offset))

def totalNs (freqMhz tsc : Nat) : Nat :=
  if 0 < freqMhz then tsc * 1000 % 2 ^ 64 / freqMhz else tsc / 2

def exactNs (freqMhz : Nat) (tsc : Int) : Nat := tsc.toNat * 1000 / freqMhz

def Word (tsc : Int) : Prop := 0 ≤ tsc ∧ tsc < 2 ^ 64

instance (tsc : Int) : Decidable (Word tsc) := inferInstanceAs (Decidable (_ ∧ _))

theorem correctedTsc_eq {rawTsc : Nat} (word : Word (rawTsc + offset)) :
    correctedTsc rawTsc offset = (rawTsc + offset).toNat := by
  obtain ⟨low, high⟩ := word
  have same : asI64 (asI64 rawTsc + offset) % 2 ^ 64 = (rawTsc + offset) % 2 ^ 64 := by
    rw [asI64_add]
    exact Int.bmod_emod
  rw [correctedTsc, asU64, same]
  omega

theorem totalNs_le_exactNs (positive : 0 < mhz) (tsc : Int) :
    totalNs mhz tsc.toNat ≤ exactNs mhz tsc := by
  rw [totalNs, if_pos positive, exactNs]
  exact Nat.div_le_div_right (Nat.mod_le _ _)

theorem totalNs_eq_iff (positive : 0 < mhz) (word : mhz < 2 ^ 64) (tsc : Int) :
    totalNs mhz tsc.toNat = exactNs mhz tsc ↔ tsc.toNat * 1000 < 2 ^ 64 := by
  rw [totalNs, if_pos positive, exactNs]
  constructor
  · by_contra wraps
    have decrease : tsc.toNat * 1000 % 2 ^ 64 + mhz ≤ tsc.toNat * 1000 := by omega
    have less := Nat.div_le_div_right (c := mhz) decrease
    rw [Nat.add_div_right _ positive] at less
    omega
  · intro small
    rw [Nat.mod_eq_of_lt small]

/-- Where a CPU is in monotonic_ns, with the values it has loaded. Interrupts are off, so a CPU
    is in one call at most. -/
inductive Place where
  | outside
  | stamped (rawTsc : Nat)
  | corrected (rawTsc : Nat) (offset : Int)
  | converted (rawTsc : Nat) (offset : Int) (totalNs : Nat)
  | ratcheted (result : Nat)
  deriving DecidableEq, Repr

structure State where
  freqHz : Nat
  tscOffsets : Nat → Int
  lastTimeNs : Nat
  lastReturnedPerCpu : Nat → Nat
  place : Nat → Place

def boot (freqHz : Nat) (tscOffsets : Nat → Int) : State :=
  ⟨freqHz, tscOffsets, 0, fun _ => 0, fun _ => .outside⟩

/-- A CPU enters monotonic_ns and reads its counter, goes on in it, or the offset of a CPU is
    stored by measure_tsc_offset. -/
inductive Action where
  | call (cpu rawTsc : Nat)
  | cpu (cpu : Nat)
  | measured (cpu : Nat) (offset : Int)
  deriving DecidableEq, Repr

def State.goto (s : State) (cpu : Nat) (p : Place) : State :=
  { s with place := Function.update s.place cpu p }

def step (s : State) : Action → Option State
  | .call c rawTsc =>
    if s.place c = .outside ∧ rawTsc < 2 ^ 64 then some (s.goto c (.stamped rawTsc)) else none
  | .cpu c =>
    match s.place c with
    | .outside => none
    | .stamped rawTsc =>
      some (s.goto c (.corrected rawTsc (if c < 16 then s.tscOffsets c else 0)))
    | .corrected rawTsc offset =>
      some (s.goto c
        (.converted rawTsc offset (totalNs (freqMhz s.freqHz) (correctedTsc rawTsc offset))))
    -- fetch_max
    | .converted _ _ ns =>
      some { s.goto c (.ratcheted (max s.lastTimeNs ns)) with lastTimeNs := max s.lastTimeNs ns }
    | .ratcheted result =>
      some { s.goto c .outside with
        lastReturnedPerCpu :=
          if c < 16 then
            Function.update s.lastReturnedPerCpu c (max (s.lastReturnedPerCpu c) result)
          else s.lastReturnedPerCpu }
  | .measured c offset => some { s with tscOffsets := Function.update s.tscOffsets c offset }

def returned (s : State) : Action → Option Nat
  | .cpu c =>
    match s.place c with
    | .ratcheted result => some result
    | _ => none
  | _ => none

def fetched (s : State) : Action → Option Int
  | .cpu c =>
    match s.place c with
    | .converted rawTsc offset _ => some (rawTsc + offset)
    | _ => none
  | _ => none

def ticks (past : List (State × Action)) : List Int := past.filterMap fun e => fetched e.1 e.2

def Place.result : Place → Option Nat
  | .ratcheted result => some result
  | _ => none

/-- What the place of a CPU tells about the values it holds: a conversion is that of the sum, and
    a result lies between what the CPU has returned so far and the clock. -/
def Place.Fits (mhz last own : Nat) : Place → Prop
  | .converted rawTsc offset ns => ns = totalNs mhz (correctedTsc rawTsc offset)
  | .ratcheted result => own ≤ result ∧ result ≤ last
  | _ => True

inductive Stepped (s : State) : Action → State → Prop where
  | early {a : Action} {c : Nat} {p : Place} (quiet : fetched s a = none ∧ returned s a = none)
      (before : (s.place c).result = none) (after : p.result = none)
      (fits : ∀ last own, p.Fits (freqMhz s.freqHz) last own) : Stepped s a (s.goto c p)
  | fetch {c rawTsc ns : Nat} {offset : Int} (here : s.place c = .converted rawTsc offset ns) :
      Stepped s (.cpu c)
        { s.goto c (.ratcheted (max s.lastTimeNs ns)) with lastTimeNs := max s.lastTimeNs ns }
  | ret {c result : Nat} {own : Nat → Nat} (here : s.place c = .ratcheted result)
      (others : ∀ d, d ≠ c → own d = s.lastReturnedPerCpu d)
      (mine : own c = s.lastReturnedPerCpu c ∨ own c = max (s.lastReturnedPerCpu c) result) :
      Stepped s (.cpu c) { s.goto c .outside with lastReturnedPerCpu := own }
  | measured (c : Nat) (offset : Int) :
      Stepped s (.measured c offset)
        { s with tscOffsets := Function.update s.tscOffsets c offset }

variable {s' : State} {a : Action} {c r : Nat} {p : Place} {sums : List Int}

theorem step_cases (taken : step s a = some s') : Stepped s a s' := by
  cases a with
  | call =>
    simp only [step] at taken
    split at taken
    · rename_i guard
      obtain rfl := Option.some.inj taken
      exact .early ⟨rfl, rfl⟩ (by rw [guard.1]; rfl) rfl (fun _ _ => trivial)
    · cases taken
  | cpu c =>
    cases here : s.place c with
    | outside =>
      simp only [step, here] at taken
      cases taken
    | stamped =>
      simp only [step, here, Option.some.injEq] at taken
      subst taken
      refine .early ?_ (by rw [here]; rfl) rfl (fun _ _ => trivial)
      simp [fetched, returned, here]
    | corrected =>
      simp only [step, here, Option.some.injEq] at taken
      subst taken
      refine .early ?_ (by rw [here]; rfl) rfl (fun _ _ => rfl)
      simp [fetched, returned, here]
    | converted =>
      simp only [step, here, Option.some.injEq] at taken
      subst taken
      exact .fetch here
    | ratcheted =>
      simp only [step, here, Option.some.injEq] at taken
      subst taken
      refine .ret here ?_ ?_
      · intro d other
        split
        · exact update_of_ne other _ _
        · rfl
      · split
        · exact .inr (update_self _ _ _)
        · exact .inl rfl
  | measured c offset =>
    obtain rfl := Option.some.inj taken
    exact .measured c offset

theorem goto_here (s : State) (c : Nat) (p : Place) : (s.goto c p).place c = p :=
  update_self ..

theorem goto_there (s : State) (p : Place) (other : d ≠ c) :
    (s.goto c p).place d = s.place d := update_of_ne other ..

theorem forall_goto {s : State} {P : Nat → Place → Prop} (here : P c p)
    (others : ∀ d, d ≠ c → P d (s.place d)) : ∀ d, P d ((s.goto c p).place d) := by
  intro d
  by_cases same : d = c
  · rw [same, goto_here]
    exact here
  · rw [goto_there s p same]
    exact others d same

structure Sound (mhz : Nat) (s : State) : Prop where
  freq : freqMhz s.freqHz = mhz
  fits : ∀ c, (s.place c).Fits mhz s.lastTimeNs (s.lastReturnedPerCpu c)
  returned : ∀ c, s.lastReturnedPerCpu c ≤ s.lastTimeNs

theorem boot_sound (freqHz : Nat) (tscOffsets : Nat → Int) :
    Sound (freqMhz freqHz) (boot freqHz tscOffsets) :=
  ⟨rfl, fun _ => trivial, fun _ => Nat.le_refl _⟩

theorem Sound.result {mhz result : Nat} (sound : Sound mhz s)
    (here : s.place c = .ratcheted result) :
    s.lastReturnedPerCpu c ≤ result ∧ result ≤ s.lastTimeNs := by
  have fits := sound.fits c
  rw [here] at fits
  exact fits

theorem fits_rise (fits : p.Fits mhz last own) (rise : last ≤ last') : p.Fits mhz last' own := by
  cases p with
  | ratcheted => exact ⟨fits.1, Nat.le_trans fits.2 rise⟩
  | converted => exact fits
  | outside | stamped | corrected => trivial

theorem step_sound {mhz : Nat} {s : State} (sound : Sound mhz s) (taken : step s a = some s') :
    Sound mhz s' := by
  cases step_cases taken with
  | @early _ c p quiet before after fits =>
    rw [sound.freq] at fits
    exact ⟨sound.freq,
      forall_goto (P := fun d q => q.Fits mhz s.lastTimeNs (s.lastReturnedPerCpu d)) (fits _ _)
        (fun d _ => sound.fits d), sound.returned⟩
  | @fetch c rawTsc ns =>
    have rise : s.lastTimeNs ≤ max s.lastTimeNs ns := Nat.le_max_left _ _
    refine ⟨sound.freq,
      forall_goto (P := fun d q => q.Fits mhz (max s.lastTimeNs ns) (s.lastReturnedPerCpu d)) ?_
        (fun d _ => fits_rise (sound.fits d) rise),
      fun d => Nat.le_trans (sound.returned d) rise⟩
    exact ⟨Nat.le_trans (sound.returned c) rise, Nat.le_refl _⟩
  | @ret c result own here others mine =>
    refine ⟨sound.freq,
      forall_goto (P := fun d q => q.Fits mhz s.lastTimeNs (own d)) trivial ?_, ?_⟩
    · intro d other
      rw [others d other]
      exact sound.fits d
    intro d
    show own d ≤ s.lastTimeNs
    by_cases same : d = c
    · subst same
      rcases mine with kept | raised
      · rw [kept]
        exact sound.returned d
      · rw [raised]
        exact Nat.max_le.mpr ⟨sound.returned d, (sound.result here).2⟩
    · rw [others d same]
      exact sound.returned d
  | measured => exact ⟨sound.freq, sound.fits, sound.returned⟩

theorem lastTimeNs_mono (taken : step s a = some s') : s.lastTimeNs ≤ s'.lastTimeNs := by
  cases step_cases taken with
  | fetch => exact Nat.le_max_left _ _
  | early | ret | measured => exact Nat.le_refl _

section Calls
variable {freqHz : Nat} {tscOffsets : Nat → Int} {past : List (State × Action)} {s : State}

theorem run_sound (run : Run step (boot freqHz tscOffsets) past s) : Sound (freqMhz freqHz) s :=
  run_invariant (Sound (freqMhz freqHz)) (boot_sound freqHz tscOffsets)
    (fun _ _ _ sound taken => step_sound sound taken) run

theorem returned_place (value : returned s a = some r) :
    ∃ c, a = .cpu c ∧ s.place c = .ratcheted r := by
  cases a with
  | cpu c =>
    simp only [returned] at value
    split at value
    · rename_i result here
      cases value
      exact ⟨c, rfl, here⟩
    · cases value
  | call c rawTsc | measured c offset => cases value

theorem returned_le (run : Run step (boot freqHz tscOffsets) past s) :
    ∀ e ∈ past, ∀ r, returned e.1 e.2 = some r → r ≤ s.lastTimeNs := by
  induction run with
  | nil =>
    intro e member
    cases member
  | @snoc past s s' a before taken ih =>
    intro e member r value
    refine Nat.le_trans ?_ (lastTimeNs_mono taken)
    rcases mem_cons.mp member with same | earlier
    · subst same
      obtain ⟨c, _, here⟩ := returned_place value
      exact ((run_sound before).result here).2
    · exact ih e earlier r value

def conversions (mhz : Nat) (sums : List Int) : Set Nat :=
  {ns | ∃ tsc ∈ sums, totalNs mhz tsc.toNat = ns}

theorem conversions_cons (mhz : Nat) (tsc : Int) (sums : List Int) :
    conversions mhz (tsc :: sums) = insert (totalNs mhz tsc.toNat) (conversions mhz sums) := by
  ext ns
  constructor
  · rintro ⟨own, member, rfl⟩
    rcases mem_cons.mp member with same | earlier
    · exact .inl (by rw [same])
    · exact .inr ⟨own, earlier, rfl⟩
  · rintro (rfl | ⟨own, earlier, rfl⟩)
    · exact ⟨tsc, mem_cons_self, rfl⟩
    · exact ⟨own, mem_cons_of_mem _ earlier, rfl⟩

theorem clock_greatest (run : Run step (boot freqHz tscOffsets) past s)
    (range : ∀ tsc ∈ ticks past, Word tsc) :
    IsGreatest (insert 0 (conversions (freqMhz freqHz) (ticks past))) s.lastTimeNs := by
  induction run with
  | nil =>
    refine ⟨Set.mem_insert _ _, ?_⟩
    rintro ns (zero | ⟨tsc, member, _⟩)
    · exact Nat.le_of_eq zero
    · cases member
  | @snoc past s s' a before taken ih =>
    have sound := run_sound before
    have unchanged : fetched s a = none → ticks ((s, a) :: past) = ticks past :=
      fun quiet => filterMap_cons_none quiet
    cases step_cases taken with
    | @fetch c rawTsc ns offset here =>
      have now : fetched s (.cpu c) = some (rawTsc + offset) := by
        simp [fetched, here]
      have more : ticks ((s, .cpu c) :: past) = (rawTsc + offset) :: ticks past :=
        filterMap_cons_some now
      rw [more] at range ⊢
      have value := sound.fits c
      rw [here, Place.Fits, correctedTsc_eq (range _ mem_cons_self)] at value
      have earlier := ih fun tsc member => range tsc (mem_cons_of_mem _ member)
      rw [conversions_cons, Set.insert_comm, ← value]
      exact max_comm ns s.lastTimeNs ▸ earlier.insert ns
    | @ret c result own here =>
      rw [unchanged (by simp only [fetched, here])] at range ⊢
      exact ih range
    | early quiet =>
      rw [unchanged quiet.1] at range ⊢
      exact ih range
    | measured =>
      exact ih range

theorem ratcheted_stays (after : Run step s later final) (own : ∀ e ∈ later, e.2 ≠ .cpu c)
    (here : s.place c = .ratcheted r) : final.place c = .ratcheted r := by
  refine run_invariant_of (fun _ a => a ≠ .cpu c) (fun s => s.place c = .ratcheted r) here ?_ after
    own
  intro s a s' at_ elsewhere taken
  have stays : ∀ d p, d ≠ c → (s.goto d p).place c = .ratcheted r := by
    intro d p other
    rw [goto_there s p (Ne.symm other)]
    exact at_
  cases step_cases taken with
  | @early _ d p quiet before =>
    refine stays d p ?_
    rintro rfl
    rw [at_] at before
    cases before
  | @fetch d rawTsc ns offset here | @ret d result own here others mine =>
    exact stays d _ fun same => elsewhere (by rw [same])
  | measured => exact at_

end Calls

/-- The result is the greatest exact time of the sums, as long as that is a 64-bit number. -/
def Exact (mhz : Nat) (sums : List Int) (result : Nat) : Prop :=
  ∀ ns, IsGreatest {ns | ∃ tsc ∈ sums, exactNs mhz tsc = ns} ns → ns < 2 ^ 64 → result = ns

def Unwrapped (mhz : Nat) (sums : List Int) : Prop :=
  ∀ ns, IsGreatest {ns | ∃ tsc ∈ sums, exactNs mhz tsc = ns} ns → ns < 2 ^ 64 →
    ∃ tsc ∈ sums, exactNs mhz tsc = ns ∧ tsc.toNat * 1000 < 2 ^ 64

theorem unwrapped_of_small (small : ∀ tsc ∈ sums, tsc.toNat * 1000 < 2 ^ 64) :
    Unwrapped mhz sums := by
  rintro ns ⟨⟨tsc, member, same⟩, _⟩ _
  exact ⟨tsc, member, same, small tsc member⟩

theorem exact_iff (positive : 0 < mhz) (word : mhz < 2 ^ 64)
    (greatest : IsGreatest (insert 0 (conversions mhz sums)) result) :
    Exact mhz sums result ↔ Unwrapped mhz sums := by
  constructor
  · rintro exact_ ns ⟨⟨own, member, same⟩, upper⟩ small
    obtain rfl := exact_ ns ⟨⟨own, member, same⟩, upper⟩ small
    rcases greatest.1 with zero | ⟨tsc, inside, value⟩
    · -- every exact time is zero, and zero is never a wrapped one
      have low := totalNs_le_exactNs positive own
      refine ⟨own, member, same, (totalNs_eq_iff positive word own).mp ?_⟩
      omega
    · have low := totalNs_le_exactNs positive tsc
      have high := upper ⟨tsc, inside, rfl⟩
      have reached : exactNs mhz tsc = result := by omega
      exact ⟨tsc, inside, reached, (totalNs_eq_iff positive word tsc).mp (by omega)⟩
  · intro unwrapped ns top small
    obtain ⟨tsc, member, same, fits⟩ := unwrapped ns top small
    have value := (totalNs_eq_iff positive word tsc).mpr fits
    have low := greatest.2 (.inr ⟨tsc, member, rfl⟩)
    rcases greatest.1 with zero | ⟨other, inside, reached⟩
    · omega
    · have below := totalNs_le_exactNs positive other
      have high := top.2 ⟨other, inside, rfl⟩
      omega

/-- A call returns no less than any call that has returned before its fetch_max, and it returns
    the greatest exact time of all calls up to that step if and only if some call that does not
    wrap around has that time. -/
theorem monotonic_ns_exact_iff {freqHz c rawTsc ns : Nat} {offset : Int} {tscOffsets : Nat → Int}
    {past later : List (State × Action)} {s s' final : State}
    (run : Run step (boot freqHz tscOffsets) past s) (taken : step s (.cpu c) = some s')
    (fetches : s.place c = .converted rawTsc offset ns) (after : Run step s' later final)
    (own : ∀ e ∈ later, e.2 ≠ .cpu c) (word : freqHz < 2 ^ 64) (calibrated : 1 ≤ freqMhz freqHz)
    (range : ∀ tsc ∈ (rawTsc + offset) :: ticks past, Word tsc) :
    ∃ result, returned final (.cpu c) = some result ∧
      (∀ e ∈ past, ∀ r, returned e.1 e.2 = some r → r ≤ result) ∧
      (Exact (freqMhz freqHz) ((rawTsc + offset) :: ticks past) result ↔
        Unwrapped (freqMhz freqHz) ((rawTsc + offset) :: ticks past)) := by
  have now : fetched s (.cpu c) = some (rawTsc + offset) := by
    simp [fetched, fetches]
  have more : ticks ((s, .cpu c) :: past) = (rawTsc + offset) :: ticks past :=
    filterMap_cons_some now
  have greatest := clock_greatest (.snoc run taken) (by rw [more]; exact range)
  rw [more] at greatest
  have small : freqMhz freqHz < 2 ^ 64 := Nat.lt_of_le_of_lt (Nat.div_le_self _ _) word
  have result : s'.place c = .ratcheted s'.lastTimeNs := by
    simp only [step, fetches, Option.some.injEq] at taken
    subst taken
    exact update_self _ _ _
  refine ⟨s'.lastTimeNs, ?_, ?_, exact_iff calibrated small greatest⟩
  · simp [returned, ratcheted_stays after own result]
  · intro e member r value
    exact Nat.le_trans (returned_le run e member r value) (lastTimeNs_mono taken)

theorem clock_keeps_up_with_other_cpu :
    ∃ past s s' later final, Run step (boot 2000000000 fun c => if c = 1 then 1000 else 0) past s ∧
      step s (.cpu 0) = some s' ∧ Run step s' later final ∧ later ≠ [] ∧ ticks past = [5000] ∧
      s.place 0 = .converted 4000 0 2000 ∧
      ∃ result, returned final (.cpu 0) = some result ∧
        (∀ e ∈ past, ∀ r, returned e.1 e.2 = some r → r ≤ result) ∧
        Exact 2000 [4000, 5000] result := by
  have other : Run step (boot 2000000000 fun c => if c = 1 then 1000 else 0) _ _ :=
    .snoc (a := .cpu 1) (.snoc (a := .cpu 1) (.snoc (a := .cpu 1) (.snoc (a := .cpu 1)
      (.snoc (a := .call 1 4000) .nil rfl) rfl) rfl) rfl) rfl
  have calls : ∃ past s s' final, Run step (boot 2000000000 fun c => if c = 1 then 1000 else 0) past s ∧
      step s (.cpu 0) = some s' ∧ Run step s' [(s', .call 1 9000)] final ∧ ticks past = [5000] ∧
      s.place 0 = .converted 4000 0 2000 :=
    ⟨_, _, _, _, .snoc (a := .cpu 0) (.snoc (a := .cpu 0) (.snoc (a := .call 0 4000) other rfl) rfl)
      rfl, rfl, .snoc .nil rfl, rfl, rfl⟩
  obtain ⟨past, s, s', final, run, taken, after, sums, here⟩ := calls
  obtain ⟨result, value, order, exact_⟩ := monotonic_ns_exact_iff run taken here after (by simp)
    (by decide) (by decide) (by rw [sums]; decide)
  rw [sums] at exact_
  exact ⟨past, s, s', _, final, run, taken, after, by simp, sums, here, result, value, order,
    exact_.mpr (unwrapped_of_small (by decide))⟩

theorem calls_around_wrap :
    ∃ past s s', Run step (boot (calibrateTsc 0 20001000) fun _ => 0) past s ∧
      step s (.cpu 0) = some s' ∧ ticks past = [18446744073709551] ∧
      s.place 0 = .converted 18446864073709551 0 59999999999 ∧
      returned s' (.cpu 0) = some 9223372036854775 := by
  have first : Run step (boot (calibrateTsc 0 20001000) fun _ => 0) _ _ :=
    .snoc (a := .cpu 0) (.snoc (a := .cpu 0) (.snoc (a := .cpu 0) (.snoc (a := .cpu 0)
      (.snoc (a := .call 0 18446744073709551) .nil rfl) rfl) rfl) rfl) rfl
  exact ⟨_, _, _, .snoc (a := .cpu 0) (.snoc (a := .cpu 0)
    (.snoc (a := .call 0 18446864073709551) first rfl) rfl) rfl, rfl, rfl, rfl, rfl⟩

/-- The second of the two calls returns the time of the first one, a minute too little. -/
theorem clock_frozen_after_wrap :
    ∃ past s s', Run step (boot (calibrateTsc 0 20001000) fun _ => 0) past s ∧
      step s (.cpu 0) = some s' ∧ 1 ≤ freqMhz (calibrateTsc 0 20001000) ∧
      s.place 0 = .converted 18446864073709551 0 59999999999 ∧
      (∀ tsc ∈ 18446864073709551 :: ticks past, Word tsc) ∧
      returned s' (.cpu 0) = some 9223372036854775 ∧
      exactNs (freqMhz (calibrateTsc 0 20001000)) 18446864073709551 = 9223432036854775 ∧
      ¬ Exact (freqMhz (calibrateTsc 0 20001000)) (18446864073709551 :: ticks past)
        9223372036854775 := by
  obtain ⟨past, s, s', run, taken, sums, here, value⟩ := calls_around_wrap
  have mhz : freqMhz (calibrateTsc 0 20001000) = 2000 := rfl
  refine ⟨past, s, s', run, taken, by decide, here, ?_, value, rfl, ?_⟩
  · rw [sums]
    decide
  rw [sums, mhz]
  intro exact_
  have top : IsGreatest {ns | ∃ tsc ∈ [18446864073709551, 18446744073709551],
      exactNs 2000 tsc = ns} 9223432036854775 := by
    have all : ∀ tsc ∈ [18446864073709551, 18446744073709551],
        exactNs 2000 tsc ≤ 9223432036854775 := by decide
    refine ⟨⟨18446864073709551, by decide, rfl⟩, ?_⟩
    rintro ns ⟨tsc, member, rfl⟩
    exact all tsc member
  exact absurd (exact_ _ top (by decide)) (by decide)

end TynKernel.Time
