import Mathlib.Tactic.IntervalCases

/-!
The calendar of rtc.rs. days_since_epoch adds up the lengths of the years and then those of
the months.
-/
namespace TynKernel.Time

def isLeap (y : Nat) : Bool := (y % 4 = 0 && y % 100 ≠ 0) || y % 400 = 0

def mdays : List Nat := [31, 28, 31, 30, 31, 30, 31, 31, 30, 31, 30, 31]

def addYears : (turns y days : Nat) → Nat
  | 0, _, days => days
  | turns + 1, y, days => addYears turns (y + 1) ((days + if isLeap y then 366 else 365) % 2 ^ 64)

/-- The loop over the months. A month that is not in the table stops the kernel, which is the
    result none. -/
def addMonths (year : Nat) : (turns m days : Nat) → Option Nat
  | 0, _, days => some days
  | turns + 1, m, days =>
    mdays[m - 1]?.bind fun n =>
      let days := (days + n) % 2 ^ 64
      addMonths year turns (m + 1) (if m = 2 ∧ isLeap year then (days + 1) % 2 ^ 64 else days)

def daysSinceEpoch (year month day : Nat) : Option Nat :=
  (addMonths year (month - 1) 1 (addYears (year - 1970) 1970 0)).map fun days =>
    (days + (day + 2 ^ 64 - 1) % 2 ^ 64) % 2 ^ 64

def Leap (y : Nat) : Prop := 4 ∣ y ∧ (100 ∣ y → 400 ∣ y)

instance (y : Nat) : Decidable (Leap y) := inferInstanceAs (Decidable (_ ∧ _))

def monthLength (y month : Nat) : Nat :=
  if month = 2 then if Leap y then 29 else 28
  else if month = 4 ∨ month = 6 ∨ month = 9 ∨ month = 11 then 30 else 31

/-- A day from 1970 on, in a year that 32 bits can count. -/
structure Date where
  year : Nat
  month : Nat
  day : Nat
  from1970 : 1970 ≤ year
  small : year < 2 ^ 32
  named : 1 ≤ month ∧ month ≤ 12
  valid : 1 ≤ day ∧ day ≤ monthLength year month

def Date.tomorrow (d : Date) : Nat × Nat × Nat :=
  if d.day < monthLength d.year d.month then (d.year, d.month, d.day + 1)
  else if d.month < 12 then (d.year, d.month + 1, 1)
  else (d.year + 1, 1, 1)

/-- Days since 1970-01-01, in eras of 400 years that begin in March. -/
def daysFromCivil (year month day : Nat) : Nat :=
  let y := if month ≤ 2 then year - 1 else year
  let doy := (153 * (if 2 < month then month - 3 else month + 9) + 2) / 5 + (day - 1)
  let doe := y % 400 * 365 + y % 400 / 4 - y % 400 / 100 + doy
  y / 400 * 146097 + doe - 719468

def yearLength (y : Nat) : Nat := if Leap y then 366 else 365

def yearStart : Nat → Nat
  | 0 => 0
  | n + 1 => yearStart n + yearLength (1970 + n)

def monthStart (y : Nat) : Nat → Nat
  | 0 => 0
  | m + 1 => monthStart y m + if m = 0 then 0 else monthLength y m

theorem isLeap_iff (y : Nat) : isLeap y = true ↔ Leap y := by
  simp only [isLeap, Leap, Bool.or_eq_true, Bool.and_eq_true, decide_eq_true_eq]
  omega

theorem yearLength_le (y : Nat) : yearLength y ≤ 366 := by
  unfold yearLength
  split <;> omega

theorem monthLength_le (y m : Nat) : monthLength y m ≤ 31 := by
  unfold monthLength
  split <;> split <;> omega

theorem addYears_eq (turns n days : Nat) (small : days + 366 * turns < 2 ^ 64) :
    addYears turns (1970 + n) days + yearStart n = days + yearStart (n + turns) := by
  induction turns generalizing n days with
  | zero => rfl
  | succ turns ih =>
    have length : (if isLeap (1970 + n) then 366 else 365) = yearLength (1970 + n) := by
      simp [yearLength, isLeap_iff]
    have bound := yearLength_le (1970 + n)
    have later : addYears turns (1970 + n + 1) (days + yearLength (1970 + n)) + yearStart (n + 1) =
        days + yearLength (1970 + n) + yearStart (n + 1 + turns) := ih (n + 1) _ (by omega)
    rw [yearStart] at later
    rw [addYears, length, Nat.mod_eq_of_lt (by omega), ← Nat.add_assoc, Nat.add_right_comm n]
    omega

theorem table_length (y : Nat) (low : 1 ≤ m) (high : m ≤ 12) :
    ∃ n, mdays[m - 1]? = some n ∧
      monthLength y m = if m = 2 ∧ isLeap y then n + 1 else n := by
  simp only [isLeap_iff, monthLength]
  by_cases leap : Leap y
  · interval_cases m <;> simp [mdays, leap]
  · interval_cases m <;> simp [mdays, leap]

theorem addMonths_eq (y turns m days : Nat) (low : 1 ≤ m) (high : m + turns ≤ 13)
    (small : days + 32 * turns < 2 ^ 64) :
    ∃ total, addMonths y turns m days = some total ∧
      total + monthStart y m = days + monthStart y (m + turns) := by
  induction turns generalizing m days with
  | zero => exact ⟨days, rfl, rfl⟩
  | succ turns ih =>
    obtain ⟨n, entry, length⟩ := table_length y low (by omega)
    have short := monthLength_le y m
    have sum : (if m = 2 ∧ isLeap y then ((days + n) % 2 ^ 64 + 1) % 2 ^ 64
        else (days + n) % 2 ^ 64) = days + monthLength y m := by
      split <;> simp_all <;> omega
    obtain ⟨total, done, later⟩ := ih (m + 1) (days + monthLength y m) (by omega) (by omega)
      (by omega)
    refine ⟨total, ?_, ?_⟩
    · rw [addMonths, entry, Option.bind_some]
      simp only [sum, done]
    · rw [monthStart, if_neg (by omega), Nat.add_right_comm m] at later
      rw [← Nat.add_assoc]
      omega

theorem monthStart_first (y : Nat) : monthStart y 1 = 0 := rfl

theorem monthStart_le (y : Nat) (high : m ≤ 13) : monthStart y m ≤ 366 := by
  by_cases leap : Leap y
  · interval_cases m <;> simp [monthStart, monthLength, leap]
  · interval_cases m <;> simp [monthStart, monthLength, leap]

theorem yearStart_le (n : Nat) : yearStart n ≤ 366 * n := by
  induction n with
  | zero => exact Nat.le_refl 0
  | succ n ih =>
    have length := yearLength_le (1970 + n)
    rw [yearStart]
    omega

def Date.number (d : Date) : Nat :=
  yearStart (d.year - 1970) + monthStart d.year d.month + (d.day - 1)

theorem daysSinceEpoch_eq (d : Date) :
    daysSinceEpoch d.year d.month d.day = some d.number := by
  obtain ⟨low, high⟩ := d.named
  obtain ⟨first, last⟩ := d.valid
  have small := d.small
  have short := Nat.le_trans last (monthLength_le _ _)
  have years : addYears (d.year - 1970) 1970 0 = yearStart (d.year - 1970) := by
    simpa [yearStart] using addYears_eq (d.year - 1970) 0 0 (by omega)
  have bound := yearStart_le (d.year - 1970)
  obtain ⟨total, done, months⟩ := addMonths_eq d.year (d.month - 1) 1
    (yearStart (d.year - 1970)) (Nat.le_refl 1) (by omega) (by omega)
  rw [monthStart_first, Nat.add_sub_cancel' low] at months
  have few := monthStart_le d.year (by omega : d.month ≤ 13)
  have day : (d.day + 2 ^ 64 - 1) % 2 ^ 64 = d.day - 1 := by omega
  have last : total + (d.day - 1) < 2 ^ 64 := by omega
  unfold daysSinceEpoch
  rw [years, done, Option.map_some, day, Nat.mod_eq_of_lt last, Date.number, ← months]
  rfl

theorem yearLength_eq (y : Nat) : yearLength y + (if 100 ∣ y then 1 else 0) =
    365 + (if 4 ∣ y then 1 else 0) + if 400 ∣ y then 1 else 0 := by
  have centuries : 100 ∣ y → 4 ∣ y := Nat.dvd_trans (by decide)
  have eras : 400 ∣ y → 100 ∣ y := Nat.dvd_trans (by decide)
  by_cases four : 4 ∣ y <;> by_cases hundred : 100 ∣ y <;> by_cases all : 400 ∣ y <;>
    simp_all [yearLength, Leap]

theorem yearStart_closed (n : Nat) :
    yearStart n + 477 + (1969 + n) / 100 = 365 * n + (1969 + n) / 4 + (1969 + n) / 400 := by
  induction n with
  | zero => rfl
  | succ n ih =>
    have length := yearLength_eq (1969 + n + 1)
    rw [yearStart, ← Nat.add_assoc, Nat.succ_div, Nat.succ_div, Nat.succ_div,
      show 1970 + n = 1969 + n + 1 by omega]
    omega

theorem monthStart_closed (low : 1 ≤ m) (high : m ≤ 12) :
    if m ≤ 2 then monthStart y m + 306 = (153 * (m + 9) + 2) / 5
    else monthStart y m = (153 * (m - 3) + 2) / 5 + if Leap y then 60 else 59 := by
  by_cases leap : Leap y
  · interval_cases m <;> simp [monthStart, monthLength, leap]
  · interval_cases m <;> simp [monthStart, monthLength, leap]

theorem daysFromCivil_eq (d : Date) : daysFromCivil d.year d.month d.day = d.number := by
  obtain ⟨low, high⟩ := d.named
  have from1970 := d.from1970
  have months := monthStart_closed (y := d.year) low high
  have quarters (y : Nat) : y % 400 / 4 + 100 * (y / 400) = y / 4 := by omega
  have centuries (y : Nat) : y % 400 / 100 + 4 * (y / 400) = y / 100 := by omega
  have eras (y : Nat) : y % 400 + 400 * (y / 400) = y := Nat.mod_add_div y 400
  unfold daysFromCivil Date.number
  by_cases winter : d.month ≤ 2
  · have years := yearStart_closed (d.year - 1970)
    rw [show 1969 + (d.year - 1970) = d.year - 1 by omega] at years
    simp only [if_pos winter, if_neg (Nat.not_lt.mpr winter)] at months ⊢
    have := centuries (d.year - 1)
    have := eras (d.year - 1)
    omega
  · -- the leap day is in the year that begins next
    have years := yearStart_closed (d.year - 1970 + 1)
    rw [yearStart, yearLength, show 1969 + (d.year - 1970 + 1) = d.year by omega,
      show 1970 + (d.year - 1970) = d.year by omega] at years
    simp only [if_neg winter, if_pos (Nat.not_le.mp winter)] at months ⊢
    have := quarters d.year
    have := centuries d.year
    have := eras d.year
    by_cases leap : Leap d.year
    · simp only [if_pos leap] at months years
      omega
    · simp only [if_neg leap] at months years
      omega

theorem monthStart_all (y : Nat) : monthStart y 13 = yearLength y := by
  by_cases leap : Leap y <;> simp [monthStart, monthLength, yearLength, leap]

theorem monthStart_mono (y : Nat) : Monotone (monthStart y) :=
  monotone_nat_of_le_succ fun _ => Nat.le_add_right _ _

theorem yearStart_mono : Monotone yearStart :=
  monotone_nat_of_le_succ fun _ => Nat.le_add_right _ _

theorem monthStart_next (low : 1 ≤ m) :
    monthStart y (m + 1) = monthStart y m + monthLength y m := by
  rw [monthStart, if_neg (by omega)]

theorem yearStart_next (d : Date) :
    yearStart (d.year - 1970 + 1) = yearStart (d.year - 1970) + yearLength d.year := by
  rw [yearStart, Nat.add_sub_cancel' d.from1970]

theorem day_before (d : Date) (later : d.month < m) :
    monthStart d.year d.month + d.day ≤ monthStart d.year m := by
  have last := d.valid.2
  have next := monthStart_next (y := d.year) d.named.1
  have rest := monthStart_mono d.year (show d.month + 1 ≤ m from later)
  omega

theorem date_before (d : Date) (later : d.year < 1970 + n) :
    yearStart (d.year - 1970) + monthStart d.year d.month + d.day ≤ yearStart n := by
  have from1970 := d.from1970
  have inYear := day_before d (Nat.lt_succ_of_le d.named.2)
  have next := yearStart_next d
  have rest := yearStart_mono (show d.year - 1970 + 1 ≤ n by omega)
  rw [monthStart_all] at inYear
  omega

theorem date_unique (d e : Date) (same : d.number = e.number) : d = e := by
  have dayD := d.valid.1
  have dayE := e.valid.1
  unfold Date.number at same
  have year : d.year = e.year := by
    rcases Nat.lt_trichotomy d.year e.year with less | equal | more
    · have := date_before d (show d.year < 1970 + (e.year - 1970) by omega)
      omega
    · exact equal
    · have := date_before e (show e.year < 1970 + (d.year - 1970) by omega)
      omega
  rw [year] at same
  have month : d.month = e.month := by
    rcases Nat.lt_trichotomy d.month e.month with less | equal | more
    · have := year ▸ day_before d less
      omega
    · exact equal
    · have := day_before e more
      omega
  rw [month] at same
  have day : d.day = e.day := by omega
  cases d
  cases e
  cases year
  cases month
  cases day
  rfl

theorem tomorrow_counts (d e : Date) (next : (e.year, e.month, e.day) = d.tomorrow) :
    e.number = d.number + 1 := by
  obtain ⟨first, last⟩ := d.valid
  have months := monthStart_next (y := d.year) d.named.1
  unfold Date.tomorrow at next
  unfold Date.number
  split at next
  · simp only [Prod.mk.injEq] at next
    obtain ⟨year, month, day⟩ := next
    rw [year, month]
    omega
  split at next
  · simp only [Prod.mk.injEq] at next
    obtain ⟨year, month, day⟩ := next
    rw [year, month, months]
    omega
  · simp only [Prod.mk.injEq] at next
    obtain ⟨year, month, day⟩ := next
    have december : d.month = 12 := by
      have := d.named.2
      omega
    have whole : monthStart d.year (d.month + 1) = yearLength d.year := by
      rw [december]
      exact monthStart_all d.year
    have years := yearStart_next d
    rw [year, month, Nat.sub_add_comm d.from1970, monthStart_first]
    omega

/-- On every date from 1970 on days_since_epoch is the closed form. It is zero on 1970-01-01, one
    more on the day after each date, and different on different dates. -/
theorem days_since_epoch_counts :
    (∀ d : Date, daysSinceEpoch d.year d.month d.day =
      some (daysFromCivil d.year d.month d.day)) ∧
    daysSinceEpoch 1970 1 1 = some 0 ∧
    (∀ d e : Date, (e.year, e.month, e.day) = d.tomorrow →
      daysSinceEpoch e.year e.month e.day =
        (daysSinceEpoch d.year d.month d.day).map (· + 1)) ∧
    ∀ d e : Date, daysSinceEpoch d.year d.month d.day = daysSinceEpoch e.year e.month e.day →
      d = e := by
  refine ⟨?_, rfl, ?_, ?_⟩
  · intro d
    rw [daysSinceEpoch_eq, daysFromCivil_eq]
  · intro d e next
    rw [daysSinceEpoch_eq, daysSinceEpoch_eq, tomorrow_counts d e next]
    rfl
  · intro d e same
    rw [daysSinceEpoch_eq, daysSinceEpoch_eq, Option.some.injEq] at same
    exact date_unique d e same

theorem days_since_epoch_february_2100 :
    daysSinceEpoch 2100 3 1 = (daysSinceEpoch 2100 2 28).map (· + 1) :=
  days_since_epoch_counts.2.2.1 ⟨2100, 2, 28, by decide, by decide, by decide, by decide⟩
    ⟨2100, 3, 1, by decide, by decide, by decide, by decide⟩ (by decide)

end TynKernel.Time
