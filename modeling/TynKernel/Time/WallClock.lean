import TynKernel.Time.Calendar
import TynKernel.Time.Clock

/-!
The wall clock. read_rtc_unix_secs reads the battery-backed clock between its updates, for
whose end it waits without a limit. seed_wall_clock keeps the difference to the monotonic
clock, and CLOCK_REALTIME is that clock with the difference added.
-/
namespace TynKernel.Time
open Runs

structure RawTime where
  (sec min hour day mon year cent : UInt8)
  deriving DecidableEq, Repr

/-- A turn of a wait: status register A, and the registers as they are read if no update is on. -/
structure Poll where
  statusA : UInt8
  raw : RawTime
  deriving DecidableEq, Repr

def updateInProgress (p : Poll) : Bool := p.statusA &&& 0x80 ≠ 0

/-- The wait and the read after it, with the turns that are left, or none while it goes on. -/
def readRaw : List Poll → Option (RawTime × List Poll)
  | [] => none
  | p :: polls => if updateInProgress p then readRaw polls else some (p.raw, polls)

/-- Reads go on until two in a row agree or the turns are over. -/
def settle : (turns : Nat) → (last : RawTime) → List Poll → Option RawTime
  | 0, last, _ => some last
  | turns + 1, last, polls =>
    (readRaw polls).bind fun cur =>
      if cur.1 = last then some last else settle turns cur.1 cur.2

def dec (isBcd : Bool) (v : UInt8) : Nat :=
  if isBcd then (v &&& 0x0F).toNat + (v >>> 4 &&& 0x0F).toNat * 10 else v.toNat

def decHour (isBcd is12h : Bool) (v : UInt8) : Nat :=
  if is12h then
    let h := dec isBcd (v &&& 0x7F)
    if v &&& 0x80 ≠ 0 then h % 12 + 12 else h % 12
  else dec isBcd v

def decode (last : RawTime) (statusB : UInt8) : Option (Option Nat) :=
  let isBcd : Bool := statusB &&& 0x04 = 0
  let hour := decHour isBcd (statusB &&& 0x02 = 0) last.hour
  let min := dec isBcd last.min
  let sec := dec isBcd last.sec
  let day := dec isBcd last.day
  let mon := dec isBcd last.mon
  let cent := dec isBcd last.cent
  let year := (if 19 ≤ cent ∧ cent ≤ 21 then cent * 100 else 2000) + dec isBcd last.year
  if mon < 1 ∨ 12 < mon ∨ day < 1 ∨ 31 < day ∨ 23 < hour ∨ 59 < min ∨ 60 < sec ∨
    year < 2020 ∨ 2100 < year then some none
  else (daysSinceEpoch year mon day).map fun days =>
    some (days * 86400 + hour * 3600 + min * 60 + sec)

/-- None as long as the call waits for the end of an update. -/
def readRtcUnixSecs (polls : List Poll) (statusB : UInt8) : Option (Option Nat) :=
  (readRaw polls).bind fun first =>
    (settle 10 first.1 first.2).bind fun last => decode last statusB

def seedWallClock (secs : Option Nat) (mono : Nat) : Nat :=
  match secs with
  | some secs => min (secs * 10 ^ 9) (2 ^ 64 - 1) - mono
  | none => 0

def realtimeNs (wallOffsetNs mono : Nat) : Nat := (mono + wallOffsetNs) % 2 ^ 64

def sysClockGettime (clkId : Int) (isNull : Bool) (wallOffsetNs mono : Nat) :
    Int × Option (Nat × Nat) :=
  if isNull then (-22, none)
  else
    let ns := if clkId = 0 ∨ clkId = 5 then realtimeNs wallOffsetNs mono else mono
    (0, some (ns / 10 ^ 9, ns % 10 ^ 9))

def enc (isBcd : Bool) (n : Nat) : UInt8 := .ofNat (if isBcd then 16 * (n / 10) + n % 10 else n)

def encHour (isBcd is12h : Bool) (hour : Nat) : UInt8 :=
  if is12h then enc isBcd ((hour + 11) % 12 + 1) ||| (if 12 ≤ hour then 0x80 else 0)
  else enc isBcd hour

structure Moment extends Date where
  hour : Nat
  min : Nat
  sec : Nat
  known : 2020 ≤ year ∧ year ≤ 2100
  clock : hour < 24 ∧ min < 60 ∧ sec < 60

def Moment.raw (m : Moment) (isBcd is12h : Bool) : RawTime :=
  ⟨enc isBcd m.sec, enc isBcd m.min, encHour isBcd is12h m.hour, enc isBcd m.day,
    enc isBcd m.month, enc isBcd (m.year % 100), enc isBcd (m.year / 100)⟩

def Moment.unixSecs (m : Moment) : Nat :=
  daysFromCivil m.year m.month m.day * 86400 + m.hour * 3600 + m.min * 60 + m.sec

def reads (polls : List Poll) : List RawTime :=
  (polls.filter fun p => ! updateInProgress p).map Poll.raw

/-- The first two reads in a row that agree, of eleven, show the time in the given format. -/
def Shows (reads : List RawTime) (statusB : UInt8) (m : Moment) : Prop :=
  ∃ n < 10, (∀ j < n, reads[j + 1]? ≠ reads[j]?) ∧ reads[n + 1]? = reads[n]? ∧
    reads[n]? = some (m.raw (statusB &&& 0x04 = 0) (statusB &&& 0x02 = 0))

theorem dec_enc (isBcd : Bool) (small : n < 100) : dec isBcd (enc isBcd n) = n := by
  have all : ∀ b, ∀ k < 100, dec b (enc b k) = k := by decide +kernel
  exact all isBcd n small

theorem decHour_encHour (isBcd is12h : Bool) (small : n < 24) :
    decHour isBcd is12h (encHour isBcd is12h n) = n := by
  have all : ∀ b t, ∀ k < 24, decHour b t (encHour b t k) = k := by decide +kernel
  exact all isBcd is12h n small

theorem readRaw_waits (none_ : reads polls = []) : readRaw polls = none := by
  induction polls with
  | nil => rfl
  | cons p polls ih =>
    rw [readRaw]
    cases busy : updateInProgress p with
    | true => exact ih (by simpa [reads, busy] using none_)
    | false => simp [reads, busy] at none_

theorem readRaw_reads (first : reads polls = r :: rest) :
    ∃ later, readRaw polls = some (r, later) ∧ reads later = rest := by
  induction polls with
  | nil => cases first
  | cons p polls ih =>
    rw [readRaw]
    cases busy : updateInProgress p with
    | true => exact ih (by simpa [reads, busy] using first)
    | false =>
      obtain ⟨rfl, rfl⟩ : p.raw = r ∧ reads polls = rest := by simpa [reads, busy] using first
      exact ⟨polls, rfl, rfl⟩

theorem settle_returns (turns : Nat) (last : RawTime) (enough : turns ≤ (reads polls).length) :
    ∃ r, settle turns last polls = some r := by
  induction turns generalizing last polls with
  | zero => exact ⟨last, rfl⟩
  | succ turns ih =>
    obtain ⟨cur, rest, first⟩ := List.exists_cons_of_length_pos (Nat.zero_lt_of_lt enough)
    obtain ⟨later, read, same⟩ := readRaw_reads first
    rw [settle, read, Option.bind_some]
    split
    · exact ⟨last, rfl⟩
    · refine ih cur ?_
      rw [first, List.length_cons] at enough
      rw [same]
      exact Nat.le_of_succ_le_succ enough

theorem settle_twice (soon : n < turns)
    (apart : ∀ j < n, (last :: reads polls)[j + 1]? ≠ (last :: reads polls)[j]?)
    (shown : (last :: reads polls)[n]? = some r) (twice : (last :: reads polls)[n + 1]? = some r) :
    settle turns last polls = some r := by
  induction turns generalizing n last polls with
  | zero => cases soon
  | succ turns ih =>
    cases first : reads polls with
    | nil =>
      rw [first] at twice
      cases twice
    | cons cur rest =>
      obtain ⟨later, read, rfl⟩ := readRaw_reads first
      rw [settle, read, Option.bind_some]
      rw [first] at apart shown twice
      cases n with
      | zero =>
        cases shown
        cases twice
        exact if_pos rfl
      | succ n =>
        have other : cur ≠ last := fun same => apart 0 n.succ_pos (congrArg some same)
        rw [if_neg other]
        exact ih (Nat.lt_of_succ_lt_succ soon)
          (fun j less => apart (j + 1) (Nat.succ_lt_succ less)) shown twice

theorem decode_raw (m : Moment) (statusB : UInt8) :
    decode (m.raw (statusB &&& 0x04 = 0) (statusB &&& 0x02 = 0)) statusB =
      some (some m.unixSecs) := by
  obtain ⟨hour, min, sec⟩ := m.clock
  obtain ⟨low, high⟩ := m.known
  have named := m.named
  have valid := m.valid
  have short := monthLength_le m.year m.month
  have year : (if 19 ≤ m.year / 100 ∧ m.year / 100 ≤ 21 then m.year / 100 * 100 else 2000) +
      m.year % 100 = m.year := by
    rw [if_pos (by omega), Nat.mul_comm, Nat.div_add_mod]
  unfold decode
  simp (disch := omega) only [Moment.raw, dec_enc, decHour_encHour _ _ hour, year]
  rw [if_neg (by omega), daysSinceEpoch_eq m.toDate, ← daysFromCivil_eq]
  rfl

theorem readRtcUnixSecs_shown (shows : Shows (reads polls) statusB m) :
    readRtcUnixSecs polls statusB = some (some m.unixSecs) := by
  obtain ⟨n, soon, apart, twice, shown⟩ := shows
  cases first : reads polls with
  | nil =>
    rw [first] at shown
    cases shown
  | cons last rest =>
    obtain ⟨later, read, rfl⟩ := readRaw_reads first
    rw [first] at apart twice shown
    rw [readRtcUnixSecs, read, Option.bind_some, settle_twice soon apart shown (twice.trans shown),
      Option.bind_some, decode_raw]

theorem monthStart_room (low : 1 ≤ m) (high : m ≤ 12) : monthStart y m + 31 ≤ yearLength y := by
  by_cases leap : Leap y
  · interval_cases m <;> simp [monthStart, monthLength, yearLength, leap]
  · interval_cases m <;> simp [monthStart, monthLength, yearLength, leap]

theorem daysSinceEpoch_between (year : 2020 ≤ y ∧ y ≤ 2100) (month : 1 ≤ m ∧ m ≤ 12)
    (day : 1 ≤ d ∧ d ≤ 31) : ∃ n, daysSinceEpoch y m d = some n ∧ 18262 ≤ n ∧ n < 47847 := by
  obtain ⟨k, rfl⟩ : ∃ k, y = 1970 + k := ⟨y - 1970, by omega⟩
  have from2020 : yearStart 50 ≤ yearStart k := yearStart_mono (by omega)
  have to2101 : yearStart (k + 1) ≤ yearStart 131 := yearStart_mono (by omega)
  have ends : yearStart 50 = 18262 ∧ yearStart 131 = 47847 := by decide +kernel
  have room := monthStart_room (y := 1970 + k) month.1 month.2
  rw [yearStart] at to2101
  have years : addYears k 1970 0 = yearStart k := by
    simpa [yearStart] using addYears_eq k 0 0 (by omega)
  obtain ⟨total, done, months⟩ :=
    addMonths_eq (1970 + k) (m - 1) 1 (yearStart k) (by omega) (by omega) (by omega)
  rw [monthStart_first, Nat.add_sub_cancel' month.1] at months
  have last : (d + 2 ^ 64 - 1) % 2 ^ 64 = d - 1 := by omega
  refine ⟨total + (d - 1), ?_, by omega, by omega⟩
  rw [daysSinceEpoch, Nat.add_sub_cancel_left, years, done, Option.map_some, last,
    Nat.mod_eq_of_lt (by omega)]

theorem decode_range (last : RawTime) (statusB : UInt8) :
    ∃ secs, decode last statusB = some secs ∧
      ∀ n, secs = some n → 1577836800 ≤ n ∧ n ≤ 4133980800 := by
  unfold decode
  extract_lets isBcd hour min sec day mon cent year
  split
  · exact ⟨none, rfl, nofun⟩
  · obtain ⟨days, done, low, high⟩ := daysSinceEpoch_between (y := year) (m := mon) (d := day)
      (by omega) (by omega) (by omega)
    rw [done]
    refine ⟨_, rfl, ?_⟩
    intro n same
    cases same
    omega

/-- Whatever the registers hold, the kernel goes on when it has come to eleven reads, and it takes
    over no time before 2020 or after the end of 2100. Until the first read it waits. -/
theorem rtc_rejects_garbage (polls : List Poll) (statusB : UInt8) :
    (11 ≤ (reads polls).length → ∃ secs, readRtcUnixSecs polls statusB = some secs) ∧
      (∀ n, readRtcUnixSecs polls statusB = some (some n) → 1577836800 ≤ n ∧ n ≤ 4133980800) ∧
      (reads polls = [] → readRtcUnixSecs polls statusB = none) := by
  refine ⟨fun enough => ?_, fun n returned => ?_, fun busy => ?_⟩
  · obtain ⟨last, rest, first⟩ := List.exists_cons_of_length_pos (Nat.zero_lt_of_lt enough)
    obtain ⟨later, read, rfl⟩ := readRaw_reads first
    obtain ⟨r, settled⟩ : ∃ r, settle 10 last later = some r := by
      refine settle_returns 10 last ?_
      rw [first, List.length_cons] at enough
      exact Nat.le_of_succ_le_succ enough
    obtain ⟨secs, done, _⟩ := decode_range r statusB
    rw [readRtcUnixSecs, read, Option.bind_some, settled, Option.bind_some, done]
    exact ⟨secs, rfl⟩
  · obtain ⟨⟨last, later⟩, _, settled⟩ := Option.bind_eq_some_iff.mp returned
    obtain ⟨r, _, decoded⟩ := Option.bind_eq_some_iff.mp settled
    obtain ⟨secs, done, range⟩ := decode_range r statusB
    exact range n (Option.some.inj (done.symm.trans decoded))
  · rw [readRtcUnixSecs, readRaw_waits busy, Option.bind_none]

/-- The clock shows m when it is seeded at the monotonic time mono. From then on every call of
    clock_gettime, on whatever CPU it comes to its fetch_max, gets the time that has passed since
    on top of m, or of mono if that is later. -/
theorem wall_clock_counts_on (polls : List Poll) (statusB : UInt8) (m : Moment)
    (shows : Shows (reads polls) statusB m) {freqHz mono result : Nat} {tscOffsets : Nat → Int}
    {past : List (State × Action)} {s s' : State}
    (run : Run step (boot freqHz tscOffsets) past s)
    (seeded : ∃ e ∈ past, returned e.1 e.2 = some mono)
    (fetches : s.place c = .converted rawTsc offset ns) (taken : step s (.cpu c) = some s')
    (got : s'.place c = .ratcheted result)
    (late : max (m.unixSecs * 10 ^ 9) mono + (result - mono) < 2 ^ 64) :
    mono ≤ result ∧ ∃ secs, readRtcUnixSecs polls statusB = some secs ∧
      ∃ sec nsec, sysClockGettime 0 false (seedWallClock secs mono) result =
          (0, some (sec, nsec)) ∧ nsec < 10 ^ 9 ∧
        sec * 10 ^ 9 + nsec = max (m.unixSecs * 10 ^ 9) mono + (result - mono) := by
  obtain ⟨e, member, value⟩ := seeded
  have before := returned_le run e member mono value
  have after : mono ≤ result := by
    rw [step, fetches] at taken
    cases taken
    have fetched : max s.lastTimeNs ns = result := by simpa [State.goto] using got
    omega
  refine ⟨after, _, readRtcUnixSecs_shown shows, _, _, rfl, Nat.mod_lt _ (by decide), ?_⟩
  have total : realtimeNs (seedWallClock (some m.unixSecs) mono) result =
      max (m.unixSecs * 10 ^ 9) mono + (result - mono) := by
    rw [realtimeNs, seedWallClock, Nat.min_eq_left (by omega)]
    omega
  simp only [true_or, if_true, total]
  exact Nat.div_add_mod' _ _

theorem wall_clock_on_leap_day : ∃ (polls : List Poll) (secs : Option Nat),
    reads polls ≠ polls.map Poll.raw ∧ readRtcUnixSecs polls 0 = some secs ∧
      sysClockGettime 0 false (seedWallClock secs 10) 500000010 =
        (0, some (3981398399, 500000000)) := by
  let m : Moment := ⟨⟨2096, 2, 29, by decide, by decide, by decide, by decide⟩, 23, 59, 59,
    by decide, by decide⟩
  have unix : m.unixSecs = 3981398399 := by decide +kernel
  obtain ⟨later, w, earlier, s, run, seeded, _, _, last⟩ := run_through (fun _ _ => true)
    (fun _ _ => true) step (boot 1000000000 fun _ => 0) [.call 0 10, .cpu 0, .cpu 0, .cpu 0]
    (.cpu 0) [.call 1 500000010, .cpu 1, .cpu 1] (fun w => returned w (.cpu 0) = some 10)
    (fun s => s.place 1 = .converted 500000010 0 500000010 ∧
      (step s (.cpu 1)).any fun s' => s'.place 1 = .ratcheted 500000010) (by decide)
  obtain ⟨fetches, next⟩ := of_decide_eq_true last
  obtain ⟨s', taken, got⟩ := (Option.any_eq_true _ _).mp next
  -- The first read is of the second before, and an update comes between the next two.
  let torn : RawTime := ⟨0x58, 0x59, 0x91, 0x29, 0x02, 0x96, 0x20⟩
  obtain ⟨_, secs, read, sec, nsec, answer, small, sum⟩ := wall_clock_counts_on
    [⟨0, torn⟩, ⟨0, m.raw true true⟩, ⟨0x80, torn⟩, ⟨0, m.raw true true⟩] 0 m
    ⟨1, by decide, by decide, by decide, by decide⟩ run
    ⟨_, List.mem_append_right _ List.mem_cons_self, of_decide_eq_true seeded⟩
    fetches taken (of_decide_eq_true got) (by rw [unix]; decide)
  rw [unix] at sum
  obtain ⟨rfl, rfl⟩ : sec = 3981398399 ∧ nsec = 500000000 := by omega
  exact ⟨_, secs, by decide, read, answer⟩

end TynKernel.Time
