import Mathlib.Data.List.Perm.Subperm
import TynKernel.Sched.Spawn
import TynKernel.Smp.Madt

/-!
Which processors run the scheduler after boot, and which queues it fills. The queues, idle
contexts and per-CPU data are selected by the APIC id of the processor at run time, but init
and spawn count from zero.
-/
namespace TynKernel.Smp
open Bytes List Option Runs Sched

/-- boot_ap for one listed processor after the other. One that does not answer is given up
    after a second. One that answers has raised the count of started processors, and is waited
    for until the count has come up to its number: for ever, behind one that was given up. -/
def bootApsFrom (answers : Nat → Bool) : (cpuId started : Nat) → List Nat → Option (List Nat)
  | _, _, [] => some []
  | cpuId, started, apicId :: rest =>
    if answers cpuId then
      if started + 1 < cpuId then none
      else (bootApsFrom answers (cpuId + 1) (started + 1) rest).map (apicId :: ·)
    else bootApsFrom answers (cpuId + 1) started rest

def bootAps (answers : Nat → Bool) (info : AcpiInfo) : Option (List Nat) :=
  if info.numCpus ≤ 1 then some []
  else bootApsFrom answers 1 0 info.ids.tail

/-- What the kernel is started on: the table, if ACPI is found, the APIC id of the processor
    that boots, and which of the listed processors answer. -/
structure Machine where
  madt : Option Madt
  bsp : UInt8
  answers : Nat → Bool

structure Booted where
  numCpus : Nat
  running : List Nat
  deriving DecidableEq, Repr

def bringUp (m : Machine) : Option Booted :=
  match m.madt with
  | none => some ⟨1, [m.bsp.toNat]⟩
  | some table =>
    let info := parseMadt (image table.bytes)
    (bootAps m.answers info).map fun aps => ⟨info.numCpus, m.bsp.toNat :: aps⟩

/-- Threads are put only into queues of processors that run, and these processors stay inside
    the per-CPU arrays. -/
structure Booted.Agrees (b : Booted) : Prop where
  main : mainThread.homeCpu ∈ b.running
  chosen : ∀ home, Choice b.numCpus b.running home → home ∈ b.running
  inRange : ∀ id ∈ b.running, id < maxCpus

def Machine.listed (m : Machine) : List Nat :=
  match m.madt with
  | none => []
  | some table => table.enabledIds

def Machine.numCpus (m : Machine) : Nat :=
  match m.madt with
  | none => 1
  | some table => table.enabledIds.length

def Machine.Stalls (m : Machine) : Prop :=
  ∃ j i, 0 < j ∧ j < i ∧ i < m.listed.length ∧ m.answers j = false ∧ m.answers i = true

/-- The boot processor and all processors behind the first listed one have the numbers from
    zero on, in any order. -/
def Machine.Dense (m : Machine) : Prop :=
  (m.bsp.toNat :: m.listed.tail).Perm (List.range (max m.listed.length 1))

variable {b : Booted} {started : Nat} {ids : List Nat}

theorem bootApsFrom_sublist (done : bootApsFrom answers cpuId started ids = some aps) :
    aps.Sublist ids := by
  induction ids generalizing cpuId started aps with
  | nil =>
    cases done
    exact .refl _
  | cons id rest ih =>
    simp only [bootApsFrom] at done
    split at done
    · split at done
      · cases done
      · obtain ⟨tail, more, rfl⟩ := map_eq_some_iff.mp done
        exact (ih more).cons_cons id
    · exact (ih done).cons id

theorem bootApsFrom_full (done : bootApsFrom answers cpuId started ids = some ids) :
    ∀ i, cpuId ≤ i → i < cpuId + ids.length → answers i = true := by
  induction ids generalizing cpuId started with
  | nil =>
    intro i low high
    simp only [length_nil] at high
    omega
  | cons id rest ih =>
    simp only [bootApsFrom] at done
    split at done
    · rename_i answered
      split at done
      · cases done
      obtain ⟨tail, more, same⟩ := map_eq_some_iff.mp done
      obtain ⟨_, rfl⟩ := List.cons.inj same
      intro i low high
      by_cases first : i = cpuId
      · rw [first]
        exact answered
      · rw [length_cons] at high
        exact ih more i (by omega) (by omega)
    · have short := (bootApsFrom_sublist done).length_le
      rw [length_cons] at short
      omega

theorem bootApsFrom_all (level : cpuId = started + 1)
    (all : ∀ i, cpuId ≤ i → i < cpuId + ids.length → answers i = true) :
    bootApsFrom answers cpuId started ids = some ids := by
  induction ids generalizing cpuId started with
  | nil => rfl
  | cons id rest ih =>
    rw [length_cons] at all
    have tail : bootApsFrom answers (cpuId + 1) (started + 1) rest = some rest :=
      ih (by omega) (fun i low high => all i (by omega) (by omega))
    rw [bootApsFrom, if_pos (all cpuId (Nat.le_refl _) (by omega)), if_neg (by omega), tail]
    rfl

theorem bootApsFrom_none (behind : started < cpuId) :
    bootApsFrom answers cpuId started ids = none ↔
      ∃ i, cpuId ≤ i ∧ i < cpuId + ids.length ∧ answers i = true ∧
        (started + 1 < cpuId ∨ ∃ j, cpuId ≤ j ∧ j < i ∧ answers j = false) := by
  induction ids generalizing cpuId started with
  | nil =>
    constructor
    · intro stuck
      cases stuck
    · rintro ⟨i, low, high, _⟩
      simp only [length_nil] at high
      omega
  | cons id rest ih =>
    rw [bootApsFrom, length_cons]
    split
    · rename_i answered
      split
      · rename_i late
        exact ⟨fun _ => ⟨cpuId, Nat.le_refl _, by omega, answered, .inl late⟩, fun _ => rfl⟩
      rename_i level
      rw [map_eq_none_iff, ih (by omega)]
      constructor
      · rintro ⟨i, low, high, yes, late | ⟨j, lowJ, less, no⟩⟩
        · omega
        · exact ⟨i, by omega, by omega, yes, .inr ⟨j, by omega, less, no⟩⟩
      rintro ⟨i, low, high, yes, late | ⟨j, lowJ, less, no⟩⟩
      · exact absurd late level
      have later : j ≠ cpuId := by
        rintro rfl
        rw [answered] at no
        cases no
      exact ⟨i, by omega, by omega, yes, .inr ⟨j, by omega, less, no⟩⟩
    · rename_i silent
      rw [Bool.not_eq_true] at silent
      rw [ih (by omega)]
      constructor
      · rintro ⟨i, low, high, yes, _⟩
        exact ⟨i, by omega, by omega, yes, .inr ⟨cpuId, Nat.le_refl _, by omega, silent⟩⟩
      rintro ⟨i, low, high, yes, _⟩
      have later : i ≠ cpuId := by
        rintro rfl
        rw [silent] at yes
        cases yes
      exact ⟨i, by omega, by omega, yes, .inl (by omega)⟩

theorem bringUp_eq (m : Machine) :
    bringUp m = (bootApsFrom m.answers 1 0 m.listed.tail).map fun aps =>
      ⟨m.numCpus, m.bsp.toNat :: aps⟩ := by
  unfold bringUp Machine.listed Machine.numCpus
  cases m.madt with
  | none => rfl
  | some table =>
    have ids := parseMadt_ids table
    have count : (parseMadt (image table.bytes)).numCpus = table.enabledIds.length := by
      rw [← ids, AcpiInfo.ids, length_map]
      rfl
    simp only [bootAps, count, ids]
    split
    · have none_left : table.enabledIds.tail = [] := by
        apply eq_nil_of_length_eq_zero
        rw [length_tail]
        omega
      rw [none_left]
      rfl
    · rfl

theorem numCpus_max (m : Machine) : max m.numCpus 1 = max m.listed.length 1 := by
  unfold Machine.numCpus Machine.listed
  cases m.madt <;> rfl

theorem listed_few (m : Machine) : m.listed.length ≤ maxCpus := by
  unfold Machine.listed
  cases m.madt with
  | none => exact Nat.zero_le _
  | some => exact length_take_le _ _

theorem bringUp_none : bringUp m = none ↔ m.Stalls := by
  rw [bringUp_eq, map_eq_none_iff, bootApsFrom_none Nat.zero_lt_one, length_tail]
  constructor
  · rintro ⟨i, low, high, yes, late | ⟨j, lowJ, less, no⟩⟩
    · omega
    · exact ⟨j, i, by omega, less, by omega, no, yes⟩
  · rintro ⟨j, i, positive, less, high, no, yes⟩
    exact ⟨i, by omega, by omega, yes, .inr ⟨j, by omega, less, no⟩⟩

theorem agrees_covers (agrees : b.Agrees) (less : c < max b.numCpus 1) : c ∈ b.running := by
  by_cases zero : c = 0
  · rw [zero]
    exact agrees.main
  by_contra absent
  -- while the running processors are busy, spawn takes the first one that never comes up
  let idle : Nat → Bool := fun d => decide (d ∉ b.running ∧ d ≠ 0)
  have seen : Seen b.running idle := by
    intro d outside
    simp [idle, outside, boot]
  have isIdle : idle c = true := by simp [idle, absent, zero]
  have chosenIdle := spawnChoice_idle (fun _ => 0) (n := b.numCpus) (by omega) isIdle
  simp only [idle, decide_eq_true_eq] at chosenIdle
  exact chosenIdle.1 (agrees.chosen _ ⟨idle, fun _ => 0, seen, rfl⟩)

theorem agrees_of_perm (perm : b.running.Perm (List.range (max b.numCpus 1)))
    (few : b.numCpus ≤ maxCpus) : b.Agrees := by
  have inside : ∀ c, c ∈ b.running ↔ c < max b.numCpus 1 := by
    intro c
    rw [perm.mem_iff, mem_range]
  refine ⟨(inside 0).mpr (by omega), ?_, ?_⟩
  · rintro home ⟨idle, len, _, rfl⟩
    exact (inside _).mpr (spawnChoice_lt ..)
  · intro id member
    have less := (inside id).mp member
    have room : 1 ≤ maxCpus := by decide
    omega

theorem perm_range_of_covers (short : ids.length ≤ n) (covers : ∀ c, c < n → c ∈ ids) :
    ids.length = n ∧ ids.Perm (List.range n) := by
  have sub : (List.range n).Subperm ids :=
    nodup_range.subperm (fun c member => covers c (mem_range.mp member))
  have long := sub.length_le
  rw [length_range] at long
  have perm := sub.perm_of_length_le (by rw [length_range]; exact short)
  exact ⟨by omega, perm.symm⟩

/-- If boot ends, all queues that threads are put into belong to processors that run, and no
    per-CPU array is left, exactly when the ids that come up are dense and all have answered. -/
theorem cpu_numbers_agree (m : Machine) :
    (∀ b, bringUp m = some b → b.Agrees) ↔
      m.Stalls ∨ (m.Dense ∧ ∀ i, 0 < i → i < m.listed.length → m.answers i = true) := by
  constructor
  · intro agreement
    by_cases stalls : m.Stalls
    · exact .inl stalls
    right
    obtain ⟨b, up⟩ := ne_none_iff_exists'.mp (fun none => stalls (bringUp_none.mp none))
    have agrees := agreement b up
    rw [bringUp_eq] at up
    obtain ⟨aps, done, rfl⟩ := map_eq_some_iff.mp up
    have sublist := bootApsFrom_sublist done
    have short := sublist.length_le
    rw [length_tail] at short
    have covers : ∀ c, c < max m.listed.length 1 → c ∈ m.bsp.toNat :: aps := by
      intro c less
      rw [← numCpus_max] at less
      exact agrees_covers agrees less
    obtain ⟨length, perm⟩ := perm_range_of_covers (by rw [length_cons]; omega) covers
    -- as many came up as were listed, so none was given up
    have whole : aps = m.listed.tail := by
      apply sublist.eq_of_length
      rw [length_cons] at length
      rw [length_tail]
      omega
    subst whole
    refine ⟨perm, fun i positive less => ?_⟩
    exact bootApsFrom_full done i positive (by rw [length_tail]; omega)
  · rintro (stalls | ⟨dense, all⟩) b up
    · rw [bringUp_none.mpr stalls] at up
      cases up
    have done : bootApsFrom m.answers 1 0 m.listed.tail = some m.listed.tail :=
      bootApsFrom_all rfl (fun i low high => all i low (by rw [length_tail] at high; omega))
    rw [bringUp_eq, done] at up
    cases up
    have few := listed_few m
    have counts := numCpus_max m
    have room : 1 ≤ maxCpus := by decide
    refine agrees_of_perm ?_ ?_
    · rw [numCpus_max]
      exact dense
    · show m.numCpus ≤ maxCpus
      omega

def sparseMachine : Machine where
  madt := some
    { localApicAddr := 0xFEE00000
      entries := [⟨0, [0, 0, 1, 0, 0, 0], by decide⟩, ⟨0, [1, 2, 1, 0, 0, 0], by decide⟩]
      fits := by decide }
  bsp := 0
  answers := fun _ => true

/-- The first thread that the main thread spawns goes to queue 1, and nobody looks there. -/
theorem thread_queued_for_no_cpu :
    ∃ b, bringUp sparseMachine = some b ∧
      spawnChoice b.numCpus (boot b.numCpus).kernel.idle (fun _ => 0) = 1 ∧ 1 ∉ b.running ∧
      ¬ b.Agrees := by
  have up : bringUp sparseMachine = some ⟨2, [0, 2]⟩ := by decide
  refine ⟨_, up, by decide, by decide, fun agrees => ?_⟩
  have chosen := agrees.chosen 1 ⟨(boot 2).kernel.idle, fun _ => 0, fun _ _ => rfl, by decide⟩
  exact absurd chosen (by decide)

end TynKernel.Smp
