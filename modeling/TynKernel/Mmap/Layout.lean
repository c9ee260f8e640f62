import TynKernel.Mmap.AddressSpace
import TynKernel.Sched.State

/-!
The map of the address space: the program heap that brk moves, the kernel stacks, the initial
user stack and the window of mmap. The kernel does not keep the fields initialBreak and
kstacks.
-/
namespace TynKernel.Mmap.Layout
open List Regions Runs
open Sched (maxThreads)

def kstackUsable : Nat := 16384
def preemptRegionSize : Nat := 256
def kstackBase : Nat := 0x07000000
def userStackBase : Nat := 0x0E000000
def userStackSize : Nat := 2 * 1024 * 1024

structure State where
  initialBreak : Nat
  brkBase : Nat
  brkTop : Nat
  nextTid : Nat
  kstackNext : Nat
  kstacks : List Region
  space : Mmap.State

def initial (memEnd : Nat) : State := ⟨memEnd, 0, memEnd, 1, kstackBase, [], Mmap.initial⟩

def sysBrk (s : State) (addr : Nat) : State × Nat :=
  if addr = 0 then (s, s.brkTop)
  else ({ s with brkBase := if s.brkBase = 0 then addr else s.brkBase, brkTop := addr }, addr)

def spawn (s : State) : State :=
  let counted := { s with nextTid := (s.nextTid + 1) % 2 ^ 32 }
  if maxThreads ≤ s.nextTid then counted
  else
    { counted with
      kstackNext := wrappingAdd s.kstackNext (kstackUsable + preemptRegionSize)
      kstacks := (s.kstackNext, kstackUsable + preemptRegionSize) :: s.kstacks }

inductive Action where
  | brk (addr : Nat)
  | clone
  | mmap (a : Mmap.Action)

def Unfixed : Mmap.Action → Prop
  | .mmap _ addr _ flags => ¬ Fixed addr flags
  | .munmap .. => False
  | .resume _ => True

instance : (a : Mmap.Action) → Decidable (Unfixed a)
  | .mmap .. => inferInstanceAs (Decidable (¬ _))
  | .munmap .. => inferInstanceAs (Decidable False)
  | .resume _ => inferInstanceAs (Decidable True)

def step (s : State) : Action → Option State
  | .brk addr => some (sysBrk s addr).1
  | .clone => some (spawn s)
  | .mmap a =>
    if Unfixed a then (Mmap.step s.space a).map fun space => { s with space } else none

def heap (s : State) : Region := (s.initialBreak, s.brkTop - s.initialBreak)
def userStack : Region := (userStackBase, userStackSize)
def window : Region := (mmapBase, mmapLimit - mmapBase)

def Disjoint (s : State) : Prop := Separate (heap s :: userStack :: window :: s.kstacks)

def ceiling (s : State) : Nat := if s.kstacks = [] then userStackBase else kstackBase

/-- The calls that make two regions overlap: a break above the ceiling, the first stack below
    the break, and the stack that would reach into the user stack. -/
def Collides (s : State) : Action → Prop
  | .brk addr => ceiling s < addr
  | .clone =>
    s.nextTid < maxThreads ∧ (s.kstacks = [] ∧ kstackBase < s.brkTop ∨ 7057 ≤ s.kstacks.length)
  | .mmap _ => False

instance (s : State) : (a : Action) → Decidable (Collides s a)
  | .brk _ => inferInstanceAs (Decidable (_ < _))
  | .clone => inferInstanceAs (Decidable (_ ∧ _))
  | .mmap _ => inferInstanceAs (Decidable False)

def Refuses (s : State) : Action → Prop
  | .brk addr => ¬ Disjoint { s with brkTop := addr } → sysBrk s addr = (s, s.brkTop)
  | _ => True

structure Sound (s : State) : Prop where
  low : s.initialBreak < kstackBase
  below : s.brkTop ≤ ceiling s
  next : s.kstackNext = kstackBase + s.kstacks.length * (kstackUsable + preemptRegionSize)
  few : s.kstacks.length ≤ 7057
  first : s.kstacks ≠ [] → (kstackBase, kstackUsable + preemptRegionSize) ∈ s.kstacks
  placed : ∀ r ∈ s.kstacks, kstackBase ≤ r.1 ∧ r.1 + r.2 ≤ s.kstackNext
  apart : Separate s.kstacks

variable {s s' : State} {a : Action}

theorem sound_initial (memEnd : Nat) (low : memEnd < kstackBase) : Sound (initial memEnd) where
  low := low
  below := Nat.le_trans (Nat.le_of_lt low) (show kstackBase ≤ userStackBase by decide)
  next := by simp [initial]
  few := Nat.zero_le _
  first := fun any => absurd rfl any
  placed := fun r member => absurd member not_mem_nil
  apart := List.Pairwise.nil

theorem sound_disjoint (sound : Sound s) : Disjoint s := by
  have low := sound.low
  have below := sound.below
  have next := sound.next
  have few := sound.few
  have stack : ∀ r ∈ s.kstacks,
      Apart (heap s) r ∧ Apart userStack r ∧ Apart window r := by
    intro r member
    have placed := sound.placed r member
    rw [ceiling, if_neg (ne_nil_of_mem member)] at below
    simp only [Apart, heap, userStack, window, kstackBase, userStackBase, userStackSize, mmapBase,
      mmapLimit, kstackUsable, preemptRegionSize] at *
    omega
  have high : s.brkTop ≤ userStackBase := Nat.le_trans below (by
    unfold ceiling
    split <;> decide)
  refine pairwise_cons.mpr ⟨?_, pairwise_cons.mpr ⟨?_, pairwise_cons.mpr ⟨?_, ?_⟩⟩⟩
  · rintro r (_ | ⟨_, _ | ⟨_, member⟩⟩)
    · simp only [Apart, heap, userStack, userStackBase, kstackBase] at *
      omega
    · simp only [Apart, heap, window, userStackBase, kstackBase, mmapBase] at *
      omega
    · exact (stack r member).1
  · rintro r (_ | ⟨_, member⟩)
    · simp [Apart, userStack, window, userStackBase, userStackSize, mmapBase]
    · exact (stack r member).2.1
  · exact fun r member => (stack r member).2.2
  · exact sound.apart

theorem sound_brk (sound : Sound s) (fits : ¬ Collides s (.brk addr)) :
    Sound (sysBrk s addr).1 := by
  unfold sysBrk
  by_cases query : addr = 0
  · rw [if_pos query]
    exact sound
  · rw [if_neg query]
    exact { sound with below := Nat.le_of_not_lt fits }

theorem sound_spawn (sound : Sound s) (fits : ¬ Collides s .clone) : Sound (spawn s) := by
  unfold spawn
  by_cases many : maxThreads ≤ s.nextTid
  · simp only [if_pos many]
    exact { sound with }
  simp only [if_neg many]
  have granted : s.nextTid < maxThreads := Nat.lt_of_not_le many
  simp only [Collides, granted, true_and, not_or, not_and, Nat.not_lt, Nat.not_le] at fits
  have next := sound.next
  have sum : wrappingAdd s.kstackNext (kstackUsable + preemptRegionSize) =
      s.kstackNext + (kstackUsable + preemptRegionSize) := by
    apply wrappingAdd_eq
    simp only [kstackBase, kstackUsable, preemptRegionSize] at *
    omega
  refine ⟨sound.low, ?_, ?_, fits.2, fun _ => ?_, ?_, ?_⟩
  · have below := sound.below
    unfold ceiling at below ⊢
    by_cases none : s.kstacks = []
    · exact fits.1 none
    · rw [if_neg none] at below
      exact below
  · rw [sum, next, length_cons, Nat.succ_mul, Nat.add_assoc]
  · by_cases none : s.kstacks = []
    · rw [none] at next ⊢
      exact mem_singleton.mpr (by rw [next]; rfl)
    · exact mem_cons_of_mem _ (sound.first none)
  · rw [sum]
    rintro r (_ | ⟨_, member⟩)
    · exact ⟨by rw [next]; exact Nat.le_add_right _ _, Nat.le_refl _⟩
    · have placed := sound.placed r member
      exact ⟨placed.1, Nat.le_trans placed.2 (Nat.le_add_right _ _)⟩
  · refine pairwise_cons.mpr ⟨?_, sound.apart⟩
    exact fun r member => .inr (sound.placed r member).2

theorem sound_step (sound : Sound s) (fits : ¬ Collides s a) (taken : step s a = some s') :
    Sound s' := by
  cases a with
  | brk =>
    cases taken
    exact sound_brk sound fits
  | clone =>
    cases taken
    exact sound_spawn sound fits
  | mmap a =>
    rw [step] at taken
    by_cases unfixed : Unfixed a
    · rw [if_pos unfixed, Option.map_eq_some_iff] at taken
      obtain ⟨space, -, rfl⟩ := taken
      exact { sound with }
    · rw [if_neg unfixed] at taken
      cases taken

theorem heap_meets (low : s.initialBreak < r.1) (pos : 0 < r.2)
    (member : r ∈ userStack :: window :: s.kstacks) (high : r.1 < s.brkTop) : ¬ Disjoint s := by
  intro disjoint
  have apart := (pairwise_cons.mp disjoint).1 r member
  simp only [Apart, heap] at apart
  omega

theorem brk_collides (sound : Sound s) (high : ceiling s < addr) :
    ¬ Disjoint { s with brkTop := addr } := by
  have low := sound.low
  unfold ceiling at high
  by_cases none : s.kstacks = []
  · rw [if_pos none] at high
    exact heap_meets (r := userStack) (Nat.lt_trans low (by decide)) (by decide)
      mem_cons_self high
  · rw [if_neg none] at high
    exact heap_meets (r := (kstackBase, kstackUsable + preemptRegionSize)) low (by decide)
      (mem_cons_of_mem _ (mem_cons_of_mem _ (sound.first none))) high

theorem collides_meets (sound : Sound s) (bad : Collides s a) (taken : step s a = some s') :
    ¬ Disjoint s' := by
  cases a with
  | brk addr =>
    cases taken
    have positive : addr ≠ 0 := Nat.ne_of_gt (Nat.lt_of_le_of_lt (Nat.zero_le _) bad)
    rw [sysBrk, if_neg positive]
    exact brk_collides (s := { s with brkBase := if s.brkBase = 0 then addr else s.brkBase })
      { sound with } bad
  | clone =>
    cases taken
    obtain ⟨granted, bad⟩ := bad
    have next := sound.next
    simp only [spawn, if_neg (Nat.not_le.mpr granted)]
    rcases bad with ⟨none, high⟩ | many
    · rw [none] at next
      have base : s.kstackNext = kstackBase := next
      apply heap_meets (r := (s.kstackNext, kstackUsable + preemptRegionSize))
      · exact base ▸ sound.low
      · exact (show 0 < kstackUsable + preemptRegionSize by decide)
      · simp
      · exact base ▸ high
    · intro disjoint
      have few := sound.few
      have user := (pairwise_cons.mp (pairwise_cons.mp disjoint).2).1
        (s.kstackNext, kstackUsable + preemptRegionSize) (by simp)
      rw [show s.kstacks.length = 7057 by omega] at next
      rw [next] at user
      revert user
      decide
  | mmap => exact bad.elim

/-- The regions stay apart, and every break that would bring them together is refused, exactly
    in the runs without a colliding call. -/
theorem regions_apart_iff {memEnd : Nat} (low : memEnd < kstackBase) {past : List (State × Action)}
    (run : Run step (initial memEnd) past s) :
    (Throughout Disjoint past s ∧ ∀ e ∈ past, Refuses e.1 e.2) ↔
      ∀ e ∈ past, ¬ Collides e.1 e.2 := by
  have whole := throughout_iff_first (fun _ _ => True) Sound Disjoint Collides
    (sound_initial memEnd low) (fun _ => sound_disjoint)
    (fun _ _ _ sound _ fits taken => sound_step sound fits taken)
    (fun _ _ _ sound _ bad taken => collides_meets sound bad taken) run (fun _ _ => trivial)
  rw [← whole]
  refine ⟨And.left, fun all => ⟨all, ?_⟩⟩
  have quiet := whole.mp all
  have sound := run_throughout (fun s a => ¬ Collides s a) Sound (sound_initial memEnd low)
    (fun _ _ _ sound fits taken => sound_step sound fits taken) run quiet
  rintro ⟨before, a⟩ member
  cases a with
  | brk addr =>
    intro meets
    have kept : Sound { before with brkTop := addr } :=
      { sound.2 _ member with below := Nat.le_of_not_lt (quiet _ member) }
    exact absurd (sound_disjoint kept) meets
  | clone | mmap a => trivial

theorem regions_apart_one_stack :
    ∃ past s, 0x6000000 < kstackBase ∧ Run step (initial 0x6000000) past s ∧
      past.map Prod.snd = [.clone, .brk 0x6100000] ∧
      (Throughout Disjoint past s ∧ ∀ e ∈ past, Refuses e.1 e.2) := by
  have low : 0x6000000 < kstackBase := by decide
  have run := Run.snoc (Run.snoc Run.nil (show step (initial 0x6000000) (.brk 0x6100000) = _ from rfl))
    (show step _ .clone = _ from rfl)
  refine ⟨_, _, low, run, rfl, (regions_apart_iff low run).mpr ?_⟩
  decide

/-- The break moves over a kernel stack that is in use, and the call succeeds. -/
theorem brk_over_kernel_stack :
    ∃ past s, Run step (initial 0x6000000) past s ∧
      past.map Prod.snd = [.brk 0x8000000, .clone] ∧ ¬ Disjoint s ∧ s.brkTop = 0x8000000 := by
  have run := Run.snoc (Run.snoc Run.nil (show step (initial 0x6000000) .clone = _ from rfl))
    (show step _ (.brk 0x8000000) = _ from rfl)
  refine ⟨_, _, run, rfl, ?_, rfl⟩
  exact heap_meets (r := (kstackBase, kstackUsable + preemptRegionSize)) (by decide) (by decide)
    (by decide) (by decide)

end TynKernel.Mmap.Layout
