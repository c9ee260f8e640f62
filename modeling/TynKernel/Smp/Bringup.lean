import TynKernel.Lib.Numbers
import TynKernel.Lib.Turns
import TynKernel.Smp.Numbering

/-!
boot_aps and the processors it starts, as programs that run side by side. Every read or write
of one of the four words that they share is a step, and the value that a step gets from the
time stamp counter is its input.
-/
namespace TynKernel.Smp
open Numbers Turns

/-- The first words of the clock exchange are code of the trampoline, written anew for every
    processor: the bytes from 0x30 and from 0x38 on. -/
def trampolineSync : Nat := 0x01c88366c0200f80
def trampolineTsc : Nat := 0x00088040eac0220f

structure Words where
  ready : Nat
  syncState : Nat
  apTsc : Nat
  apStartedCount : Nat
  deriving DecidableEq

inductive ApPlace where
  | off
  | trampoline
  | main
  | awaitOne (round : Nat)
  | rdtsc (round : Nat)
  | publish (round myTsc : Nat)
  | answer (round : Nat)
  | awaitReset (round : Nat)
  | idle
  deriving DecidableEq

structure Ap where
  place : ApPlace
  readings : List Nat
  deriving DecidableEq

def apMain (w : Words) (a : Ap) (tsc : Nat) : Words × Ap :=
  match a.place with
  | .off => (w, a)
  | .trampoline => ({ w with ready := 1 }, { a with place := .main })
  | .main => ({ w with apStartedCount := w.apStartedCount + 1 }, { a with place := .awaitOne 0 })
  | .awaitOne round => if w.syncState = 1 then (w, { a with place := .rdtsc round }) else (w, a)
  | .rdtsc round => (w, ⟨.publish round tsc, a.readings ++ [tsc]⟩)
  | .publish round myTsc => ({ w with apTsc := myTsc }, { a with place := .answer round })
  | .answer round => ({ w with syncState := 2 }, { a with place := .awaitReset round })
  | .awaitReset round =>
    if w.syncState = 2 then (w, a)
    else if round + 1 < 3 then (w, { a with place := .awaitOne (round + 1) })
    else (w, { a with place := .idle })
  | .idle => (w, a)

inductive BspPlace where
  | prepare (cpuId : Nat)
  | sipi (cpuId : Nat)
  | poll (cpuId waited : Nat)
  | awaitStarted (cpuId : Nat)
  | reset (cpuId : Nat) (offsets : List Int)
  | signal (cpuId : Nat) (offsets : List Int)
  | rdtsc (cpuId : Nat) (offsets : List Int)
  | awaitTwo (cpuId : Nat) (offsets : List Int) (bspTsc : Nat)
  | subtract (cpuId : Nat) (offsets : List Int) (bspTsc : Nat)
  | store (cpuId : Nat) (offsets : List Int)
  | finish (cpuId : Nat)
  | returned
  deriving DecidableEq

/-- An entry of TSC_OFFSETS is none until it is stored; readings has the values that the boot
    processor's counter gave it, for each processor it measured. -/
structure Machines where
  words : Words
  bsp : BspPlace
  aps : Nat → Ap
  tscOffsets : Nat → Option Int
  readings : Nat → List Nat

def difference (bspTsc apTsc : Nat) : Int := asI64 (asI64 bspTsc - asI64 apTsc)

def median (offsets : List Int) : Int := (offsets.mergeSort).getD 1 0

def nextAp (n cpuId : Nat) : BspPlace := if cpuId + 1 < n then .prepare (cpuId + 1) else .returned

section Steps
variable (n : Nat) (answers : Nat → Bool)

def bootAp (s : Machines) (tsc : Nat) : Machines :=
  match s.bsp with
  | .prepare i =>
    { s with
      words := ⟨0, trampolineSync, trampolineTsc, s.words.apStartedCount⟩
      bsp := .sipi i }
  | .sipi i =>
    { s with
      aps :=
        if answers i then Function.update s.aps i { s.aps i with place := .trampoline } else s.aps
      bsp := .poll i 0 }
  | .poll i waited =>
    if waited < 1000000 then
      if s.words.ready = 1 then { s with bsp := .awaitStarted i }
      else { s with bsp := .poll i (waited + 10) }
    else { s with bsp := nextAp n i }
  | .awaitStarted i => if s.words.apStartedCount < i then s else { s with bsp := .reset i [] }
  | .reset i offsets =>
    { s with words := { s.words with syncState := 0 }, bsp := .signal i offsets }
  | .signal i offsets =>
    { s with words := { s.words with syncState := 1 }, bsp := .rdtsc i offsets }
  | .rdtsc i offsets =>
    { s with
      readings := Function.update s.readings i (s.readings i ++ [tsc])
      bsp := .awaitTwo i offsets tsc }
  | .awaitTwo i offsets bspTsc =>
    if s.words.syncState = 2 then { s with bsp := .subtract i offsets bspTsc } else s
  | .subtract i offsets bspTsc =>
    let offsets := offsets ++ [difference bspTsc s.words.apTsc]
    { s with bsp := if offsets.length < 3 then .reset i offsets else .store i offsets }
  | .store i offsets =>
    { s with
      tscOffsets := Function.update s.tscOffsets i (some (median offsets))
      bsp := .finish i }
  | .finish i => { s with words := { s.words with syncState := 3 }, bsp := nextAp n i }
  | .returned => s

inductive Party where
  | bsp
  | ap (cpuId : Nat)
  deriving DecidableEq

def bringupStep (s : Machines) (p : Party) (tsc : Nat) : Machines :=
  match p with
  | .bsp => bootAp n answers s tsc
  | .ap i =>
    { s with
      words := (apMain s.words (s.aps i) tsc).1
      aps := Function.update s.aps i (apMain s.words (s.aps i) tsc).2 }

def bringupStart : Machines where
  words := ⟨0, 0, 0, 0⟩
  bsp := if n ≤ 1 then .returned else .prepare 1
  aps _ := ⟨.off, []⟩
  tscOffsets _ := none
  readings _ := []

def takesPart (p : Party) : Prop := p = .bsp ∨ ∃ i, 0 < i ∧ i < n ∧ p = .ap i

def boots (x : Schedule Party Nat) : Nat → Machines :=
  trace (bringupStep n answers) (bringupStart n) x

def Machines.InTime (s : Machines) : Prop :=
  ∀ i waited, s.bsp = .poll i waited → 1000000 ≤ waited → answers i = false

/-- All processors that answer do so within the second that boot_ap waits. -/
def Timely (x : Schedule Party Nat) : Prop := ∀ k, (boots n answers x k).InTime answers

end Steps

/-- Three readings of either counter have been taken, and the offset is the median of the
    differences in the three rounds. -/
structure Machines.Measured (s : Machines) (i : Nat) : Prop where
  bsp : (s.readings i).length = 3
  ap : (s.aps i).readings.length = 3
  offset : s.tscOffsets i =
    some (median (List.zipWith difference (s.readings i) (s.aps i).readings))

def Machines.Complete (n : Nat) (answers : Nat → Bool) (s : Machines) : Prop :=
  s.bsp = .returned ∧
    ∀ i, (0 < i ∧ i < n ∧ answers i = true → s.Measured i) ∧
      (¬ (0 < i ∧ i < n ∧ answers i = true) → s.tscOffsets i = none)

def Paired (offsets : List Int) (mine theirs : List Nat) : Prop :=
  offsets = List.zipWith difference mine theirs ∧ mine.length = theirs.length

variable {offsets : List Int} {mine theirs : List Nat} {r tsc : Nat} {w : Words} {a : Ap}

theorem Paired.length (paired : Paired offsets mine theirs) :
    mine.length = offsets.length ∧ theirs.length = offsets.length := by
  obtain ⟨rfl, same⟩ := paired
  rw [List.length_zipWith]
  omega

theorem Paired.snoc (paired : Paired offsets mine theirs) (b a : Nat) :
    Paired (offsets ++ [difference b a]) (mine ++ [b]) (theirs ++ [a]) := by
  obtain ⟨rfl, same⟩ := paired
  constructor
  · rw [List.zipWith_append same]
    rfl
  · rw [List.length_append, List.length_append, same]
    rfl

def AwaitsRound (r : Nat) (a : Ap) : Prop :=
  a.place = .awaitOne r ∨ ∃ q, r = q + 1 ∧ a.place = .awaitReset q

inductive Round (r : Nat) (before : List Nat) (w : Words) (a : Ap) : Prop where
  | asked (awaits : AwaitsRound r a ∨ a.place = .rdtsc r) (sync : w.syncState = 1)
      (same : a.readings = before)
  | read (tsc : Nat) (place : a.place = .publish r tsc ∨ (a.place = .answer r ∧ w.apTsc = tsc))
      (sync : w.syncState = 1) (new : a.readings = before ++ [tsc])
  | answered (tsc : Nat) (place : a.place = .awaitReset r) (word : w.apTsc = tsc)
      (sync : w.syncState = 2) (new : a.readings = before ++ [tsc])

inductive Starting (w : Words) (a : Ap) : Prop where
  | woken (place : a.place = .trampoline) (ready : w.ready = 0)
  | running (place : a.place = .main ∨ a.place = .awaitOne 0) (ready : w.ready = 1)

/-- What boot_ap, at its place, knows about the processor it starts: whether that one answers, the
    shared words, the processor, the readings taken for it, and its offset. -/
def Phase (yes : Bool) (place : BspPlace) (w : Words) (a : Ap) (mine : List Nat)
    (offset : Option Int) : Prop :=
  match place with
  | .prepare _ => a = ⟨.off, []⟩ ∧ mine = [] ∧ offset = none
  | .sipi _ =>
    a = ⟨.off, []⟩ ∧ mine = [] ∧ offset = none ∧ w.syncState = trampolineSync ∧ w.ready = 0
  | .poll _ _ =>
    a.readings = [] ∧ mine = [] ∧ offset = none ∧ w.syncState = trampolineSync ∧
      if yes then Starting w a else a.place = .off ∧ w.ready = 0
  | .awaitStarted _ =>
    yes = true ∧ a.readings = [] ∧ mine = [] ∧ offset = none ∧ w.syncState = trampolineSync ∧
      (a.place = .main ∨ a.place = .awaitOne 0)
  | .reset _ offsets =>
    yes = true ∧ offset = none ∧ offsets.length < 3 ∧ Paired offsets mine a.readings ∧
      AwaitsRound offsets.length a ∧ w.syncState ≠ 1 ∧
      (a.place = .awaitOne offsets.length ∨ w.syncState = 2)
  | .signal _ offsets =>
    yes = true ∧ offset = none ∧ offsets.length < 3 ∧ Paired offsets mine a.readings ∧
      AwaitsRound offsets.length a ∧ w.syncState = 0
  | .rdtsc _ offsets =>
    yes = true ∧ offset = none ∧ offsets.length < 3 ∧
      ∃ theirs, Paired offsets mine theirs ∧ Round offsets.length theirs w a
  | .awaitTwo _ offsets bspTsc =>
    yes = true ∧ offset = none ∧ offsets.length < 3 ∧
      ∃ before theirs, mine = before ++ [bspTsc] ∧ Paired offsets before theirs ∧
        Round offsets.length theirs w a
  | .subtract _ offsets bspTsc =>
    yes = true ∧ offset = none ∧ offsets.length < 3 ∧ w.syncState = 2 ∧
      a.place = .awaitReset offsets.length ∧
      ∃ before theirs, mine = before ++ [bspTsc] ∧ Paired offsets before theirs ∧
        a.readings = theirs ++ [w.apTsc]
  | .store _ offsets =>
    yes = true ∧ offset = none ∧ offsets.length = 3 ∧ w.syncState = 2 ∧ a.place = .awaitReset 2 ∧
      Paired offsets mine a.readings
  | .finish _ =>
    yes = true ∧ a.place = .awaitReset 2 ∧ ∃ offsets, offset = some (median offsets) ∧
      offsets.length = 3 ∧ w.syncState = 2 ∧ Paired offsets mine a.readings
  | .returned => a = ⟨.off, []⟩ ∧ mine = [] ∧ offset = none

theorem awaitsRound_apMain (tsc : Nat) (awaits : AwaitsRound r a) (few : r < 3)
    (sync : w.syncState ≠ 1) :
    (apMain w a tsc).1 = w ∧ AwaitsRound r (apMain w a tsc).2 ∧
      (apMain w a tsc).2.readings = a.readings := by
  rcases awaits with here | ⟨q, rfl, here⟩
  · simp [apMain, here, sync, AwaitsRound]
  · by_cases two : w.syncState = 2 <;> simp [apMain, here, two, few, AwaitsRound]

theorem round_apMain (round : Round r before w a) (few : r < 3) :
    Round r before (apMain w a tsc).1 (apMain w a tsc).2 := by
  cases round with
  | asked awaits sync same =>
    rcases awaits with (here | ⟨q, rfl, here⟩) | here
    · have act : apMain w a tsc = (w, ⟨.rdtsc r, a.readings⟩) := by simp [apMain, here, sync]
      rw [act]
      exact .asked (.inr rfl) sync same
    · have act : apMain w a tsc = (w, ⟨.awaitOne (q + 1), a.readings⟩) := by
        simp [apMain, here, sync, few]
      rw [act]
      exact .asked (.inl (.inl rfl)) sync same
    · have act : apMain w a tsc = (w, ⟨.publish r tsc, a.readings ++ [tsc]⟩) := by
        simp [apMain, here]
      rw [act]
      exact .read tsc (.inl rfl) sync (congrArg (· ++ [tsc]) same)
  | read got place sync new =>
    rcases place with here | ⟨here, word⟩
    · have act : apMain w a tsc = ({ w with apTsc := got }, ⟨.answer r, a.readings⟩) := by
        simp [apMain, here]
      rw [act]
      exact .read got (.inr ⟨rfl, rfl⟩) sync new
    · have act : apMain w a tsc = ({ w with syncState := 2 }, ⟨.awaitReset r, a.readings⟩) := by
        simp [apMain, here]
      rw [act]
      exact .answered got rfl word rfl new
  | answered got here word sync new =>
    have act : apMain w a tsc = (w, a) := by simp [apMain, here, sync]
    rw [act]
    exact .answered got here word sync new

theorem starting_apMain (tsc : Nat) (starting : Starting w a)
    (sync : w.syncState = trampolineSync) :
    Starting (apMain w a tsc).1 (apMain w a tsc).2 ∧
      (apMain w a tsc).1.syncState = trampolineSync ∧
      (apMain w a tsc).2.readings = a.readings := by
  have other : trampolineSync ≠ 1 := by decide
  cases starting with
  | woken here ready =>
    have act : apMain w a tsc = ({ w with ready := 1 }, { a with place := .main }) := by
      simp [apMain, here]
    rw [act]
    exact ⟨.running (.inl rfl) rfl, sync, rfl⟩
  | running place ready =>
    rcases place with here | here
    · have act : apMain w a tsc = ({ w with apStartedCount := w.apStartedCount + 1 },
          { a with place := .awaitOne 0 }) := by simp [apMain, here]
      rw [act]
      exact ⟨.running (.inr rfl) ready, sync, rfl⟩
    · have act : apMain w a tsc = (w, a) := by simp [apMain, here, sync, other]
      rw [act]
      exact ⟨.running (.inr here) ready, sync, rfl⟩

theorem off_apMain (off : a.place = .off) :
    apMain w a tsc = (w, a) := by
  simp [apMain, off]

theorem settled_apMain (here : a.place = .awaitReset 2) (sync : w.syncState = 2) :
    apMain w a tsc = (w, a) := by
  simp [apMain, here, sync]

theorem phase_apMain (tsc : Nat) (phase : Phase yes place w a mine offset) :
    Phase yes place (apMain w a tsc).1 (apMain w a tsc).2 mine offset := by
  cases place with
  | prepare i | sipi i | returned =>
    rw [off_apMain (by rw [phase.1])]
    exact phase
  | poll =>
    obtain ⟨fresh, mineNil, blank, sync, state⟩ := phase
    cases yes with
    | false =>
      rw [off_apMain state.1]
      exact ⟨fresh, mineNil, blank, sync, state⟩
    | true =>
      obtain ⟨starting, sync', same⟩ := starting_apMain tsc state sync
      exact ⟨by rw [same, fresh], mineNil, blank, sync', starting⟩
  | awaitStarted =>
    obtain ⟨answered, fresh, mineNil, blank, sync, here | here⟩ := phase
    · have act : apMain w a tsc = ({ w with apStartedCount := w.apStartedCount + 1 },
          { a with place := .awaitOne 0 }) := by simp [apMain, here]
      rw [act]
      exact ⟨answered, fresh, mineNil, blank, sync, .inr rfl⟩
    · have other : trampolineSync ≠ 1 := by decide
      have act : apMain w a tsc = (w, a) := by simp [apMain, here, sync, other]
      rw [act]
      exact ⟨answered, fresh, mineNil, blank, sync, .inr here⟩
  | reset =>
    obtain ⟨answered, blank, few, paired, awaits, sync, still⟩ := phase
    have act : apMain w a tsc = (w, a) := by
      rcases still with here | two
      · simp [apMain, here, sync]
      · rcases awaits with here | ⟨q, _, here⟩ <;> simp [apMain, here, two]
    rw [act]
    exact ⟨answered, blank, few, paired, awaits, sync, still⟩
  | signal =>
    obtain ⟨answered, blank, few, paired, awaits, sync⟩ := phase
    obtain ⟨words, awaits', same⟩ := awaitsRound_apMain tsc awaits few (by rw [sync]; decide)
    rw [words]
    exact ⟨answered, blank, few, by rw [same]; exact paired, awaits', sync⟩
  | rdtsc =>
    obtain ⟨answered, blank, few, theirs, paired, round⟩ := phase
    exact ⟨answered, blank, few, theirs, paired, round_apMain round few⟩
  | awaitTwo =>
    obtain ⟨answered, blank, few, before, theirs, split, paired, round⟩ := phase
    exact ⟨answered, blank, few, before, theirs, split, paired, round_apMain round few⟩
  | subtract =>
    have act : apMain w a tsc = (w, a) := by
      obtain ⟨_, _, _, sync, here, _⟩ := phase
      simp [apMain, here, sync]
    rw [act]
    exact phase
  | store =>
    rw [settled_apMain phase.2.2.2.2.1 phase.2.2.2.1]
    exact phase
  | finish =>
    obtain ⟨answered, here, offsets, stored, three, sync, paired⟩ := phase
    rw [settled_apMain here sync]
    exact ⟨answered, here, offsets, stored, three, sync, paired⟩

end TynKernel.Smp
