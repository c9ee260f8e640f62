import Mathlib.Algebra.Group.Int.Defs
import Mathlib.Algebra.Group.Nat.Defs
import Mathlib.Data.List.Basic
import TynKernel.Lib.Runs

/-!
Streams that are taken part by part. A sink answers a buffer with the number of elements that
it has taken, always the first ones of the buffer, or with a negative code, and then it has
taken nothing.
-/
namespace TynKernel.Streams
open Runs
variable {A S L : Type}

/-- A sink in a state, with the stream of all that it has taken. The answer is a signed word. -/
structure Sink (A S : Type) where
  write : S → List A → S × Int
  stream : S → List A
  took : ∀ s buf, 0 ≤ (write s buf).2 → (write s buf).2.toNat ≤ buf.length ∧
    stream (write s buf).1 = stream s ++ buf.take (write s buf).2.toNat
  refused : ∀ s buf, (write s buf).2 < 0 → stream (write s buf).1 = stream s
  word : ∀ s buf, (write s buf).2 < 2 ^ 63

def capped (cap : Nat) (small : cap < 2 ^ 63) : Sink A (List A) where
  write s buf := (s ++ buf.take cap, (min buf.length cap : Nat))
  stream s := s
  took s buf _ := by
    rw [Int.toNat_natCast, Nat.min_comm, ← List.take_eq_take_min]
    exact ⟨Nat.min_le_right _ _, rfl⟩
  refused s buf error := absurd error (by simp only; omega)
  word s buf := by
    simp only
    omega

def Sink.Took (sink : Sink A S) (s s' : S) (xs : List A) : Prop :=
  sink.stream s' = sink.stream s ++ xs

theorem took_nothing (sink : Sink A S) (s : S) : sink.Took s s [] := (List.append_nil _).symm

theorem took_append {sink : Sink A S} {s s' s'' : S} {xs ys : List A} (first : sink.Took s s' xs)
    (second : sink.Took s' s'' ys) : sink.Took s s'' (xs ++ ys) := by
  unfold Sink.Took at *
  rw [second, first, List.append_assoc]

/-- A sink with room for so many elements. While it is ready it takes all there is room for, and
    it stays ready as long as room is left. A full one takes nothing. -/
structure Fills (sink : Sink A S) (room : S → Nat) (ready : S → Prop) : Prop where
  takes : ∀ s buf, ready s → (sink.write s buf).2 = (min buf.length (room s) : Nat)
  stays : ∀ s buf, ready s → buf.length < room s →
    ready (sink.write s buf).1 ∧ room (sink.write s buf).1 = room s - buf.length
  full : ∀ s buf more, ready s → room s ≤ buf.length →
    (sink.write (sink.write s buf).1 more).2 ≤ 0

def part (whole : List A) (start n : Nat) : List A := (whole.drop start).take n

theorem part_append (whole : List A) (start n m : Nat) :
    part whole start n ++ part whole (start + n) m = part whole start (n + m) := by
  unfold part
  rw [List.take_add, List.drop_drop]

theorem part_length (inside : n ≤ whole.length - start) : (part whole start n).length = n := by
  unfold part
  rw [List.length_take, List.length_drop]
  exact Nat.min_eq_left inside

theorem part_zero (whole : List A) (start : Nat) : part whole start 0 = [] := List.take_zero

/-- A sender at a place of its stream. Each call takes the part between the place before and the
    place after it; then so does the whole run. -/
theorem run_takes {T : Type} {sink : Sink A S} {whole : List A} {step : T → L → Option T}
    (inner : T → S) (place : T → Nat) (ok : T → L → Prop) (I : T → Prop)
    {start final : T} {past : List (T × L)} (initial : I start)
    (each : ∀ p l p', I p → ok p l → step p l = some p' → I p' ∧ ∃ n,
      n ≤ whole.length - place p ∧ place p' = place p + n ∧
        sink.Took (inner p) (inner p') (part whole (place p) n))
    (run : Run step start past final) (allowed : ∀ e ∈ past, ok e.1 e.2) :
    I final ∧ ∃ n, n ≤ whole.length - place start ∧ place final = place start + n ∧
      sink.Took (inner start) (inner final) (part whole (place start) n) := by
  refine run_invariant_of ok (fun p => I p ∧ ∃ n, n ≤ whole.length - place start ∧
    place p = place start + n ∧ sink.Took (inner start) (inner p) (part whole (place start) n))
    ⟨initial, 0, Nat.zero_le _, rfl, ?_⟩ ?_ run allowed
  · exact took_nothing sink _
  rintro p l p' ⟨holds, n, inside, here, took⟩ good taken
  obtain ⟨next, m, insideNext, there, tookNext⟩ := each p l p' holds good taken
  rw [here] at insideNext there tookNext
  refine ⟨next, n + m, by omega, by omega, ?_⟩
  rw [← part_append]
  exact took_append took tookNext

end TynKernel.Streams
