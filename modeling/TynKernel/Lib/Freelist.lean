import Mathlib.Data.List.Nodup
import Mathlib.Data.List.Range
import TynKernel.Lib.Runs

/-!
Numbers from a counter with a list of free ones. A caller that finds the list empty goes on to
the counter, and others may come between the two.
-/
namespace TynKernel.Freelists
open List Runs

structure Pool where
  next : Int
  free : List Int
  held : List Int
  waiting : Nat

def Pool.load (p : Pool) : Nat := p.held.length + p.waiting

inductive Step (p q : Pool) : Prop where
  | keep (next : q.next = p.next) (free : q.free = p.free) (held : q.held.Perm p.held)
      (waiting : q.waiting = p.waiting) : Step p q
  | reuse (n : Int) (next : q.next = p.next) (free : p.free = n :: q.free)
      (held : q.held.Perm (n :: p.held)) (waiting : q.waiting = p.waiting) : Step p q
  | miss (next : q.next = p.next) (empty : p.free = []) (free : q.free = p.free)
      (held : q.held.Perm p.held) (waiting : q.waiting = p.waiting + 1) : Step p q
  | count (next : q.next = p.next + 1) (free : q.free = p.free)
      (held : q.held.Perm (p.next :: p.held)) (waiting : p.waiting = q.waiting + 1) : Step p q
  | give (n : Int) (next : q.next = p.next) (free : q.free = n :: p.free)
      (held : p.held.Perm (n :: q.held)) (waiting : q.waiting = p.waiting) : Step p q

def numbers (base next : Int) : List Int :=
  (List.range (next - base).toNat).map fun i : Nat => base + (i : Int)

variable {base next : Int}

theorem mem_numbers : n ∈ numbers base next ↔ base ≤ n ∧ n < next := by
  unfold numbers
  rw [mem_map]
  constructor
  · rintro ⟨i, inside, same⟩
    rw [mem_range] at inside
    omega
  · rintro ⟨low, high⟩
    refine ⟨(n - base).toNat, mem_range.mpr ?_, ?_⟩ <;> omega

theorem numbers_nodup (base next : Int) : (numbers base next).Nodup := by
  refine nodup_range.map ?_
  intro i j same
  simp only at same
  omega

theorem numbers_length (started : base ≤ next) :
    ((numbers base next).length : Int) = next - base := by
  rw [numbers, length_map, length_range]
  omega

theorem numbers_next (started : base ≤ next) :
    (numbers base (next + 1)).Perm (next :: numbers base next) := by
  have size : (next + 1 - base).toNat = (next - base).toNat + 1 := by omega
  have last : base + ((next - base).toNat : Int) = next := by omega
  unfold numbers
  rw [size, range_succ, map_append, map_singleton, last]
  exact perm_append_singleton ..

structure Exact (base : Int) (p : Pool) : Prop where
  started : base ≤ p.next
  all : (p.held ++ p.free).Perm (numbers base p.next)

section Exact
variable {base : Int} {p q : Pool}

section
variable (exact_ : Exact base p)
include exact_

theorem exact_nodup : (p.held ++ p.free).Nodup :=
  exact_.all.nodup_iff.mpr (numbers_nodup base p.next)

theorem exact_mem :
    n ∈ p.held ++ p.free ↔ base ≤ n ∧ n < p.next :=
  exact_.all.mem_iff.trans mem_numbers

theorem exact_size :
    (p.held.length : Int) + p.free.length = p.next - base := by
  rw [← numbers_length exact_.started, ← exact_.all.length_eq, length_append]
  omega

theorem step_exact (step : Step p q) : Exact base q := by
  have started := exact_.started
  have all := exact_.all
  cases step with
  | keep next free held waiting | miss next empty free held waiting =>
    refine ⟨by omega, ?_⟩
    rw [next, free]
    exact (held.append_right p.free).trans all
  | reuse n next free held =>
    refine ⟨by omega, ?_⟩
    rw [free] at all
    rw [next]
    exact ((held.append_right q.free).trans perm_middle.symm).trans all
  | count next free held =>
    refine ⟨by omega, ?_⟩
    rw [next, free]
    exact ((held.append_right p.free).trans (all.cons p.next)).trans (numbers_next started).symm
  | give n next free held =>
    refine ⟨by omega, ?_⟩
    rw [next, free]
    exact (perm_middle.trans (held.append_right p.free).symm).trans all

theorem step_load (step : Step p q) :
    q.next + q.waiting = p.next + p.waiting ∨ q.next - base + q.waiting = q.load := by
  cases step with
  | keep next free held waiting | reuse n next free held waiting | give n next free held waiting =>
    left
    rw [next, waiting]
  | miss next empty free held =>
    have size := exact_size exact_
    rw [empty, length_nil] at size
    rw [Pool.load, held.length_eq, next]
    omega
  | count =>
    omega

end

end Exact

section Peak
variable {S A : Type}

def peak (load : S → Nat) : List (S × A) → S → Nat
  | [], s => load s
  | e :: past, s => max (load s) (peak load past e.1)

theorem peak_mono (load : S → Nat) (run : Run step mid later final) (earlier : List (S × A)) :
    peak load earlier mid ≤ peak load (later ++ earlier) final := by
  induction run with
  | nil => exact Nat.le_refl _
  | snoc before taken ih => exact Nat.le_trans ih (Nat.le_max_right _ _)

theorem run_exact (pool : S → Pool) (good : S → Prop) (initial : Exact base (pool start))
    (fresh : (pool start).next = base ∧ (pool start).waiting = 0) (begins : good start)
    (stays : ∀ s a s', step s a = some s' → good s')
    (each : ∀ s a s', good s → Exact base (pool s) → step s a = some s' →
      Step (pool s) (pool s')) (run : Run step start past final) :
    Exact base (pool final) ∧
      (pool final).next - base + (pool final).waiting ≤
        peak (fun s => (pool s).load) past final := by
  have valid : ∀ {past final}, Run step start past final → good final := by
    intro past final run
    cases run with
    | nil => exact begins
    | snoc before taken => exact stays _ _ _ taken
  induction run with
  | nil =>
    refine ⟨initial, ?_⟩
    omega
  | @snoc past s s' a before taken ih =>
    obtain ⟨exact_, bound⟩ := ih
    have moved := each s a s' (valid before) exact_ taken
    refine ⟨step_exact exact_ moved, ?_⟩
    simp only [peak]
    rcases step_load exact_ moved with same | raised
    · omega
    · omega

end Peak

end TynKernel.Freelists
