import TynKernel.Lib.Numbers
import TynKernel.Lib.Streams

/-!
sys_writev over any sys_write that takes a first part of its buffer or fails. The loop counts in
a signed word, which is exact as long as one call cannot take 2^63 bytes.
-/
namespace TynKernel.Io
open List Numbers Runs Streams
variable {S : Type}

def writevFrom (sink : Sink UInt8 S) : S → Int → List (List UInt8) → S × Int
  | s, total, [] => (s, total)
  | s, total, v :: rest =>
    if v.length = 0 then writevFrom sink s total rest
    else
      let result := sink.write s v
      let written := result.2
      if written < 0 then (result.1, if 0 < total then total else written)
      else
        let total := asI64 (total + written)
        if written.toNat < v.length then (result.1, total)
        else writevFrom sink result.1 total rest

def sysWritev (sink : Sink UInt8 S) (s : S) (iov : List (List UInt8)) : S × Int :=
  writevFrom sink s 0 iov

/-- The call takes a first part of all buffers together. Its answer is the length of that part,
    or negative, and then nothing is taken. -/
def Exact (sink : Sink UInt8 S) (s : S) (iov : List (List UInt8)) : Prop :=
  ∃ n, n ≤ iov.flatten.length ∧ sink.Took s (sysWritev sink s iov).1 (iov.flatten.take n) ∧
    (0 ≤ (sysWritev sink s iov).2 → (sysWritev sink s iov).2 = n) ∧
    ((sysWritev sink s iov).2 < 0 → n = 0)

/-- The most that one call can take of buffers of these lengths. An answer of sys_write is less
    than 2^63, so a longer buffer is never taken in full. -/
def most : List Nat → Nat
  | [] => 0
  | len :: rest => if len < 2 ^ 63 then len + most rest else 2 ^ 63 - 1

def Countable (iov : List (List UInt8)) : Prop := most (iov.map List.length) < 2 ^ 63

variable {iov : List (List UInt8)} {sink : Sink UInt8 S}

/-- The loop has taken n more bytes. It returns the count, as far as a word holds it, or an
    error if that count is not positive. -/
theorem writevFrom_takes (sink : Sink UInt8 S) (s : S) (done : Nat) (iov : List (List UInt8)) :
    ∃ n, n ≤ iov.flatten.length ∧ n ≤ most (iov.map List.length) ∧
      sink.Took s (writevFrom sink s (asI64 done) iov).1 (iov.flatten.take n) ∧
      ((writevFrom sink s (asI64 done) iov).2 = asI64 (done + n : Nat) ∨
        (writevFrom sink s (asI64 done) iov).2 < 0 ∧ asI64 (done + n : Nat) ≤ 0) := by
  induction iov generalizing s done with
  | nil =>
    refine ⟨0, Nat.zero_le _, Nat.zero_le _, took_nothing sink s, .inl ?_⟩
    rw [Nat.add_zero, writevFrom]
  | cons v rest ih =>
    simp only [writevFrom]
    split
    · -- an empty buffer is skipped
      rename_i empty
      rw [length_eq_zero_iff] at empty
      subst empty
      obtain ⟨n, inside, bound, took, answer⟩ := ih s done
      refine ⟨n, inside, ?_, took, answer⟩
      rw [map_cons, length_nil, most, if_pos (by decide), Nat.zero_add]
      exact bound
    · split
      · -- an error ends the call
        rename_i error
        refine ⟨0, Nat.zero_le _, Nat.zero_le _, ?_, ?_⟩
        · exact (sink.refused s v error).trans (append_nil _).symm
        rw [Nat.add_zero]
        by_cases positive : 0 < asI64 done
        · left
          rw [if_pos positive]
        · rw [if_neg positive]
          exact .inr ⟨error, Int.not_lt.mp positive⟩
      · rename_i valid
        obtain ⟨short, took⟩ := sink.took s v (Int.not_lt.mp valid)
        have word := sink.word s v
        generalize count : (sink.write s v).2.toNat = k at *
        have answer : (sink.write s v).2 = k := by omega
        have total : asI64 (asI64 done + (sink.write s v).2) = asI64 (done + k : Nat) := by
          rw [asI64_add, answer, Int.natCast_add]
        rw [total]
        have firstPart : k ≤ most ((v :: rest).map List.length) := by
          simp only [map_cons, most]
          split <;> omega
        split
        · -- a short write ends the call
          refine ⟨k, ?_, firstPart, ?_, .inl (by simp only)⟩
          · rw [flatten_cons, length_append]
            omega
          · rw [flatten_cons, take_append_of_le_length short]
            exact took
        · -- the buffer is taken in full
          have all : k = v.length := by omega
          obtain ⟨n, inside, bound, tookRest, result⟩ := ih (sink.write s v).1 (done + k)
          refine ⟨k + n, ?_, ?_, ?_, ?_⟩
          · rw [flatten_cons, length_append]
            omega
          · simp only [map_cons, most]
            rw [if_pos (by omega)]
            omega
          · have both : sink.Took s _ _ := took_append took tookRest
            rw [all] at both ⊢
            rw [flatten_cons, take_length_add_append]
            rwa [take_length] at both
          · rw [← Nat.add_assoc]
            exact result

theorem sysWritev_word (sink : Sink UInt8 S) (s : S) (total : Int) (small : total < 2 ^ 63)
    (iov : List (List UInt8)) : (writevFrom sink s total iov).2 < 2 ^ 63 := by
  induction iov generalizing s total with
  | nil => exact small
  | cons v rest ih =>
    simp only [writevFrom]
    split
    · exact ih s total small
    split
    · split
      · exact small
      · exact sink.word s v
    · split
      · exact asI64_lt _
      · exact ih _ _ (asI64_lt _)

theorem countable_exact (sink : Sink UInt8 S) (s : S) (countable : Countable iov) :
    Exact sink s iov := by
  obtain ⟨n, inside, bound, took, answer⟩ := writevFrom_takes sink s 0 iov
  rw [asI64_nat (by decide), Int.natCast_zero] at took answer
  rw [Nat.zero_add] at answer
  have small : n < 2 ^ 63 := Nat.lt_of_le_of_lt bound countable
  rw [asI64_nat small] at answer
  refine ⟨n, inside, took, ?_, ?_⟩
  · intro valid
    rcases answer with same | ⟨error, _⟩
    · exact same
    · exact absurd valid (Int.not_le.mpr error)
  · intro error
    rcases answer with same | ⟨_, none⟩
    · unfold sysWritev at error
      omega
    · omega

theorem writevFrom_full (full : ∀ buf, (sink.write s buf).2 ≤ 0) {total : Nat}
    (some_ : 0 < total) (small : total < 2 ^ 63) (iov : List (List UInt8)) :
    (writevFrom sink s total iov).2 = total ∧
      sink.Took s (writevFrom sink s total iov).1 [] := by
  induction iov with
  | nil => exact ⟨rfl, took_nothing sink s⟩
  | cons v rest ih =>
    simp only [writevFrom]
    split
    · exact ih
    split
    · rename_i error
      refine ⟨if_pos (by omega), ?_⟩
      exact (sink.refused s v error).trans (append_nil _).symm
    rename_i valid
    have zero : (sink.write s v).2 = 0 := Int.le_antisymm (full v) (Int.not_lt.mp valid)
    have took := (sink.took s v (Int.not_lt.mp valid)).2
    have short : (sink.write s v).2.toNat < v.length := by omega
    rw [if_pos short]
    rw [zero] at took ⊢
    refine ⟨?_, took⟩
    rw [Int.add_zero, asI64_nat small]

theorem writevFrom_fills {room : S → Nat} {ready : S → Prop} (fills : Fills sink room ready)
    (iov : List (List UInt8)) {s : S} (isReady : ready s) (done : Nat)
    (small : done + room s < 2 ^ 63) :
    (writevFrom sink s done iov).2 = (done + min iov.flatten.length (room s) : Nat) ∧
      sink.Took s (writevFrom sink s done iov).1
        (iov.flatten.take (min iov.flatten.length (room s))) := by
  induction iov generalizing s done with
  | nil =>
    exact ⟨rfl, took_nothing sink s⟩
  | cons v rest ih =>
    simp only [writevFrom]
    split
    · rename_i empty
      rw [length_eq_zero_iff] at empty
      subst empty
      exact ih isReady done small
    · have takes := fills.takes s v isReady
      have valid : ¬ (sink.write s v).2 < 0 := by omega
      have took := (sink.took s v (Int.not_lt.mp valid)).2
      rw [takes, Int.toNat_natCast] at took
      rw [if_neg valid, takes, Int.toNat_natCast, ← Int.natCast_add,
        asI64_nat (by omega), flatten_cons, length_append]
      split
      · -- a short write ends the call
        have all : min (v.length + rest.flatten.length) (room s) = min v.length (room s) := by omega
        rw [all, take_append_of_le_length (Nat.min_le_left _ _)]
        exact ⟨rfl, took⟩
      · have length : min v.length (room s) = v.length := by omega
        rw [length, take_length] at took
        rw [length]
        by_cases more : v.length < room s
        · obtain ⟨again, left⟩ := fills.stays s v isReady more
          obtain ⟨answer, tookRest⟩ := ih again (done + v.length) (by omega)
          have sum : min (v.length + rest.flatten.length) (room s) =
              v.length + min rest.flatten.length (room (sink.write s v).1) := by omega
          rw [sum, take_length_add_append, answer, ← Nat.add_assoc]
          exact ⟨rfl, took_append took tookRest⟩
        · -- the last byte of the buffer has filled the sink
          have full := fun buf => fills.full s v buf isReady (by omega)
          obtain ⟨answer, nothing⟩ :=
            writevFrom_full full (show 0 < done + v.length by omega) (by omega) rest
          have all : min (v.length + rest.flatten.length) (room s) = v.length := by omega
          have both := took_append took nothing
          rw [append_nil] at both
          rw [all, answer, take_left]
          exact ⟨rfl, both⟩

theorem writevFrom_refused (error : code < 0) (refuses : ∀ buf, (sink.write s buf).2 = code)
    (iov : List (List UInt8)) :
    (writevFrom sink s 0 iov).2 = (if iov.flatten.length = 0 then 0 else code) ∧
      sink.Took s (writevFrom sink s 0 iov).1 [] := by
  induction iov with
  | nil => exact ⟨rfl, took_nothing sink s⟩
  | cons v rest ih =>
    simp only [writevFrom, refuses, flatten_cons, length_append]
    by_cases empty : v.length = 0
    · rw [if_pos empty, empty, Nat.zero_add]
      exact ih
    · rw [if_neg empty, if_pos error, if_neg (by decide), if_neg (by omega)]
      refine ⟨rfl, ?_⟩
      exact (sink.refused s v (by rw [refuses]; exact error)).trans (append_nil _).symm

def greedy : Sink UInt8 (List UInt8) := capped (2 ^ 63 - 1) (by decide)

theorem greedy_takes (s : List UInt8) (total : Int) (iov : List (List UInt8)) :
    (writevFrom greedy s total iov).1.length = s.length + most (iov.map List.length) := by
  induction iov generalizing s total with
  | nil => rfl
  | cons v rest ih =>
    have valid : ¬ (greedy.write s v).2 < 0 := by
      simp only [greedy, capped]
      omega
    have count : (greedy.write s v).2.toNat = min v.length (2 ^ 63 - 1) := Int.toNat_natCast _
    have grown : (greedy.write s v).1.length = s.length + min v.length (2 ^ 63 - 1) := by
      simp [greedy, capped, Nat.min_comm]
    simp only [writevFrom, map_cons, most]
    split
    · rename_i empty
      rw [ih, empty, if_pos (by decide), Nat.zero_add]
    split
    · rw [if_neg (by omega), grown]
      omega
    · rw [if_pos (by omega), ih, grown]
      omega

theorem exact_countable (exact_ : Exact greedy [] iov) :
    Countable iov := by
  obtain ⟨n, _, took, answer, error⟩ := exact_
  have length := greedy_takes [] 0 iov
  have taken : (sysWritev greedy [] iov).1 = iov.flatten.take n := took
  have word := sysWritev_word greedy [] 0 (by decide) iov
  unfold sysWritev at *
  rw [taken, length_nil, Nat.zero_add, length_take] at length
  unfold Countable
  by_cases valid : 0 ≤ (writevFrom greedy [] 0 iov).2
  · omega
  · omega

/-- The caller offers buffers with a first part of what is left of its stream. After an error it
    stays where it is. -/
def retry (sink : Sink UInt8 S) (whole : List UInt8) (p : S × Nat) (iov : List (List UInt8)) :
    Option (S × Nat) :=
  if iov.flatten <+: whole.drop p.2 then
    let result := sysWritev sink p.1 iov
    some (result.1, if 0 ≤ result.2 then p.2 + result.2.toNat else p.2)
  else none

theorem retry_takes (countable : Countable iov) (taken : retry sink whole p iov = some p') :
    ∃ n, n ≤ whole.length - p.2 ∧
      p'.2 = p.2 + n ∧ sink.Took p.1 p'.1 (part whole p.2 n) := by
  unfold retry at taken
  split at taken
  · rename_i offered
    cases taken
    obtain ⟨n, inside, took, answer, error⟩ := countable_exact sink p.1 countable
    obtain ⟨rest, all⟩ := offered
    have left : iov.flatten.length ≤ whole.length - p.2 := by
      rw [← length_drop, ← all, length_append]
      omega
    refine ⟨n, by omega, ?_, ?_⟩
    · by_cases valid : 0 ≤ (sysWritev sink p.1 iov).2
      · simp only [if_pos valid]
        omega
      · simp only [if_neg valid]
        omega
    · unfold part
      rw [← all, take_append_of_le_length inside]
      exact took
  · cases taken

/-- One call is exact with every sink if and only if it cannot take 2^63 bytes. A caller that
    goes on at the returned count, or at the same place after an error, has at all times handed
    over a first part of its stream. -/
theorem writev_delivers_once (iov : List (List UInt8)) :
    ((∀ (S : Type) (sink : Sink UInt8 S) (s : S), Exact sink s iov) ↔ Countable iov) ∧
    ∀ (S : Type) (sink : Sink UInt8 S) (whole : List UInt8) (s₀ s : S) (place : Nat)
      (past : List ((S × Nat) × List (List UInt8))),
      Run (retry sink whole) (s₀, 0) past (s, place) → (∀ e ∈ past, Countable e.2) →
      place ≤ whole.length ∧ sink.Took s₀ s (whole.take place) := by
  constructor
  · constructor
    · intro all
      exact exact_countable (all (List UInt8) greedy [])
    · intro countable S sink s
      exact countable_exact sink s countable
  · intro S sink whole s₀ s place past run countable
    obtain ⟨_, n, inside, same, took⟩ := run_takes Prod.fst Prod.snd (fun _ iov => Countable iov)
      (fun _ => True) trivial
      (fun p iov p' _ ok taken => ⟨trivial, retry_takes ok taken⟩) run countable
    have here : place = n := same.trans (Nat.zero_add n)
    subst here
    exact ⟨inside, took⟩

theorem greedy_pair {v w : List UInt8} (first : v.length = n) (second : w.length = n)
    (some_ : n ≠ 0) (small : n < 2 ^ 63) :
    (sysWritev greedy [] [v, w]).2 = asI64 (asI64 (0 + n) + n) ∧
      (sysWritev greedy [] [v, w]).1.length = n + n := by
  constructor
  · have answer : ∀ s u, u.length = n → (greedy.write s u).2 = n := by
      intro s u length
      have full : min n (2 ^ 63 - 1) = n := by omega
      simp only [greedy, capped, length, full]
    have valid : ¬ (n : Int) < 0 := by omega
    simp [sysWritev, writevFrom, first, second, answer _ v first, answer _ w second, some_, valid]
  · have length := greedy_takes [] 0 [v, w]
    rw [map_cons, map_cons, first, second, map_nil, most, most, most, if_pos small,
      if_pos small, length_nil, Nat.zero_add, Nat.add_zero] at length
    exact length

/-- Two buffers of 2^62 bytes each for the null device: all is taken, and the sum of the answers
    is a negative word. -/
theorem writev_count_overflows : ∃ v : List UInt8, v.length = 2 ^ 62 ∧
    (sysWritev greedy [] [v, v]).2 = -2 ^ 63 ∧
    (sysWritev greedy [] [v, v]).1.length = 2 ^ 63 := by
  refine ⟨List.replicate (2 ^ 62) 0, length_replicate, ?_⟩
  generalize same : List.replicate (2 ^ 62) (0 : UInt8) = v
  have length : v.length = 2 ^ 62 := by rw [← same, length_replicate]
  obtain ⟨answer, taken⟩ := greedy_pair length length (by decide) (by decide)
  exact ⟨answer.trans (by decide), taken.trans (by decide)⟩

end TynKernel.Io
