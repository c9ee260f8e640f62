import Mathlib.Algebra.Group.Int.Defs
import Mathlib.Algebra.Group.Nat.Defs
import Mathlib.Data.List.Nodup

/-!
Numbered entries. Several tables share one space of numbers, each with a counter of its own
that hands out the next number of the table's band.
-/
namespace TynKernel.Numbers
open List
variable {O : Type}

/-- The value of a 64-bit or 32-bit word cast to a signed 32-bit one. -/
def asI32 (x : Int) : Int := x.bmod (2 ^ 32)

variable {x k base next code : Int} {t t' : List (Int × O)} {ks ks' : List Int} {o : O}

theorem asI32_of_lt (low : 0 ≤ x) (high : x < 2 ^ 31) : asI32 x = x := by
  apply Int.bmod_eq_of_le <;> omega

def asI64 (x : Int) : Int := x.bmod (2 ^ 64)

theorem asI64_of_lt (low : 0 ≤ x) (high : x < 2 ^ 63) : asI64 x = x := by
  apply Int.bmod_eq_of_le <;> omega

theorem asI64_nat {n : Nat} (small : n < 2 ^ 63) : asI64 n = n :=
  asI64_of_lt (Int.natCast_nonneg n) (by omega)

theorem asI64_lt (x : Int) : asI64 x < 2 ^ 63 := by
  have := @Int.bmod_lt x (2 ^ 64) (by decide)
  unfold asI64
  omega

theorem asI64_add (x y : Int) : asI64 (asI64 x + y) = asI64 (x + y) := Int.bmod_add_bmod

theorem asI64_mod (n : Nat) : asI64 (n % 2 ^ 64 : Nat) = asI64 n := by
  rw [asI64, Int.natCast_emod]
  exact Int.emod_bmod _ _

def asU64 (x : Int) : Nat := (x % 2 ^ 64).toNat

theorem asU64_asI64 (n : Nat) : asU64 (asI64 n) = n % 2 ^ 64 := by
  have same : asI64 n % 2 ^ 64 = n % 2 ^ 64 := Int.bmod_emod
  rw [asU64, same]
  omega

def keys (t : List (Int × O)) : List Int := t.map Prod.fst

theorem mem_keys : k ∈ keys t ↔ ∃ o, (k, o) ∈ t := by
  simp [keys]

theorem keys_append (s t : List (Int × O)) : keys (s ++ t) = keys s ++ keys t := map_append

structure Issued (base next : Int) (ks : List Int) : Prop where
  distinct : ks.Nodup
  low : ∀ k ∈ ks, base ≤ k
  high : ∀ k ∈ ks, k < next

theorem issued_nil (base next : Int) : Issued base next [] :=
  ⟨nodup_nil, by simp, by simp⟩

theorem issued_perm (issued : Issued base next ks) (perm : ks'.Perm ks) : Issued base next ks' :=
  ⟨perm.nodup_iff.mpr issued.distinct, fun k member => issued.low k (perm.mem_iff.mp member),
    fun k member => issued.high k (perm.mem_iff.mp member)⟩

theorem issued_sublist (issued : Issued base next ks) (sub : ks'.Sublist ks) :
    Issued base next ks' :=
  ⟨sub.nodup issued.distinct, fun k member => issued.low k (sub.subset member),
    fun k member => issued.high k (sub.subset member)⟩

theorem issued_mono (issued : Issued base next ks) (more : next ≤ next') :
    Issued base next' ks :=
  ⟨issued.distinct, issued.low, fun k member => Int.lt_of_lt_of_le (issued.high k member) more⟩

theorem issued_next (issued : Issued base next ks) (started : base ≤ next) :
    Issued base (next + 1) (next :: ks) := by
  refine ⟨nodup_cons.mpr ⟨?_, issued.distinct⟩, ?_, ?_⟩
  · intro member
    have := issued.high next member
    omega
  · intro k member
    rcases mem_cons.mp member with same | old
    · omega
    · exact issued.low k old
  · intro k member
    rcases mem_cons.mp member with same | old
    · omega
    · have := issued.high k old
      omega

theorem issued_append (first : Issued base mid ks)
    (second : Issued base' next ks') (apart : mid ≤ base') (started : base ≤ base')
    (ends : mid ≤ next) : Issued base next (ks ++ ks') := by
  refine ⟨nodup_append.mpr ⟨first.distinct, second.distinct, ?_⟩, ?_, ?_⟩
  · intro k member k' member' same
    have := first.high k member
    have := second.low k' member'
    omega
  · intro k member
    rcases mem_append.mp member with inFirst | inSecond
    · exact first.low k inFirst
    · have := second.low k inSecond
      omega
  · intro k member
    rcases mem_append.mp member with inFirst | inSecond
    · have := first.high k inFirst
      omega
    · exact second.high k inSecond

inductive Added (t : List (Int × O)) (o : O) (code : Int) (t' : List (Int × O)) : Prop where
  | put (valid : 0 ≤ code) (perm : t'.Perm ((code, o) :: t)) : Added t o code t'
  | refused (error : code < 0) (same : t' = t) : Added t o code t'

inductive Taken (t : List (Int × O)) (k : Int) (t' : List (Int × O)) : Prop where
  | took (o : O) (perm : t.Perm ((k, o) :: t')) : Taken t k t'
  | absent (none : k ∉ keys t) (perm : t'.Perm t) : Taken t k t'

theorem added_mem (added : Added t o code t') (member : e ∈ t') :
    (0 ≤ code ∧ e = (code, o)) ∨ e ∈ t := by
  cases added with
  | put valid perm =>
    rcases mem_cons.mp (perm.mem_iff.mp member) with new | old
    · exact .inl ⟨valid, new⟩
    · exact .inr old
  | refused error same => exact .inr (same ▸ member)

def Gains (given : Int → Prop) (t t' : List (Int × O)) : Prop :=
  ∀ k o, (k, o) ∈ t' → (k, o) ∈ t ∨ given k

theorem gains_same (given : Int → Prop) (same : t' = t) :
    Gains given t t' := fun _ _ member => .inl (same ▸ member)

theorem gains_append (first : Gains given t t')
    (second : Gains given u u') : Gains given (t ++ u) (t' ++ u') := by
  intro k o member
  rw [mem_append]
  rcases mem_append.mp member with left | right
  · exact (first k o left).imp_left .inl
  · exact (second k o right).imp_left .inr

theorem gains_added (added : Added t o code t') :
    Gains (code = ·) t t' := by
  intro k x member
  rcases added_mem added member with ⟨_, same⟩ | old
  · exact .inr (Prod.mk.inj same).1.symm
  · exact .inl old

theorem issued_added (issued : Issued base next (keys t)) (started : base ≤ next)
    (added : Added t o code t') (counted : 0 ≤ code → code = next) :
    Issued base (next + 1) (keys t') := by
  cases added with
  | put valid perm =>
    have keysPerm : (keys t').Perm (code :: keys t) := perm.map Prod.fst
    rw [counted valid] at keysPerm
    exact issued_perm (issued_next issued started) keysPerm
  | refused error same =>
    rw [same]
    exact issued_sublist (issued_next issued started) (sublist_cons_self _ _)

theorem issued_taken (issued : Issued base next (keys t)) (taken : Taken t k t') :
    Issued base next (keys t') := by
  cases taken with
  | took o perm =>
    have keysPerm : (keys t).Perm (k :: keys t') := perm.map Prod.fst
    exact issued_sublist (issued_perm issued keysPerm.symm) (sublist_cons_self _ _)
  | absent none perm => exact issued_perm issued (perm.map Prod.fst)

theorem entry_unique (distinct : (keys t).Nodup) (first : (k, o) ∈ t)
    (second : (k, o') ∈ t) : o = o' := by
  have same := inj_on_of_nodup_map distinct first second rfl
  exact (Prod.mk.inj same).2

theorem taken_mem (distinct : (keys t).Nodup) (taken : Taken t k t') (e : Int × O) :
    e ∈ t' ↔ e ∈ t ∧ e.1 ≠ k := by
  cases taken with
  | took o perm =>
    have keysPerm : (keys t).Perm (k :: keys t') := perm.map Prod.fst
    obtain ⟨fresh, _⟩ := nodup_cons.mp (keysPerm.nodup_iff.mp distinct)
    rw [perm.mem_iff, mem_cons]
    constructor
    · intro member
      refine ⟨.inr member, fun same => fresh ?_⟩
      rw [← same]
      exact mem_map_of_mem member
    · rintro ⟨same | member, other⟩
      · rw [same] at other
        exact absurd rfl other
      · exact member
  | absent none perm =>
    rw [perm.mem_iff]
    constructor
    · intro member
      refine ⟨member, fun eq => none ?_⟩
      rw [← eq]
      exact mem_map_of_mem member
    · exact And.left

theorem taken_eraseP (rows : List A) (number : A → Int) (object : A → O) (k : Int) :
    Taken (rows.map fun a => (number a, object a)) k
      ((rows.eraseP fun a => number a = k).map fun a => (number a, object a)) := by
  by_cases present : ∃ a ∈ rows, number a = k
  · obtain ⟨a, member, same⟩ := present
    obtain ⟨found, before, after, _, test, split, erased⟩ :=
      exists_of_eraseP (p := fun a => decide (number a = k)) member (by simpa using same)
    have number_eq : number found = k := of_decide_eq_true test
    refine .took (object found) ?_
    rw [erased, split, map_append, map_append, map_cons, number_eq]
    exact perm_middle
  · have absent : ∀ a ∈ rows, ¬ number a = k := fun a member same => present ⟨a, member, same⟩
    refine .absent ?_ ?_
    · intro member
      obtain ⟨o, inside⟩ := mem_keys.mp member
      obtain ⟨a, isRow, eq⟩ := mem_map.mp inside
      exact absent a isRow (Prod.mk.inj eq).1
    · rw [eraseP_of_forall_not fun a member => by simpa using absent a member]

theorem find_entry {A : Type} {rows : List A} {number : A → Int} {object : A → O} {k : Int} {o : O}
    (distinct : (rows.map number).Nodup) (member : (k, o) ∈ rows.map fun a => (number a, object a)) :
    ∃ a, rows.find? (fun a => number a = k) = some a ∧ object a = o := by
  obtain ⟨a, inside, eq⟩ := mem_map.mp member
  obtain ⟨number_eq, object_eq⟩ := Prod.mk.inj eq
  have some_row : (rows.find? fun a => number a = k).isSome := by
    rw [find?_isSome]
    exact ⟨a, inside, by simpa using number_eq⟩
  obtain ⟨b, found⟩ := Option.isSome_iff_exists.mp some_row
  have number_b : number b = k := by simpa using find?_some found
  have same := inj_on_of_nodup_map distinct (mem_of_find?_eq_some found) inside
    (number_b.trans number_eq.symm)
  exact ⟨b, found, by rw [same, object_eq]⟩

end TynKernel.Numbers
