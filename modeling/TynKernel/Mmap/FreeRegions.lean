import Mathlib.Algebra.Group.Nat.Defs
import TynKernel.Lib.Regions
import TynKernel.Lib.Rows

/-!
FREE_REGIONS, the unordered vector of address ranges that munmap gives back, and the three
functions of syscall.rs that work on it while they hold its lock. Sums and differences are
those of u64 in a release build; the laws below are for ranges that end inside 64 bits.
-/
namespace TynKernel.Mmap
open Regions Rows
variable {a b addr len k i skip j m bestExcess : Nat} {r q new : Region} {free : List Region}
  {best : Option Nat}

def wrappingAdd (a b : Nat) : Nat := (a + b) % 2 ^ 64
def wrappingSub (a b : Nat) : Nat := (a + (2 ^ 64 - b)) % 2 ^ 64

def Fits (r : Region) : Prop := r.1 + r.2 < 2 ^ 64

theorem wrappingAdd_eq (small : a + b < 2 ^ 64) : wrappingAdd a b = a + b :=
  Nat.mod_eq_of_lt small

theorem wrappingSub_eq (small : a < 2 ^ 64) (less : b ≤ a) :
    wrappingSub a b = a - b := by
  have shift : a + (2 ^ 64 - b) = a - b + 2 ^ 64 := by omega
  rw [wrappingSub, shift, Nat.add_mod_right, Nat.mod_eq_of_lt (by omega)]

theorem join_fits (touch : Touches r q) (hr : Fits r) (hq : Fits q) :
    Fits (join r q) := by
  simp only [Touches, Fits, join] at *
  omega

/-- First loop of free_regions_add: the first entry that the range touches, extended by it. -/
def extendEntry (addr len : Nat) : List Region → Nat → Option (Nat × Region)
  | [], _ => none
  | (a, l) :: rest, i =>
    if wrappingAdd a l = addr then some (i, (a, wrappingAdd l len))
    else if wrappingAdd addr len = a then some (i, (addr, wrappingAdd l len))
    else extendEntry addr len rest (i + 1)

def secondEntry (skip : Nat) (new : Region) : List Region → Nat → Option (Nat × Region)
  | [], _ => none
  | (a, l) :: rest, j =>
    if j = skip then secondEntry skip new rest (j + 1)
    else if wrappingAdd a l = new.1 ∨ wrappingAdd new.1 new.2 = a then some (j, (a, l))
    else secondEntry skip new rest (j + 1)

def mergeRange (new other : Region) : Region :=
  let (lo, hi) :=
    if other.1 < new.1 then (other.1, wrappingAdd new.1 new.2)
    else (new.1, wrappingAdd other.1 other.2)
  (lo, wrappingSub hi lo)

def freeRegionsAdd (free : List Region) (addr len : Nat) : List Region :=
  match extendEntry addr len free 0 with
  | none => free ++ [(addr, len)]
  | some (i, new) =>
    let extended := free.set i new
    match secondEntry i new extended 0 with
    | none => extended
    | some (j, other) =>
      let removed := extended.eraseIdx j
      let i := if j < i then i - 1 else i
      removed.set i (mergeRange new other)

section
variable (fits : ∀ r ∈ free, Fits r)
include fits

theorem extendEntry_none (new : Fits (addr, len))
    (h : extendEntry addr len free k = none) :
    ∀ r ∈ free, ¬ Touches r (addr, len) := by
  induction free generalizing k with
  | nil => simp
  | cons r rest ih =>
    simp only [extendEntry, wrappingAdd_eq (fits r List.mem_cons_self), wrappingAdd_eq new] at h
    split at h
    · cases h
    split at h
    · cases h
    rename_i tail head
    intro q hq
    rcases List.mem_cons.mp hq with eq | hq
    · subst eq
      exact not_or.mpr ⟨tail, head⟩
    · exact ih (fun z hz => fits z (List.mem_cons_of_mem _ hz)) h q hq

theorem extendEntry_some (range : Fits (addr, len))
    (h : extendEntry addr len free k = some (i, new)) :
    ∃ m r, i = k + m ∧ free[m]? = some r ∧ Touches r (addr, len) ∧ new = join r (addr, len) := by
  induction free generalizing k with
  | nil => cases h
  | cons r rest ih =>
    have head := fits r List.mem_cons_self
    simp only [extendEntry, wrappingAdd_eq head, wrappingAdd_eq range] at h
    simp only [Fits] at head range
    split at h
    · rename_i tail
      simp only [Option.some.injEq, Prod.mk.injEq] at h
      refine ⟨0, r, by omega, rfl, .inl tail, ?_⟩
      rw [← h.2, join, Nat.min_eq_left (by omega), wrappingAdd_eq (by omega)]
    · split at h
      · rename_i front
        simp only [Option.some.injEq, Prod.mk.injEq] at h
        refine ⟨0, r, by omega, rfl, .inr front, ?_⟩
        rw [← h.2, join, Nat.min_eq_right (by omega), wrappingAdd_eq (by omega)]
      · obtain ⟨m, q, eq, get, touch, same⟩ := ih (fun z hz => fits z (List.mem_cons_of_mem _ hz)) h
        exact ⟨m + 1, q, by omega, get, touch, same⟩

theorem secondEntry_none (range : Fits new)
    (h : secondEntry skip new free k = none) :
    ∀ m r, free[m]? = some r → k + m ≠ skip → ¬ Touches r new := by
  induction free generalizing k with
  | nil => simp
  | cons r rest ih =>
    intro m q get other
    simp only [secondEntry, wrappingAdd_eq (fits r List.mem_cons_self), wrappingAdd_eq range] at h
    cases m with
    | zero =>
      simp only [List.getElem?_cons_zero, Option.some.injEq] at get
      subst get
      rw [if_neg (by omega)] at h
      split at h
      · cases h
      · rename_i quiet
        exact quiet
    | succ m =>
      have tail : secondEntry skip new rest (k + 1) = none := by
        split at h
        · exact h
        · split at h
          · cases h
          · exact h
      exact ih (fun z hz => fits z (List.mem_cons_of_mem _ hz)) tail m q get (by omega)

theorem secondEntry_some (range : Fits new)
    (h : secondEntry skip new free k = some (j, q)) :
    ∃ m, j = k + m ∧ free[m]? = some q ∧ j ≠ skip ∧ Touches q new := by
  induction free generalizing k with
  | nil => cases h
  | cons r rest ih =>
    have later : secondEntry skip new rest (k + 1) = some (j, q) →
        ∃ m, j = k + m ∧ (r :: rest)[m]? = some q ∧ j ≠ skip ∧ Touches q new := by
      intro tail
      obtain ⟨m, eq, get, other, touch⟩ := ih (fun z hz => fits z (List.mem_cons_of_mem _ hz)) tail
      exact ⟨m + 1, by omega, get, other, touch⟩
    simp only [secondEntry, wrappingAdd_eq (fits r List.mem_cons_self), wrappingAdd_eq range] at h
    split at h
    · exact later h
    rename_i other
    split at h
    · rename_i touch
      obtain ⟨rfl, rfl⟩ := h
      exact ⟨0, by omega, rfl, other, touch⟩
    · exact later h

end

theorem perm_of_getElem? (get : free[m]? = some r) :
    free.Perm (r :: free.eraseIdx m) := by
  obtain ⟨bound, eq⟩ := List.getElem?_eq_some_iff.mp get
  rw [← eq]
  exact (List.getElem_cons_eraseIdx_perm bound).symm

theorem set_perm_of_getElem? (new : Region) (get : free[m]? = some r) :
    (free.set m new).Perm (new :: free.eraseIdx m) :=
  List.set_perm_cons_eraseIdx (List.getElem?_eq_some_iff.mp get).1 new

theorem mergeRange_eq_join (touch : Touches q new) (pos : 0 < q.2) (hn : Fits new) (hq : Fits q) :
    mergeRange new q = join new q := by
  unfold mergeRange
  rw [wrappingAdd_eq hn, wrappingAdd_eq hq]
  simp only [Touches, Fits] at touch hn hq
  split
  rename_i lo hi pick
  split at pick
  · obtain ⟨rfl, rfl⟩ := Prod.mk.inj pick
    rw [join, Nat.min_eq_right (by omega), wrappingSub_eq (by omega) (by omega)]
    congr 1
    omega
  · obtain ⟨rfl, rfl⟩ := Prod.mk.inj pick
    rw [join, Nat.min_eq_left (by omega), wrappingSub_eq (by omega) (by omega)]
    congr 1
    omega

theorem getElem?_after_eraseIdx (free : List Region) (other : j ≠ i) :
    (free.eraseIdx j)[if j < i then i - 1 else i]? = free[i]? := by
  rw [List.getElem?_eraseIdx]
  split
  · rw [if_neg (by omega), Nat.sub_add_cancel (by omega)]
  · rw [if_pos (by omega)]

theorem freeRegionsAdd_inserted (fits : ∀ r ∈ free, Fits r) (range : Fits (addr, len))
    (pos : ∀ r ∈ free, 0 < r.2) :
    Inserted free (addr, len) (freeRegionsAdd free addr len) := by
  unfold freeRegionsAdd
  cases first : extendEntry addr len free 0 with
  | none =>
    exact .alone (List.perm_append_singleton _ _) (extendEntry_none fits range first)
  | some found =>
    obtain ⟨i, new⟩ := found
    obtain ⟨m, r, index, get, touch, same⟩ := extendEntry_some fits range first
    rw [Nat.zero_add] at index
    subst index same
    have bound := (List.getElem?_eq_some_iff.mp get).1
    have old := perm_of_getElem? get
    have extended := set_perm_of_getElem? (join r (addr, len)) get
    have newFits := join_fits touch (fits r (List.mem_of_getElem? get)) range
    have setFits : ∀ z ∈ free.set i (join r (addr, len)), Fits z := by
      intro z hz
      rcases List.mem_or_eq_of_mem_set hz with kept | new
      · exact fits z kept
      · exact new ▸ newFits
    simp only
    cases second : secondEntry i (join r (addr, len)) (free.set i (join r (addr, len))) 0 with
    | none =>
      refine .one r (free.eraseIdx i) old touch extended ?_
      intro q hq
      obtain ⟨m, hm⟩ := List.mem_iff_getElem?.mp hq
      rw [List.getElem?_eraseIdx] at hm
      have quiet := secondEntry_none setFits newFits second
      split at hm
      · exact quiet m q (by rw [List.getElem?_set_ne (by omega)]; exact hm) (by omega)
      · exact quiet (m + 1) q (by rw [List.getElem?_set_ne (by omega)]; exact hm) (by omega)
    | some found =>
      obtain ⟨j, q⟩ := found
      obtain ⟨m, index, getq, other, near⟩ := secondEntry_some setFits newFits second
      rw [Nat.zero_add] at index
      subst index
      have hq : q ∈ free := by
        rw [List.getElem?_set_ne (Ne.symm other)] at getq
        exact List.mem_of_getElem? getq
      have shifted := getElem?_after_eraseIdx (free.set i (join r (addr, len))) other
      rw [List.getElem?_set_self bound] at shifted
      have both := (perm_of_getElem? getq).trans ((perm_of_getElem? shifted).cons q)
      have rest := (extended.symm.trans (both.trans (List.Perm.swap _ _ _))).cons_inv
      refine .both r q _ (old.trans (rest.cons r)) touch near ?_
      rw [← mergeRange_eq_join near (pos q hq) newFits (fits q hq)]
      exact set_perm_of_getElem? _ shifted

/-- The loop of free_regions_take: the index of the entry with the least excess over len,
    the first of them if there are several; an exact fit ends the search. -/
def bestFit (len : Nat) : List Region → Nat → Option Nat → Nat → Option Nat
  | [], _, best, _ => best
  | (_, l) :: rest, i, best, bestExcess =>
    if len ≤ l then
      if l - len < bestExcess then
        if l - len = 0 then some i else bestFit len rest (i + 1) (some i) (l - len)
      else bestFit len rest (i + 1) best bestExcess
    else bestFit len rest (i + 1) best bestExcess

def freeRegionsTake (free : List Region) (len : Nat) : Option (Nat × List Region) := do
  let i ← bestFit len free 0 none (2 ^ 64 - 1)
  let (a, l) ← free[i]?
  some (a, if l = len then swapRemove free i else free.set i (wrappingAdd a len, l - len))

theorem bestFit_some (h : bestFit len free k best bestExcess = some i) :
    ∃ e, e ≤ bestExcess ∧ (∀ q ∈ free, len ≤ q.2 → e ≤ q.2 - len) ∧
      (best = some i ∧ e = bestExcess ∨ ∃ m r, i = k + m ∧ free[m]? = some r ∧ r.2 = len + e) := by
  induction free generalizing k best bestExcess with
  | nil => exact ⟨bestExcess, Nat.le_refl _, by simp, .inl ⟨h, rfl⟩⟩
  | cons r rest ih =>
    have later : bestFit len rest (k + 1) best bestExcess = some i →
        (len ≤ r.2 → bestExcess ≤ r.2 - len) → ∃ e, e ≤ bestExcess ∧
          (∀ q ∈ r :: rest, len ≤ q.2 → e ≤ q.2 - len) ∧ (best = some i ∧ e = bestExcess ∨
            ∃ m q, i = k + m ∧ (r :: rest)[m]? = some q ∧ q.2 = len + e) := by
      intro tail worse
      obtain ⟨e, small, least, place⟩ := ih tail
      refine ⟨e, small, ?_, place.imp id ?_⟩
      · rintro q (_ | ⟨_, member⟩) enough
        · exact Nat.le_trans small (worse enough)
        · exact least q member enough
      · rintro ⟨m, q, index, get, length⟩
        exact ⟨m + 1, q, by omega, get, length⟩
    simp only [bestFit] at h
    by_cases enough : len ≤ r.2
    · rw [if_pos enough] at h
      by_cases better : r.2 - len < bestExcess
      · rw [if_pos better] at h
        by_cases same : r.2 - len = 0
        · rw [if_pos same, Option.some.injEq] at h
          exact ⟨0, Nat.zero_le _, fun _ _ _ => Nat.zero_le _,
            .inr ⟨0, r, by omega, rfl, by omega⟩⟩
        rw [if_neg same] at h
        obtain ⟨e, small, least, place⟩ := ih h
        refine ⟨e, by omega, ?_, .inr ?_⟩
        · rintro q (_ | ⟨_, member⟩) fits
          · exact small
          · exact least q member fits
        · rcases place with ⟨here, rfl⟩ | ⟨m, q, index, get, length⟩
          · rw [Option.some.injEq] at here
            exact ⟨0, r, by omega, rfl, by omega⟩
          · exact ⟨m + 1, q, by omega, get, length⟩
      · rw [if_neg better] at h
        exact later h fun _ => Nat.le_of_not_lt better
    · rw [if_neg enough] at h
      exact later h fun fits => absurd fits enough

theorem bestFit_none (h : bestFit len free k best bestExcess = none) :
    best = none ∧ ∀ r ∈ free, r.2 < len ∨ bestExcess ≤ r.2 - len := by
  induction free generalizing k best bestExcess with
  | nil => exact ⟨h, by simp⟩
  | cons r rest ih =>
    simp only [bestFit] at h
    split at h
    · split at h
      · split at h
        · cases h
        · exact absurd (ih h).1 (by simp)
      rename_i large
      refine ⟨(ih h).1, ?_⟩
      intro q hq
      rcases List.mem_cons.mp hq with eq | hq
      · subst eq
        exact .inr (Nat.le_of_not_lt large)
      · exact (ih h).2 q hq
    · rename_i small
      refine ⟨(ih h).1, ?_⟩
      intro q hq
      rcases List.mem_cons.mp hq with eq | hq
      · subst eq
        exact .inl (Nat.lt_of_not_le small)
      · exact (ih h).2 q hq

theorem freeRegionsTake_carved (fits : ∀ r ∈ free, Fits r)
    (h : freeRegionsTake free len = some (a, out)) : Carved free a len out := by
  simp only [freeRegionsTake, Option.bind_eq_bind, Option.bind_eq_some_iff,
    Option.some.injEq] at h
  obtain ⟨i, fit, ⟨b, l⟩, get, eq⟩ := h
  obtain ⟨rfl, rfl⟩ := eq
  obtain ⟨e, -, -, place⟩ := bestFit_some fit
  rcases place with ⟨none, -⟩ | ⟨m, r, index, getr, enough⟩
  · cases none
  rw [Nat.zero_add] at index
  subst index
  rw [get, Option.some.injEq] at getr
  subst getr
  split
  · rename_i exact_fit
    subst exact_fit
    exact .whole _ (swapRemove_perm get) (.refl _)
  have inside := fits (b, l) (List.mem_of_getElem? get)
  simp only [Fits] at inside enough
  rw [wrappingAdd_eq (by omega)]
  exact .front l _ (perm_of_getElem? get) (by omega) (set_perm_of_getElem? _ get)

theorem freeRegionsTake_none (small : ∀ r ∈ free, r.2 < 2 ^ 64 - 1)
    (h : freeRegionsTake free len = none) :
    ∀ r ∈ free, r.2 < len := by
  intro r hr
  simp only [freeRegionsTake, Option.bind_eq_bind, Option.bind_eq_none_iff] at h
  cases fit : bestFit len free 0 none (2 ^ 64 - 1) with
  | none =>
    have bound := small r hr
    have := (bestFit_none fit).2 r hr
    omega
  | some i =>
    obtain ⟨e, -, -, place⟩ := bestFit_some fit
    rcases place with ⟨none, -⟩ | ⟨m, q, index, get, fits⟩
    · cases none
    · rw [Nat.zero_add] at index
      subst index
      exact absurd (h i fit q get) (by simp)

theorem freeRegionsTake_least (h : freeRegionsTake free len = some (a, out)) :
    ∃ l, (a, l) ∈ free ∧ len ≤ l ∧ ∀ r ∈ free, len ≤ r.2 → l ≤ r.2 := by
  simp only [freeRegionsTake, Option.bind_eq_bind, Option.bind_eq_some_iff,
    Option.some.injEq] at h
  obtain ⟨i, fit, ⟨b, l⟩, get, eq⟩ := h
  obtain ⟨rfl, -⟩ := Prod.mk.inj eq
  obtain ⟨e, -, least, place⟩ := bestFit_some fit
  rcases place with ⟨none, -⟩ | ⟨m, r, index, getr, length⟩
  · cases none
  rw [Nat.zero_add] at index
  rw [← index, get, Option.some.injEq] at getr
  subst getr
  refine ⟨l, List.mem_of_getElem? get, by omega, ?_⟩
  intro q hq enough
  have excess := least q hq enough
  omega

def freeRegionsDropRange (free : List Region) (addr len : Nat) : List Region :=
  let stop := wrappingAdd addr len
  free.filter (fun (a, l) => wrappingAdd a l ≤ addr ∨ stop ≤ a) ++
    free.flatMap fun (a, l) =>
      if wrappingAdd a l ≤ addr ∨ stop ≤ a then []
      else
        (if a < addr then [(a, addr - a)] else []) ++
        (if stop < wrappingAdd a l then [(stop, wrappingAdd a l - stop)] else [])

theorem freeRegionsDropRange_perm (fits : ∀ r ∈ free, Fits r) (range : Fits (addr, len)) :
    (freeRegionsDropRange free addr len).Perm (punch (addr, len) free) := by
  induction free with
  | nil => exact List.Perm.nil
  | cons r rest ih =>
    have tail := ih fun z hz => fits z (List.mem_cons_of_mem _ hz)
    have head : punch (addr, len) (r :: rest) = cut (addr, len) r ++ punch (addr, len) rest := rfl
    rw [head]
    simp only [freeRegionsDropRange, List.filter_cons, List.flatMap_cons,
      wrappingAdd_eq (fits r List.mem_cons_self), wrappingAdd_eq range] at tail ⊢
    by_cases apart : r.1 + r.2 ≤ addr ∨ addr + len ≤ r.1
    · simp only [cut, Apart, apart, decide_true, if_true, List.nil_append, List.cons_append]
      exact tail.cons r
    · simp only [cut, Apart, apart, decide_false, if_false, Bool.false_eq_true]
      refine (List.perm_append_comm_assoc _ _ _).trans ?_
      exact tail.append_left _

structure Listed (free : List Region) : Prop where
  positive : ∀ r ∈ free, 0 < r.2
  below : ∀ r ∈ free, r.1 + r.2 ≤ 2 ^ 63
  separate : Separate free

/-- Each of the three functions is an operation on the set of addresses that the list covers:
    a difference, the removal of the front of a best-fitting entry, a union. -/
theorem free_regions_set_algebra (listed : Listed free) :
    (∀ addr len, addr + len < 2 ^ 64 →
      (∀ x, Covers (freeRegionsDropRange free addr len) x ↔
        Covers free x ∧ ¬ Inside x (addr, len)) ∧
      (∀ r ∈ freeRegionsDropRange free addr len, 0 < r.2) ∧
      Separate (freeRegionsDropRange free addr len)) ∧
    (∀ len, 0 < len →
      (freeRegionsTake free len = none ↔ ∀ r ∈ free, ¬ len ≤ r.2) ∧
      ∀ a out, freeRegionsTake free len = some (a, out) →
        (∃ l, (a, l) ∈ free ∧ len ≤ l ∧ ∀ r ∈ free, len ≤ r.2 → l ≤ r.2) ∧
        ∀ x, Covers out x ↔ Covers free x ∧ ¬ Inside x (a, len)) ∧
    (∀ addr len, 0 < len → addr + len < 2 ^ 64 → (∀ x, Inside x (addr, len) → ¬ Covers free x) →
      (∀ x, Covers (freeRegionsAdd free addr len) x ↔ Covers free x ∨ Inside x (addr, len)) ∧
      (freeRegionsAdd free addr len).length ≤ free.length + 1) := by
  have fits : ∀ r ∈ free, Fits r := by
    intro r hr
    have below := listed.below r hr
    simp only [Fits]
    omega
  refine ⟨?_, ?_, ?_⟩
  · intro addr len range
    have perm := freeRegionsDropRange_perm fits range
    refine ⟨fun x => (covers_perm perm x).trans (punch_covers ..), ?_,
      (separate_perm perm).mpr (punch_separate listed.separate)⟩
    intro r hr
    obtain ⟨source, hs, piece⟩ := mem_punch.mp (perm.mem_iff.mp hr)
    exact (cut_within piece).2.2 (listed.positive source hs)
  · intro len pos
    constructor
    · constructor
      · intro refused r hr
        have small : ∀ r ∈ free, r.2 < 2 ^ 64 - 1 := by
          intro r hr
          have below := listed.below r hr
          omega
        exact Nat.not_le.mpr (freeRegionsTake_none small refused r hr)
      · intro short
        cases taken : freeRegionsTake free len with
        | none => rfl
        | some =>
          obtain ⟨l, entry, enough, -⟩ := freeRegionsTake_least taken
          exact absurd enough (short _ entry)
    · intro a out taken
      have carved := freeRegionsTake_carved fits taken
      refine ⟨freeRegionsTake_least taken, fun x => ?_⟩
      have apart := List.pairwise_cons.mp (carved_separate carved listed.separate)
      rw [carved_covers carved x]
      constructor
      · rintro ⟨r, hr, inside⟩
        exact ⟨.inr ⟨r, hr, inside⟩, apart_not_inside (apart_symm (apart.1 r hr)) inside⟩
      · rintro ⟨here | rest, outside⟩
        · exact absurd here outside
        · exact rest
  · intro addr len pos range fresh
    have inserted := freeRegionsAdd_inserted fits range listed.positive
    exact ⟨fun x => (inserted_covers inserted x).trans or_comm, inserted_length inserted⟩

theorem free_regions_set_algebra_two :
    Listed [(0x1A000000, 0x3000), (0x1A005000, 0x1000)] ∧
      (∀ x, Covers (freeRegionsDropRange [(0x1A000000, 0x3000), (0x1A005000, 0x1000)]
          0x1A001000 0x4800) x ↔
        Covers [(0x1A000000, 0x3000), (0x1A005000, 0x1000)] x ∧
          ¬ Inside x (0x1A001000, 0x4800)) := by
  have listed : Listed [(0x1A000000, 0x3000), (0x1A005000, 0x1000)] :=
    ⟨by decide, by decide, by simp [Separate, Apart]⟩
  exact ⟨listed, ((free_regions_set_algebra listed).1 0x1A001000 0x4800 (by decide)).1⟩

end TynKernel.Mmap
