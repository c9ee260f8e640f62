import Mathlib.Data.List.Perm.Basic
import Mathlib.Data.List.Pairwise

/-!
Half-open address ranges, written (start, length), and lists of them, each of which stands for
the set of addresses it covers.
-/
namespace TynKernel.Regions
open List

abbrev Region := Nat × Nat

def Inside (x : Nat) (r : Region) : Prop := r.1 ≤ x ∧ x < r.1 + r.2
def Apart (r q : Region) : Prop := r.1 + r.2 ≤ q.1 ∨ q.1 + q.2 ≤ r.1
def Touches (r q : Region) : Prop := r.1 + r.2 = q.1 ∨ q.1 + q.2 = r.1
def Within (r q : Region) : Prop := q.1 ≤ r.1 ∧ r.1 + r.2 ≤ q.1 + q.2
def Aligned (page : Nat) (r : Region) : Prop := page ∣ r.1 ∧ page ∣ r.2
def Covers (rs : List Region) (x : Nat) : Prop := ∃ r ∈ rs, Inside x r
def Separate (rs : List Region) : Prop := rs.Pairwise Apart
def Coalesced (rs : List Region) : Prop := rs.Pairwise fun r q => ¬ Touches r q

instance (x : Nat) (r : Region) : Decidable (Inside x r) :=
  inferInstanceAs (Decidable (_ ∧ _))

instance (r q : Region) : Decidable (Apart r q) := inferInstanceAs (Decidable (_ ∨ _))

instance (r q : Region) : Decidable (Touches r q) := inferInstanceAs (Decidable (_ ∨ _))

def join (r q : Region) : Region := (min r.1 q.1, r.2 + q.2)

variable {r q z hole : Region} {x page : Nat} {rs qs : List Region}

theorem apart_symm (h : Apart r q) : Apart q r := Or.symm h

theorem touches_symm (h : Touches r q) : Touches q r := Or.symm h

theorem apart_not_inside (h : Apart r q) (inside : Inside x r) :
    ¬ Inside x q := by
  simp only [Apart, Inside] at *
  omega

theorem touches_not_inside (h : Touches r q) (inside : Inside x r) :
    ¬ Inside x q := by
  simp only [Touches, Inside] at *
  omega

theorem apart_of_no_common (rpos : 0 < r.2) (qpos : 0 < q.2)
    (none : ∀ x, Inside x r → ¬ Inside x q) : Apart r q := by
  have low := none r.1
  have high := none q.1
  simp only [Apart, Inside] at *
  omega

theorem apart_of_within (small : Within r' r) (h : Apart r q) : Apart r' q := by
  simp only [Apart, Within] at *
  omega

theorem join_inside (touch : Touches r q) (x : Nat) :
    Inside x (join r q) ↔ Inside x r ∨ Inside x q := by
  simp only [Touches, Inside, join] at *
  omega

theorem join_apart (touch : Touches r q) (hr : Apart r z) (hq : Apart q z) (rpos : 0 < r.2)
    (qpos : 0 < q.2) (zpos : 0 < z.2) : Apart (join r q) z := by
  simp only [Touches, Apart, join] at *
  omega

theorem join_aligned (hr : Aligned page r) (hq : Aligned page q) :
    Aligned page (join r q) := by
  constructor
  · rcases Nat.le_total r.1 q.1 with le | le
    · simpa [join, Nat.min_eq_left le] using hr.1
    · simpa [join, Nat.min_eq_right le] using hq.1
  · exact Nat.dvd_add hr.2 hq.2

@[simp] theorem covers_nil (x : Nat) : ¬ Covers [] x := by simp [Covers]

@[simp] theorem covers_cons (r : Region) (rs : List Region) (x : Nat) :
    Covers (r :: rs) x ↔ Inside x r ∨ Covers rs x := by simp [Covers]

@[simp] theorem covers_append (rs qs : List Region) (x : Nat) :
    Covers (rs ++ qs) x ↔ Covers rs x ∨ Covers qs x := by
  simp only [Covers, mem_append]
  constructor
  · rintro ⟨r, hr | hr, inside⟩
    · exact .inl ⟨r, hr, inside⟩
    · exact .inr ⟨r, hr, inside⟩
  · rintro (⟨r, hr, inside⟩ | ⟨r, hr, inside⟩)
    · exact ⟨r, .inl hr, inside⟩
    · exact ⟨r, .inr hr, inside⟩

theorem covers_perm (perm : rs.Perm qs) (x : Nat) :
    Covers rs x ↔ Covers qs x := by
  constructor
  · rintro ⟨r, hr, inside⟩
    exact ⟨r, perm.mem_iff.mp hr, inside⟩
  · rintro ⟨r, hr, inside⟩
    exact ⟨r, perm.mem_iff.mpr hr, inside⟩

theorem separate_perm (perm : rs.Perm qs) : Separate rs ↔ Separate qs :=
  perm.pairwise_iff apart_symm

theorem coalesced_perm (perm : rs.Perm qs) : Coalesced rs ↔ Coalesced qs :=
  perm.pairwise_iff fun h touch => h (touches_symm touch)

theorem separate_append :
    Separate (rs ++ qs) ↔ Separate rs ∧ Separate qs ∧ ∀ r ∈ rs, ∀ q ∈ qs, Apart r q :=
  pairwise_append

def cut (hole r : Region) : List Region :=
  if Apart r hole then [r]
  else
    (if r.1 < hole.1 then [(r.1, hole.1 - r.1)] else []) ++
    (if hole.1 + hole.2 < r.1 + r.2 then [(hole.1 + hole.2, r.1 + r.2 - (hole.1 + hole.2))] else [])

def punch (hole : Region) (rs : List Region) : List Region := rs.flatMap (cut hole)

theorem cut_within (member : q ∈ cut hole r) :
    Within q r ∧ Apart q hole ∧ (0 < r.2 → 0 < q.2) := by
  unfold cut at member
  split at member
  · rename_i apart
    simp only [mem_singleton] at member
    subst member
    exact ⟨⟨Nat.le_refl _, Nat.le_refl _⟩, apart, id⟩
  · rename_i near
    simp only [Apart, not_or, Nat.not_le] at near
    simp only [mem_append, mem_ite_nil_right, mem_singleton] at member
    rcases member with ⟨less, eq⟩ | ⟨less, eq⟩ <;> subst eq <;>
      simp only [Within, Apart] <;> omega

theorem cut_covers (hole r : Region) (x : Nat) :
    Covers (cut hole r) x ↔ Inside x r ∧ ¬ Inside x hole := by
  unfold cut
  split
  · rename_i apart
    simp only [covers_cons, covers_nil, or_false]
    exact ⟨fun inside => ⟨inside, apart_not_inside apart inside⟩, fun h => h.1⟩
  · rename_i near
    simp only [Apart, not_or, Nat.not_le] at near
    split <;> split <;> simp [Inside] <;> omega

theorem cut_separate (hole r : Region) : Separate (cut hole r) := by
  unfold cut
  split
  · simp [Separate]
  · rename_i near
    split <;> split <;> simp [Separate, Apart]
    omega

theorem cut_aligned (member : q ∈ cut hole r) (hr : Aligned page r) (hh : Aligned page hole) :
    Aligned page q := by
  unfold cut at member
  split at member
  · simp only [mem_singleton] at member
    subst member
    exact hr
  simp only [mem_append, mem_ite_nil_right, mem_singleton] at member
  rcases member with ⟨less, eq⟩ | ⟨less, eq⟩
  · subst eq
    exact ⟨hr.1, Nat.dvd_sub hh.1 hr.1⟩
  · subst eq
    have last : page ∣ hole.1 + hole.2 := Nat.dvd_add hh.1 hh.2
    exact ⟨last, Nat.dvd_sub (Nat.dvd_add hr.1 hr.2) last⟩

theorem mem_punch :
    q ∈ punch hole rs ↔ ∃ r ∈ rs, q ∈ cut hole r := by simp [punch]

theorem punch_covers (hole : Region) (rs : List Region) (x : Nat) :
    Covers (punch hole rs) x ↔ Covers rs x ∧ ¬ Inside x hole := by
  induction rs with
  | nil => simp [punch]
  | cons r rs ih =>
    have split : punch hole (r :: rs) = cut hole r ++ punch hole rs := rfl
    rw [split, covers_append, covers_cons, ih, cut_covers]
    tauto

theorem punch_separate (h : Separate rs) :
    Separate (punch hole rs) := by
  induction rs with
  | nil => simp [punch, Separate]
  | cons r rs ih =>
    have parts := pairwise_cons.mp h
    refine separate_append.mpr ⟨cut_separate hole r, ih parts.2, ?_⟩
    intro p hp q hq
    obtain ⟨source, hs, hq⟩ := mem_punch.mp hq
    have low := apart_of_within (cut_within hp).1 (parts.1 source hs)
    exact apart_symm (apart_of_within (cut_within hq).1 (apart_symm low))

/-- The list out holds the ranges of free and the range new, where new was merged with at
    most two entries, and with every entry it touched if no two entries touched before. -/
inductive Inserted (free : List Region) (new : Region) (out : List Region) : Prop where
  | alone (perm : out.Perm (new :: free)) (quiet : ∀ r ∈ free, ¬ Touches r new)
  | one (r : Region) (rest : List Region) (old : free.Perm (r :: rest)) (touch : Touches r new)
      (perm : out.Perm (join r new :: rest)) (quiet : ∀ q ∈ rest, ¬ Touches q (join r new))
  | both (r q : Region) (rest : List Region) (old : free.Perm (r :: q :: rest))
      (touch : Touches r new) (second : Touches q (join r new))
      (perm : out.Perm (join (join r new) q :: rest))

section
variable {free out : List Region} {new : Region}

theorem inserted_covers (ins : Inserted free new out) (x : Nat) :
    Covers out x ↔ Inside x new ∨ Covers free x := by
  cases ins with
  | alone perm => simp [covers_perm perm]
  | one r rest old touch perm =>
    simp only [covers_perm perm, covers_perm old, covers_cons, join_inside touch]
    tauto
  | both r q rest old touch second perm =>
    simp only [covers_perm perm, covers_perm old, covers_cons, join_inside (touches_symm second),
      join_inside touch]
    tauto

theorem inserted_length (ins : Inserted free new out) : out.length ≤ free.length + 1 := by
  cases ins with
  | alone perm => simp [perm.length_eq]
  | one r rest old touch perm => simp [perm.length_eq, old.length_eq]
  | both r q rest old touch second perm => simp [perm.length_eq, old.length_eq]

theorem inserted_forall (P : Region → Prop)
    (merge : ∀ r q, P r → P q → P (join r q)) (ins : Inserted free new out)
    (hnew : P new) (hfree : ∀ r ∈ free, P r) : ∀ r ∈ out, P r := by
  cases ins with
  | alone perm =>
    intro z hz
    rcases mem_cons.mp (perm.mem_iff.mp hz) with eq | hz
    · exact eq ▸ hnew
    · exact hfree z hz
  | one r rest old touch perm =>
    intro z hz
    rcases mem_cons.mp (perm.mem_iff.mp hz) with eq | hz
    · exact eq ▸ merge _ _ (hfree r (old.mem_iff.mpr (by simp))) hnew
    · exact hfree z (old.mem_iff.mpr (by simp [hz]))
  | both r q rest old touch second perm =>
    intro z hz
    have hr := hfree r (old.mem_iff.mpr (by simp))
    have hq := hfree q (old.mem_iff.mpr (by simp))
    rcases mem_cons.mp (perm.mem_iff.mp hz) with eq | hz
    · exact eq ▸ merge _ _ (merge _ _ hr hnew) hq
    · exact hfree z (old.mem_iff.mpr (by simp [hz]))

section
variable (ins : Inserted free new out)
include ins

theorem inserted_pos (npos : 0 < new.2)
    (pos : ∀ r ∈ free, 0 < r.2) : ∀ r ∈ out, 0 < r.2 :=
  inserted_forall (fun r => 0 < r.2) (fun r q hr _ => by simp only [join]; omega) ins npos pos

theorem inserted_aligned (hnew : Aligned page new)
    (hfree : ∀ r ∈ free, Aligned page r) : ∀ r ∈ out, Aligned page r :=
  inserted_forall (Aligned page) (fun _ _ hr hq => join_aligned hr hq) ins hnew hfree

theorem inserted_apart (npos : 0 < new.2) (pos : ∀ r ∈ free, 0 < r.2)
    (zpos : 0 < z.2) (znew : Apart z new) (zfree : ∀ r ∈ free, Apart z r) :
    ∀ r ∈ out, Apart z r := by
  intro r hr
  apply apart_of_no_common zpos (inserted_pos ins npos pos r hr)
  intro x inz inr
  rcases (inserted_covers ins x).mp ⟨r, hr, inr⟩ with inNew | ⟨q, hq, inq⟩
  · exact apart_not_inside znew inz inNew
  · exact apart_not_inside (zfree q hq) inz inq

theorem inserted_separate (npos : 0 < new.2)
    (pos : ∀ r ∈ free, 0 < r.2) (sep : Separate (new :: free)) : Separate out := by
  have parts := pairwise_cons.mp sep
  cases ins with
  | alone perm => exact (separate_perm perm).mpr sep
  | one r rest old touch perm =>
    have sepOld := pairwise_cons.mp ((separate_perm old).mp parts.2)
    have hr : r ∈ free := old.mem_iff.mpr (by simp)
    refine (separate_perm perm).mpr (pairwise_cons.mpr ⟨?_, sepOld.2⟩)
    intro z hz
    have hz' : z ∈ free := old.mem_iff.mpr (by simp [hz])
    exact join_apart touch (sepOld.1 z hz) (parts.1 z hz') (pos r hr) npos (pos z hz')
  | both r q rest old touch second perm =>
    have sepOld := pairwise_cons.mp ((separate_perm old).mp parts.2)
    have sepRest := pairwise_cons.mp sepOld.2
    have hr : r ∈ free := old.mem_iff.mpr (by simp)
    have hq : q ∈ free := old.mem_iff.mpr (by simp)
    refine (separate_perm perm).mpr (pairwise_cons.mpr ⟨?_, sepRest.2⟩)
    intro z hz
    have hz' : z ∈ free := old.mem_iff.mpr (by simp [hz])
    have first : Apart (join r new) z :=
      join_apart touch (sepOld.1 z (by simp [hz])) (parts.1 z hz') (pos r hr) npos (pos z hz')
    have jpos : 0 < (join r new).2 := by simp only [join]; omega
    exact join_apart (touches_symm second) first (sepRest.1 z hz) jpos (pos q hq) (pos z hz')

end

theorem inserted_overlap (ins : Inserted free new out) (here : Inside x new)
    (twice : Covers free x) : ¬ Separate out := by
  intro sep
  cases ins with
  | alone perm =>
    obtain ⟨q, hq, inq⟩ := twice
    have apart := (pairwise_cons.mp ((separate_perm perm).mp sep)).1 q hq
    exact apart_not_inside apart here inq
  | one r rest old touch perm =>
    have apart := (pairwise_cons.mp ((separate_perm perm).mp sep)).1
    rw [covers_perm old, covers_cons] at twice
    rcases twice with inr | ⟨q, hq, inq⟩
    · exact touches_not_inside touch inr here
    · exact apart_not_inside (apart q hq) ((join_inside touch x).mpr (.inr here)) inq
  | both r q rest old touch second perm =>
    have apart := (pairwise_cons.mp ((separate_perm perm).mp sep)).1
    have inJoin := (join_inside touch x).mpr (.inr here)
    rw [covers_perm old, covers_cons, covers_cons] at twice
    rcases twice with inr | inq | ⟨z, hz, inz⟩
    · exact touches_not_inside touch inr here
    · exact touches_not_inside second inq inJoin
    · have inAll := (join_inside (touches_symm second) x).mpr (.inl inJoin)
      exact apart_not_inside (apart z hz) inAll inz

theorem inserted_coalesced (ins : Inserted free new out) (npos : 0 < new.2)
    (pos : ∀ r ∈ free, 0 < r.2) (sep : Separate (new :: free)) (coal : Coalesced free) :
    Coalesced out := by
  have parts := pairwise_cons.mp sep
  cases ins with
  | alone perm quiet =>
    refine (coalesced_perm perm).mpr (pairwise_cons.mpr ⟨?_, coal⟩)
    intro z hz touch
    exact quiet z hz (touches_symm touch)
  | one r rest old touch perm quiet =>
    have coalOld := pairwise_cons.mp ((coalesced_perm old).mp coal)
    refine (coalesced_perm perm).mpr (pairwise_cons.mpr ⟨?_, coalOld.2⟩)
    intro z hz near
    exact quiet z hz (touches_symm near)
  | both r q rest old touch second perm =>
    have coalOld := pairwise_cons.mp ((coalesced_perm old).mp coal)
    have coalRest := pairwise_cons.mp coalOld.2
    have sepOld := pairwise_cons.mp ((separate_perm old).mp parts.2)
    have sepRest := pairwise_cons.mp sepOld.2
    have hr : r ∈ free := old.mem_iff.mpr (by simp)
    have hq : q ∈ free := old.mem_iff.mpr (by simp)
    refine (coalesced_perm perm).mpr (pairwise_cons.mpr ⟨?_, coalRest.2⟩)
    intro z hz near
    have hz' : z ∈ free := old.mem_iff.mpr (by simp [hz])
    -- r and q lie on the two sides of new, so z would touch one of them
    have rz := coalOld.1 z (by simp [hz])
    have qz := coalRest.1 z hz
    have rq := coalOld.1 q (by simp)
    have zpos := pos z hz'
    have arq := sepOld.1 q (by simp)
    have arz := sepOld.1 z (by simp [hz])
    have aqz := sepRest.1 z hz
    have anr := parts.1 r hr
    have anq := parts.1 q hq
    have anz := parts.1 z hz'
    simp only [Touches, Apart, join] at *
    omega

end

inductive Carved (free : List Region) (addr len : Nat) (out : List Region) : Prop where
  | whole (rest : List Region) (old : free.Perm ((addr, len) :: rest)) (perm : out.Perm rest)
  | front (l : Nat) (rest : List Region) (old : free.Perm ((addr, l) :: rest)) (less : len < l)
      (perm : out.Perm ((addr + len, l - len) :: rest))

section
variable {free out : List Region} {addr len : Nat}

section
variable (carved : Carved free addr len out)
include carved

theorem carved_covers (x : Nat) :
    Covers free x ↔ Inside x (addr, len) ∨ Covers out x := by
  cases carved with
  | whole rest old perm => simp [covers_perm perm, covers_perm old]
  | front l rest old less perm =>
    simp only [covers_perm perm, covers_perm old, covers_cons, Inside]
    have : x < addr + len + (l - len) ↔ x < addr + l := by omega
    rw [this]
    constructor
    · rintro (h | h)
      · by_cases early : x < addr + len
        · exact .inl ⟨h.1, early⟩
        · exact .inr (.inl ⟨by omega, h.2⟩)
      · exact .inr (.inr h)
    · rintro (h | h | h)
      · exact .inl ⟨h.1, by omega⟩
      · exact .inl ⟨by omega, h.2⟩
      · exact .inr h

theorem carved_separate (sep : Separate free) :
    Separate ((addr, len) :: out) := by
  cases carved with
  | whole rest old perm => exact (separate_perm (old.trans (perm.symm.cons _))).mp sep
  | front l rest old less perm =>
    have parts := pairwise_cons.mp ((separate_perm old).mp sep)
    refine (separate_perm (perm.cons _)).mpr (pairwise_cons.mpr ⟨?_, ?_⟩)
    · intro z hz
      rcases mem_cons.mp hz with eq | hz
      · subst eq
        exact .inl (Nat.le_refl _)
      · have := parts.1 z hz
        simp only [Apart] at *
        omega
    · refine pairwise_cons.mpr ⟨?_, parts.2⟩
      intro z hz
      have := parts.1 z hz
      simp only [Apart] at *
      omega

theorem carved_within :
    ∀ q ∈ out, ∃ r ∈ free, Within q r := by
  intro q hq
  cases carved with
  | whole rest old perm =>
    exact ⟨q, old.mem_iff.mpr (by simp [perm.mem_iff.mp hq]), Nat.le_refl _, Nat.le_refl _⟩
  | front l rest old less perm =>
    rcases mem_cons.mp (perm.mem_iff.mp hq) with eq | hq
    · refine ⟨(addr, l), old.mem_iff.mpr (by simp), ?_⟩
      subst eq
      simp only [Within]
      omega
    · exact ⟨q, old.mem_iff.mpr (by simp [hq]), Nat.le_refl _, Nat.le_refl _⟩

theorem carved_source :
    ∃ r ∈ free, r.1 = addr ∧ len ≤ r.2 := by
  cases carved with
  | whole rest old => exact ⟨(addr, len), old.mem_iff.mpr (by simp), rfl, Nat.le_refl _⟩
  | front l rest old less =>
    exact ⟨(addr, l), old.mem_iff.mpr (by simp), rfl, Nat.le_of_lt less⟩

end

theorem carved_forall (P : Region → Prop) (carved : Carved free addr len out)
    (tail : ∀ l, len < l → P (addr, l) → P (addr + len, l - len))
    (hfree : ∀ r ∈ free, P r) : ∀ r ∈ out, P r := by
  intro q hq
  cases carved with
  | whole rest old perm => exact hfree q (old.mem_iff.mpr (by simp [perm.mem_iff.mp hq]))
  | front l rest old less perm =>
    rcases mem_cons.mp (perm.mem_iff.mp hq) with eq | hq
    · exact eq ▸ tail l less (hfree _ (old.mem_iff.mpr (by simp)))
    · exact hfree q (old.mem_iff.mpr (by simp [hq]))

theorem carved_coalesced (carved : Carved free addr len out) (pos : ∀ r ∈ free, 0 < r.2)
    (sep : Separate free) (coal : Coalesced free) : Coalesced out := by
  cases carved with
  | whole rest old perm =>
    exact (coalesced_perm perm).mpr (pairwise_cons.mp ((coalesced_perm old).mp coal)).2
  | front l rest old less perm =>
    have coalOld := pairwise_cons.mp ((coalesced_perm old).mp coal)
    have sepOld := pairwise_cons.mp ((separate_perm old).mp sep)
    refine (coalesced_perm perm).mpr (pairwise_cons.mpr ⟨?_, coalOld.2⟩)
    intro z hz near
    have zpos := pos z (old.mem_iff.mpr (by simp [hz]))
    have quiet := coalOld.1 z hz
    have apart := sepOld.1 z hz
    simp only [Touches, Apart] at *
    omega

end

end TynKernel.Regions
