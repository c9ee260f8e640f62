import TynKernel.Lib.Regions

/-!
An address range tiled by two lists of ranges, those in use and those free, and the four ways
in which an allocator may change the tiling.
-/
namespace TynKernel.Regions
open List

structure Tiles (page lo hi : Nat) (live free : List Region) : Prop where
  ordered : lo ≤ hi
  first : page ∣ lo
  last : page ∣ hi
  separate : Separate (live ++ free)
  pos : ∀ r ∈ live ++ free, 0 < r.2
  aligned : ∀ r ∈ live ++ free, Aligned page r
  exact_cover : ∀ x, Covers (live ++ free) x ↔ lo ≤ x ∧ x < hi

def add (r : Region) (rs : List Region) : List Region := if r.2 = 0 then rs else r :: rs

variable {r hole : Region} {rs qs : List Region} {x len : Nat}

theorem add_forall {P : Region → Prop} (head : 0 < r.2 → P r) (old : ∀ q ∈ rs, P q)
    (tail : ∀ q ∈ qs, P q) : ∀ q ∈ add r rs ++ qs, P q := by
  intro q hq
  unfold add at hq
  split at hq
  · exact (mem_append.mp hq).elim (old q) (tail q)
  · rename_i nonzero
    rcases mem_cons.mp hq with eq | rest
    · exact eq ▸ head (Nat.pos_of_ne_zero nonzero)
    · exact (mem_append.mp rest).elim (old q) (tail q)

theorem add_covers (r : Region) (rs : List Region) (x : Nat) :
    Covers (add r rs) x ↔ Inside x r ∨ Covers rs x := by
  unfold add
  split
  · have outside : ¬ Inside x r := by
      simp only [Inside]
      omega
    simp [outside]
  · exact covers_cons r rs x

theorem add_separate (sep : Separate (rs ++ qs)) (apart : ∀ q ∈ rs ++ qs, Apart r q) :
    Separate (add r rs ++ qs) := by
  unfold add
  split
  · exact sep
  · exact pairwise_cons.mpr ⟨apart, sep⟩

section
variable {page lo hi : Nat} {live free out : List Region}

theorem tiles_empty (aligned : page ∣ lo) : Tiles page lo lo [] [] := by
  refine ⟨Nat.le_refl _, aligned, aligned, ?_, by simp, by simp, ?_⟩
  · simp [Separate]
  · simp only [append_nil, covers_nil, false_iff]
    omega

theorem tiles_live_not_free (tiles : Tiles page lo hi live free) (inLive : Covers live x) :
    ¬ Covers free x := by
  obtain ⟨r, hr, inr⟩ := inLive
  rintro ⟨q, hq, inq⟩
  exact apart_not_inside ((separate_append.mp tiles.separate).2.2 r hr q hq) inr inq

theorem tiles_entry_bound (tiles : Tiles page lo hi live free) (member : r ∈ live ++ free) :
    lo ≤ r.1 ∧ r.1 + r.2 ≤ hi := by
  have pos := tiles.pos r member
  have low := (tiles.exact_cover r.1).mp ⟨r, member, Nat.le_refl _, by omega⟩
  have high := (tiles.exact_cover (r.1 + r.2 - 1)).mp ⟨r, member, by omega, by omega⟩
  omega

theorem tiles_same_page (tiles : Tiles page lo hi live free) (size : 0 < page)
    (used : Covers live y) (same : x / page = y / page) : Covers live x := by
  obtain ⟨r, hr, low, high⟩ := used
  obtain ⟨start, length⟩ := tiles.aligned r (mem_append_left _ hr)
  obtain ⟨k, hk⟩ := start
  obtain ⟨m, hm⟩ := length
  rw [hk, hm, ← Nat.mul_add] at high
  rw [hk] at low
  have lowPage : k ≤ x / page := by
    rw [same, Nat.le_div_iff_mul_le size, Nat.mul_comm]
    exact low
  have highPage : x / page < k + m := by
    rw [same, Nat.div_lt_iff_lt_mul size, Nat.mul_comm]
    exact high
  refine ⟨r, hr, ?_, ?_⟩
  · rw [Nat.le_div_iff_mul_le size, Nat.mul_comm] at lowPage
    rw [hk]
    exact lowPage
  · rw [Nat.div_lt_iff_lt_mul size, Nat.mul_comm] at highPage
    rw [hk, hm, ← Nat.mul_add]
    exact highPage

theorem tiles_take {addr : Nat} (tiles : Tiles page lo hi live free)
    (carved : Carved free addr len out) (whole : page ∣ len) :
    Tiles page lo hi (add (addr, len) live) out := by
  have parts := separate_append.mp tiles.separate
  have carvedSep := pairwise_cons.mp (carved_separate carved parts.2.1)
  obtain ⟨source, hs, start, fits⟩ := carved_source carved
  have sourceAligned := tiles.aligned source (mem_append_right _ hs)
  have headAligned : Aligned page (addr, len) := ⟨start ▸ sourceAligned.1, whole⟩
  have outAligned := carved_forall (Aligned page) carved
    (fun l _ h => ⟨Nat.dvd_add h.1 whole, Nat.dvd_sub h.2 whole⟩)
    (fun r hr => tiles.aligned r (mem_append_right _ hr))
  have outPos := carved_forall (fun r => 0 < r.2) carved (fun l less _ => by simp only; omega)
    (fun r hr => tiles.pos r (mem_append_right _ hr))
  have liveHead : ∀ r ∈ live, Apart r (addr, len) := by
    intro r hr
    have within : Within (addr, len) source := by
      simp only [Within]
      omega
    exact apart_symm (apart_of_within within (apart_symm (parts.2.2 r hr source hs)))
  have liveOut : ∀ r ∈ live, ∀ q ∈ out, Apart r q := by
    intro r hr q hq
    obtain ⟨old, ho, within⟩ := carved_within carved q hq
    exact apart_symm (apart_of_within within (apart_symm (parts.2.2 r hr old ho)))
  refine ⟨tiles.ordered, tiles.first, tiles.last, ?_, ?_, ?_, ?_⟩
  · apply add_separate (separate_append.mpr ⟨parts.1, carvedSep.2, liveOut⟩)
    intro q hq
    rcases mem_append.mp hq with inLive | inOut
    · exact apart_symm (liveHead q inLive)
    · exact carvedSep.1 q inOut
  · exact add_forall id (fun r hr => tiles.pos r (mem_append_left _ hr)) outPos
  · exact add_forall (fun _ => headAligned)
      (fun r hr => tiles.aligned r (mem_append_left _ hr)) outAligned
  · intro x
    rw [← tiles.exact_cover x, covers_append, covers_append, add_covers, carved_covers carved x]
    tauto

theorem tiles_grow (tiles : Tiles page lo hi live free) (whole : page ∣ len) :
    Tiles page lo (hi + len) (add (hi, len) live) free := by
  refine ⟨by have := tiles.ordered; omega, tiles.first, Nat.dvd_add tiles.last whole, ?_, ?_, ?_, ?_⟩
  · apply add_separate tiles.separate
    intro q hq
    exact .inr (tiles_entry_bound tiles hq).2
  · exact add_forall id (fun r hr => tiles.pos r (mem_append_left _ hr))
      (fun r hr => tiles.pos r (mem_append_right _ hr))
  · exact add_forall (fun _ => ⟨tiles.last, whole⟩)
      (fun r hr => tiles.aligned r (mem_append_left _ hr))
      (fun r hr => tiles.aligned r (mem_append_right _ hr))
  · intro x
    have old := tiles.exact_cover x
    rw [covers_append] at old
    rw [covers_append, add_covers, or_assoc, old]
    have := tiles.ordered
    simp only [Inside]
    omega

theorem tiles_release (tiles : Tiles page lo hi live free) (nonempty : 0 < hole.2)
    (whole : Aligned page hole) (used : ∀ x, Inside x hole → Covers live x)
    (inserted : Inserted free hole out) :
    Tiles page lo hi (punch hole live) out ∧ Separate (hole :: free) := by
  have parts := separate_append.mp tiles.separate
  have freePos : ∀ r ∈ free, 0 < r.2 := fun r hr => tiles.pos r (mem_append_right _ hr)
  have holeFree : ∀ r ∈ free, Apart hole r := by
    intro r hr
    apply apart_of_no_common nonempty (freePos r hr)
    intro x inHole inr
    exact tiles_live_not_free tiles (used x inHole) ⟨r, hr, inr⟩
  have sepFree : Separate (hole :: free) := pairwise_cons.mpr ⟨holeFree, parts.2.1⟩
  have livePos : ∀ q ∈ punch hole live, 0 < q.2 := by
    intro q hq
    obtain ⟨r, hr, piece⟩ := mem_punch.mp hq
    exact (cut_within piece).2.2 (tiles.pos r (mem_append_left _ hr))
  have liveOut : ∀ q ∈ punch hole live, ∀ z ∈ out, Apart q z := by
    intro q hq
    obtain ⟨r, hr, piece⟩ := mem_punch.mp hq
    obtain ⟨within, fromHole, _⟩ := cut_within piece
    exact inserted_apart inserted nonempty freePos (livePos q hq) fromHole
      (fun z hz => apart_of_within within (parts.2.2 r hr z hz))
  refine ⟨⟨tiles.ordered, tiles.first, tiles.last, ?_, ?_, ?_, ?_⟩, sepFree⟩
  · exact separate_append.mpr
      ⟨punch_separate parts.1, inserted_separate inserted nonempty freePos sepFree, liveOut⟩
  · intro q hq
    exact (mem_append.mp hq).elim (livePos q) (inserted_pos inserted nonempty freePos q)
  · intro q hq
    rcases mem_append.mp hq with inLive | inOut
    · obtain ⟨r, hr, piece⟩ := mem_punch.mp inLive
      exact cut_aligned piece (tiles.aligned r (mem_append_left _ hr)) whole
    · exact inserted_aligned inserted whole
        (fun r hr => tiles.aligned r (mem_append_right _ hr)) q inOut
  · intro x
    rw [← tiles.exact_cover x, covers_append, covers_append, punch_covers,
      inserted_covers inserted x]
    tauto

theorem tiles_replace (tiles : Tiles page lo hi live free) (whole : Aligned page hole)
    (low : lo ≤ hole.1) (high : hole.1 + hole.2 ≤ hi) (perm : out.Perm (punch hole free)) :
    Tiles page lo hi (add hole (punch hole live)) out := by
  have pieces : ∀ q ∈ punch hole live ++ out,
      ∃ r ∈ live ++ free, q ∈ cut hole r := by
    intro q hq
    rcases mem_append.mp hq with inLive | inOut
    · obtain ⟨r, hr, piece⟩ := mem_punch.mp inLive
      exact ⟨r, mem_append_left _ hr, piece⟩
    · obtain ⟨r, hr, piece⟩ := mem_punch.mp (perm.mem_iff.mp inOut)
      exact ⟨r, mem_append_right _ hr, piece⟩
  have pos : ∀ q ∈ punch hole live ++ out, 0 < q.2 := by
    intro q hq
    obtain ⟨r, hr, piece⟩ := pieces q hq
    exact (cut_within piece).2.2 (tiles.pos r hr)
  have aligned : ∀ q ∈ punch hole live ++ out, Aligned page q := by
    intro q hq
    obtain ⟨r, hr, piece⟩ := pieces q hq
    exact cut_aligned piece (tiles.aligned r hr) whole
  have sep : Separate (punch hole live ++ out) := by
    have together : punch hole live ++ punch hole free = punch hole (live ++ free) := by
      simp [punch]
    apply (separate_perm (perm.append_left _)).mpr
    rw [together]
    exact punch_separate tiles.separate
  refine ⟨tiles.ordered, tiles.first, tiles.last, ?_, ?_, ?_, ?_⟩
  · apply add_separate sep
    intro q hq
    obtain ⟨r, _, piece⟩ := pieces q hq
    exact apart_symm (cut_within piece).2.1
  · exact add_forall id (fun q hq => pos q (mem_append_left _ hq))
      (fun q hq => pos q (mem_append_right _ hq))
  · exact add_forall (fun _ => whole) (fun q hq => aligned q (mem_append_left _ hq))
      (fun q hq => aligned q (mem_append_right _ hq))
  · intro x
    have old := tiles.exact_cover x
    have inHole : Inside x hole → lo ≤ x ∧ x < hi := by
      simp only [Inside]
      omega
    rw [covers_append] at old
    rw [covers_append, add_covers, punch_covers, covers_perm perm, punch_covers, ← old]
    tauto

end

end TynKernel.Regions
