import Mathlib.Algebra.BigOperators.Group.Finset.Basic
import Mathlib.Algebra.GroupWithZero.Nat
import TynKernel.Vfs.Archive
import TynKernel.Vfs.Reads

/-!
Directory listings of the archive. A directory is only in the names of the files: its children
are the next components of the names below it.
-/
namespace TynKernel.Vfs
open Bytes Dirents Rows Runs
open List (getD_eq_getElem length_append length_cons length_map map_cons map_map mem_cons
  mem_cons_self mem_map mem_toFinset not_mem_nil)

theorem path_lawful : LawfulBEq Path := inferInstance

attribute [local instance] path_lawful

/-- The next component of a name behind the stem, and whether the name goes on behind it. -/
def childOf (stem name : Path) : Option (Path × Bool) :=
  if stem.length < name.length ∧ stem.isPrefixOf name then
    let rest := name.drop stem.length
    let child := rest.takeWhile (· ≠ 47)
    some (child, decide (child.length < rest.length))
  else none

def Short (child : Path) : Prop := 0 < child.length ∧ child.length < 64

instance (child : Path) : Decidable (Short child) := inferInstanceAs (Decidable (_ ∧ _))

/-- The children in the order in which they come first, without those that were seen and those
    that fit into no row. -/
def fresh (stem : Path) : (seen names : List Path) → List (Path × Bool)
  | _, [] => []
  | seen, name :: rest =>
    match childOf stem name with
    | none => fresh stem seen rest
    | some (child, dir) =>
      if Short child ∧ child ∉ seen then (child, dir) :: fresh stem (seen ++ [child]) rest
      else fresh stem seen rest

def firstKind (stem child : Path) (names : List Path) : Option Bool :=
  names.findSome? fun name =>
    match childOf stem name with
    | none => none
    | some (c, dir) => if c = child then some dir else none

section Fresh
variable {stem : Path} {seen names : List Path} {child : Path} {dir : Bool}

theorem mem_fresh :
    (∃ dir, (child, dir) ∈ fresh stem seen names) ↔
      child ∉ seen ∧ Short child ∧ ∃ name ∈ names, ∃ dir, childOf stem name = some (child, dir) := by
  induction names generalizing seen with
  | nil => simp [fresh]
  | cons name rest ih =>
    rw [fresh]
    cases found : childOf stem name with
    | none =>
      simp only [ih, mem_cons, exists_eq_or_imp, found]
      simp
    | some c =>
      obtain ⟨c, d⟩ := c
      simp only
      by_cases same : child = c
      · subst same
        split
        · rename_i new
          constructor
          · intro _
            exact ⟨new.2, new.1, name, mem_cons_self, d, found⟩
          · intro _
            exact ⟨d, mem_cons_self⟩
        · rename_i old
          rw [ih]
          simp only [mem_cons, exists_eq_or_imp, found, Option.some.injEq, Prod.mk.injEq, true_and,
            exists_eq', true_or, and_true]
          constructor
          · rintro ⟨unseen, short, _⟩
            exact ⟨unseen, short⟩
          · rintro ⟨unseen, short⟩
            exact absurd ⟨short, unseen⟩ old
      · have other : ∀ d', some (c, d) ≠ some (child, d') := by
          intro d' eq
          exact same (congrArg Prod.fst (Option.some.inj eq)).symm
        split
        · simp [same, false_and, ih, found, other, not_mem_nil]
        · simp [ih, found, other]

theorem fresh_nodup : ((fresh stem seen names).map Prod.fst).Nodup := by
  induction names generalizing seen with
  | nil => simp [fresh]
  | cons name rest ih =>
    rw [fresh]
    split
    · exact ih
    split
    · rw [map_cons, List.nodup_cons]
      refine ⟨?_, ih⟩
      intro member
      obtain ⟨⟨c, d⟩, inside, same⟩ := mem_map.mp member
      have unseen := (mem_fresh.mp ⟨d, inside⟩).1
      exact unseen (List.mem_append_right _ (List.mem_singleton.mpr same))
    · exact ih

theorem fresh_first (member : (child, dir) ∈ fresh stem seen names) :
    firstKind stem child names = some dir := by
  induction names generalizing seen with
  | nil => cases member
  | cons name rest ih =>
    rw [fresh] at member
    rw [firstKind, List.findSome?_cons]
    cases found : childOf stem name with
    | none =>
      rw [found] at member
      exact ih member
    | some c =>
      obtain ⟨c, d⟩ := c
      rw [found] at member
      simp only at member ⊢
      split at member
      · rcases mem_cons.mp member with same | later
        · cases same
          rw [if_pos rfl]
        · have unseen := (mem_fresh.mp ⟨dir, later⟩).1
          have other : ¬ c = child := fun same => unseen (List.mem_append_right _ (by simp [same]))
          rw [if_neg other]
          exact ih later
      · rename_i old
        have other : ¬ c = child := by
          intro same
          obtain ⟨unseen, short, _⟩ := mem_fresh.mp ⟨dir, member⟩
          exact old (same ▸ ⟨short, unseen⟩)
        rw [if_neg other]
        exact ih member

end Fresh

def CleanRows (seen : List Path) : Prop := ∀ row ∈ seen, row.length < 64 ∧ 0 ∉ row

theorem row_eq {row child : Path} (clean : 0 ∉ row) (plain : 0 ∉ child)
    (taken : (row ++ List.replicate (64 - row.length) 0).take child.length = child)
    (ended : (row ++ List.replicate (64 - row.length) 0).getD child.length 0 = 0) :
    row = child := by
  by_cases inside : child.length < row.length
  · rw [List.getD_append _ _ _ _ inside, getD_eq_getElem _ _ inside] at ended
    exact absurd (ended ▸ List.getElem_mem inside) clean
  have start : row <+: child := by
    rw [← taken]
    exact List.prefix_take_iff.mpr ⟨List.prefix_append .., by omega⟩
  obtain ⟨more, whole⟩ := start
  cases more with
  | nil => rw [← whole, List.append_nil]
  | cons b =>
    rw [← whole, List.take_append, List.take_of_length_le (by simp)] at taken
    have zeros := List.append_cancel_left taken
    have member : b ∈ List.replicate (64 - row.length) (0 : UInt8) :=
      List.mem_of_mem_take (zeros ▸ mem_cons_self)
    have zero := List.eq_of_mem_replicate member
    rw [← whole, zero] at plain
    exact absurd (List.mem_append_right _ mem_cons_self) plain

theorem isDup_iff {seen : List Path} (rows : CleanRows seen) (plain : 0 ∉ child)
    (short : child.length < 64) : isDup seen child = true ↔ child ∈ seen := by
  simp only [isDup, List.any_eq_true, Bool.and_eq_true, beq_iff_eq]
  constructor
  · rintro ⟨row, member, taken, ended⟩
    rw [← row_eq (rows row member).2 plain taken ended]
    exact member
  intro member
  refine ⟨child, member, List.take_left, ?_⟩
  rw [List.getD_append_right _ _ _ _ (Nat.le_refl _), Nat.sub_self]
  have positive : 64 - child.length = (63 - child.length) + 1 := by omega
  rw [positive]
  rfl

def kindOf (dir : Bool) : UInt8 := if dir then 4 else 8

def shown (c : Path × Bool) : Path × UInt8 := (c.1, kindOf c.2)

def recordsSize (children : List (Path × Bool)) : Nat := (children.map fun c => recordLen c.1).sum

theorem clean_component {name : Path} (plain : 0 ∉ name) (start : Nat) :
    0 ∉ (name.drop start).takeWhile (· ≠ 47) := by
  intro member
  exact plain (List.mem_of_mem_drop ((List.takeWhile_subset _) member))

theorem fillVisit_child {stem : Path} {count : Nat} {acc : Fill} {e : Entry}
    (rows : CleanRows acc.seen) (plain : 0 ∉ e.name) :
    fillVisit stem count acc e =
      match childOf stem e.name with
      | none => (acc, false)
      | some (child, dir) =>
        if (Short child ∧ child ∉ acc.seen) ∧ acc.seen.length < 32 then
          if count < acc.out.length + recordLen child then (⟨acc.out, acc.seen ++ [child]⟩, true)
          else
            (⟨acc.out ++ (⟨(acc.seen ++ [child]).length, acc.out.length + recordLen child,
              kindOf dir, child⟩ : Dirent).bytes, acc.seen ++ [child]⟩, false)
        else (acc, false) := by
  unfold fillVisit childOf
  split
  · have clean := clean_component plain stem.length
    simp only
    generalize (e.name.drop stem.length).takeWhile (· ≠ 47) = child at clean
    have test : ((0 < child.length ∧ child.length < 64) ∧ isDup acc.seen child = false ∧
        acc.seen.length < 32) ↔ ((Short child ∧ child ∉ acc.seen) ∧ acc.seen.length < 32) := by
      rw [← and_assoc]
      refine and_congr_left' (and_congr_right fun short => ?_)
      rw [← isDup_iff rows clean short.2, Bool.not_eq_true]
    rw [if_congr test rfl rfl]
    simp [kindOf]
  · rfl

structure Emits (stem : Path) (count : Nat) (acc : Fill) (names : List Path)
    (ds : List Dirent) : Prop where
  part : (ds.map fun d => (d.name, d.kind)) <+: (fresh stem acc.seen names).map shown
  rows : acc.seen.length + ds.length ≤ 32
  room : acc.out.length + (ds.map Dirent.bytes).flatten.length ≤ count
  all : acc.seen.length + (fresh stem acc.seen names).length ≤ 32 →
    acc.out.length + recordsSize (fresh stem acc.seen names) ≤ count →
    (ds.map fun d => (d.name, d.kind)) = (fresh stem acc.seen names).map shown

theorem emits_none (rows : acc.seen.length ≤ 32) (room : acc.out.length ≤ count)
    (short : fresh stem acc.seen names = [] ∨
      32 < acc.seen.length + (fresh stem acc.seen names).length ∨
      count < acc.out.length + recordsSize (fresh stem acc.seen names)) :
    Emits stem count acc names [] := by
  refine ⟨List.nil_prefix, rows, room, ?_⟩
  intro rows' room'
  rcases short with none | many | long
  · rw [none]
    rfl
  · omega
  · omega

theorem clean_child {stem name child : Path} (plain : 0 ∉ name)
    (found : childOf stem name = some (child, dir)) : 0 ∉ child := by
  unfold childOf at found
  split at found
  · cases found
    exact clean_component plain stem.length
  · cases found

theorem cleanRows_append (rows : CleanRows seen) (short : Short child) (plain : 0 ∉ child) :
    CleanRows (seen ++ [child]) := by
  intro row member
  rcases List.mem_append.mp member with old | new
  · exact rows row old
  · rw [List.mem_singleton.mp new]
    exact ⟨short.2, plain⟩

theorem fresh_new (rest : List Path) (found : childOf stem name = some (child, dir))
    (new : Short child ∧ child ∉ seen) :
    fresh stem seen (name :: rest) = (child, dir) :: fresh stem (seen ++ [child]) rest := by
  rw [fresh, found]
  exact if_pos new

theorem fresh_old (rest : List Path)
    (old : ∀ child dir, childOf stem name = some (child, dir) → ¬ (Short child ∧ child ∉ seen)) :
    fresh stem seen (name :: rest) = fresh stem seen rest := by
  rw [fresh]
  split
  · rfl
  · rename_i child dir found
    exact if_neg (old child dir found)

theorem emits_old (same : fresh stem acc.seen (name :: names) = fresh stem acc.seen names)
    (emits : Emits stem count acc names ds) : Emits stem count acc (name :: names) ds := by
  obtain ⟨part, rows, room, all⟩ := emits
  rw [← same] at part all
  exact ⟨part, rows, room, all⟩

theorem recordsSize_cons (child : Path) (dir : Bool) (children : List (Path × Bool)) :
    recordsSize ((child, dir) :: children) = recordLen child + recordsSize children :=
  List.sum_cons

theorem emits_new (next : fresh stem acc.seen (name :: names) =
      (child, dir) :: fresh stem (acc.seen ++ [child]) names)
    (shows : (d.name, d.kind) = shown (child, dir))
    (emits : Emits stem count ⟨acc.out ++ d.bytes, acc.seen ++ [child]⟩ names ds) :
    Emits stem count acc (name :: names) (d :: ds) := by
  obtain ⟨part, rows, room, all⟩ := emits
  have named : d.name = child := congrArg Prod.fst shows
  have length : d.bytes.length = recordLen child := by rw [bytes_length, named]
  simp only [length_append, List.length_singleton] at rows room all
  constructor
  · rw [next, map_cons, map_cons, shows]
    exact (List.prefix_cons_inj _).mpr part
  · rw [length_cons]
    omega
  · rw [map_cons, List.flatten_cons, length_append]
    omega
  · rw [next, length_cons, recordsSize_cons]
    intro few fits
    rw [map_cons, map_cons, all (by omega) (by omega), shows]

theorem fill_emits {stem : Path} {count : Nat} {es : List Entry} {acc : Fill}
    (clean : CleanRows acc.seen) (rows : acc.seen.length ≤ 32) (room : acc.out.length ≤ count)
    (plain : ∀ e ∈ es, 0 ∉ e.name) :
    ∃ ds : List Dirent, (visitAll (fillVisit stem count) acc es).out =
      acc.out ++ (ds.map Dirent.bytes).flatten ∧ Emits stem count acc (es.map Entry.name) ds := by
  induction es generalizing acc with
  | nil => exact ⟨[], by simp [visitAll], emits_none rows room (.inl rfl)⟩
  | cons e rest ih =>
    have later : ∀ e' ∈ rest, 0 ∉ e'.name := fun e' member => plain e' (List.mem_cons_of_mem _ member)
    obtain ⟨same, sameOut, sameEmits⟩ := ih clean rows room later
    have visit := @fillVisit_child stem count acc e clean (plain e mem_cons_self)
    rw [map_cons]
    cases found : childOf stem e.name with
    | none =>
      rw [found] at visit
      rw [visitAll_next visit]
      refine ⟨same, sameOut, emits_old (fresh_old _ ?_) sameEmits⟩
      intro child dir some_
      rw [found] at some_
      cases some_
    | some c =>
      obtain ⟨child, dir⟩ := c
      rw [found] at visit
      simp only at visit
      by_cases new : Short child ∧ child ∉ acc.seen
      · have next := fresh_new (rest.map Entry.name) found new
        by_cases row : acc.seen.length < 32
        · rw [if_pos ⟨new, row⟩] at visit
          by_cases full : count < acc.out.length + recordLen child
          · -- the record does not fit, and the walk ends
            rw [if_pos full] at visit
            rw [visitAll_last visit]
            refine ⟨[], by simp, emits_none rows room (.inr (.inr ?_))⟩
            rw [next, recordsSize_cons]
            omega
          · rw [if_neg full] at visit
            rw [visitAll_next visit]
            generalize written : (⟨(acc.seen ++ [child]).length, acc.out.length + recordLen child,
              kindOf dir, child⟩ : Dirent) = d
            have shows : (d.name, d.kind) = shown (child, dir) := by
              rw [← written]
              rfl
            have length : d.bytes.length = recordLen child := by rw [bytes_length, ← written]
            obtain ⟨ds, out, emits⟩ := @ih ⟨acc.out ++ d.bytes, acc.seen ++ [child]⟩
              (cleanRows_append clean new.1 (clean_child (plain e mem_cons_self) found))
              (by rw [length_append, List.length_singleton]; omega)
              (by rw [length_append]; omega) later
            refine ⟨d :: ds, ?_, emits_new next shows emits⟩
            rw [out, map_cons, List.flatten_cons, List.append_assoc]
        · -- the table is full: no later child is written either
          rw [if_neg fun both => row both.2] at visit
          rw [visitAll_next visit]
          have none : same = [] := by
            have := sameEmits.rows
            exact List.eq_nil_of_length_eq_zero (by omega)
          subst none
          refine ⟨[], sameOut, emits_none rows room (.inr (.inl ?_))⟩
          rw [next, length_cons]
          omega
      · rw [if_neg fun both => new both.1] at visit
        rw [visitAll_next visit]
        refine ⟨same, sameOut, emits_old (fresh_old _ ?_) sameEmits⟩
        intro child' dir' some_
        rw [found] at some_
        cases some_
        exact new

/-- An immediate child of the directory: the next component of a name below it. -/
def IsChild (stem : Path) (names : List Path) (child : Path) : Prop :=
  ∃ name ∈ names, ∃ rest, name = stem ++ rest ∧ rest ≠ [] ∧ child = rest.takeWhile (· ≠ 47)

def Below (stem child name : Path) : Prop := (stem ++ child ++ text "/") <+: name

instance (stem child name : Path) : Decidable (Below stem child name) :=
  inferInstanceAs (Decidable (_ <+: _))

/-- Every child is listed once, as a directory if some name lies below it and else as a file. -/
structure Complete (stem : Path) (names : List Path) (listed : List (Path × UInt8)) : Prop where
  once : (listed.map Prod.fst).Nodup
  children : ∀ child, child ∈ listed.map Prod.fst ↔ IsChild stem names child
  kinds : ∀ child kind, (child, kind) ∈ listed →
    (kind = 4 ∧ ∃ name ∈ names, Below stem child name) ∨
      (kind = 8 ∧ ¬ ∃ name ∈ names, Below stem child name)

def children (stem : Path) (names : List Path) : Finset Path :=
  (names.filterMap fun name => (childOf stem name).map Prod.fst).toFinset

/-- What the listing asks for: names of 1 to 63 bytes, at most 32 of them, all records in the first
    buffer, and the first name with each component telling its type. -/
structure Fits (stem : Path) (names : List Path) (count : Nat) : Prop where
  short : ∀ child ∈ children stem names, Short child
  few : (children stem names).card ≤ 32
  room : ∑ child ∈ children stem names, recordLen child ≤ count
  kinds : ∀ child ∈ children stem names,
    (firstKind stem child names = some true ↔ ∃ name ∈ names, Below stem child name)

section Complete
variable {stem : Path} {names : List Path} {child : Path}

theorem mem_children :
    child ∈ children stem names ↔ ∃ name ∈ names, ∃ dir, childOf stem name = some (child, dir) := by
  simp [children]

theorem isChild_iff : IsChild stem names child ↔ child ∈ children stem names := by
  rw [mem_children]
  constructor
  · rintro ⟨name, member, rest, whole, some_, same⟩
    subst same
    refine ⟨name, member, decide ((rest.takeWhile (· ≠ 47)).length < rest.length), ?_⟩
    have longer := List.length_pos_iff.mpr some_
    have test : stem.length < name.length ∧ stem.isPrefixOf name = true := by
      rw [whole]
      refine ⟨?_, List.isPrefixOf_iff_prefix.mpr (List.prefix_append ..)⟩
      rw [length_append]
      omega
    rw [childOf, if_pos test, whole, List.drop_left]
  · rintro ⟨name, member, dir, found⟩
    unfold childOf at found
    split at found
    · rename_i test
      obtain ⟨rest, whole⟩ := List.isPrefixOf_iff_prefix.mp test.2
      have some_ : rest ≠ [] := by
        intro empty
        rw [← whole, empty, List.append_nil] at test
        exact Nat.lt_irrefl _ test.1
      rw [← whole, List.drop_left] at found
      cases found
      exact ⟨name, member, rest, whole.symm, some_, rfl⟩
    · cases found

theorem fresh_children :
    ((fresh stem [] names).map Prod.fst).toFinset = (children stem names).filter Short := by
  ext child
  rw [mem_toFinset, Finset.mem_filter, mem_children]
  have known := @mem_fresh stem [] names child
  simp only [mem_map, Prod.exists, exists_and_right, exists_eq_right]
  rw [known]
  constructor
  · rintro ⟨_, short, found⟩
    exact ⟨found, short⟩
  · rintro ⟨found, short⟩
    exact ⟨not_mem_nil, short, found⟩

section
variable (short : ∀ child ∈ children stem names, Short child)
include short

theorem fresh_all :
    ((fresh stem [] names).map Prod.fst).toFinset = children stem names := by
  rw [fresh_children, Finset.filter_true_of_mem short]

theorem fresh_card :
    (children stem names).card = (fresh stem [] names).length := by
  rw [← fresh_all short, List.toFinset_card_of_nodup fresh_nodup, length_map]

theorem fresh_size :
    ∑ child ∈ children stem names, recordLen child = recordsSize (fresh stem [] names) := by
  rw [← fresh_all short, List.sum_toFinset _ fresh_nodup, map_map]
  rfl

end

end Complete

theorem records_length (ds : List Dirent) : (ds.map Dirent.bytes).flatten.length =
    ((ds.map fun d => (d.name, d.kind)).map fun c => recordLen c.1).sum := by
  rw [List.length_flatten, map_map, map_map]
  congr 1
  exact List.map_congr_left fun d _ => bytes_length d

theorem kindOf_iff :
    ((kindOf dir = 4 ∧ below) ∨ (kindOf dir = 8 ∧ ¬ below)) ↔ (some dir = some true ↔ below) := by
  cases dir <;> simp [kindOf]

section Listed
variable {stem : Path} {names : List Path} {count : Nat} {ds : List Dirent}

theorem shown_names : ((fresh stem [] names).map shown).map Prod.fst =
    (fresh stem [] names).map Prod.fst := by
  rw [map_map]
  rfl

section
variable (emits : Emits stem count ⟨[], []⟩ names ds)
include emits

theorem complete_all (complete : Complete stem names (ds.map fun d => (d.name, d.kind))) :
    (∀ child ∈ children stem names, Short child) ∧
      (ds.map fun d => (d.name, d.kind)) = (fresh stem [] names).map shown := by
  have whole : ((ds.map fun d => (d.name, d.kind)).map Prod.fst).toFinset =
      children stem names := by
    ext child
    rw [mem_toFinset, complete.children, isChild_iff]
  have short : ∀ child ∈ children stem names, Short child := by
    intro child member
    rw [← whole, mem_toFinset] at member
    have inside := (emits.part.map Prod.fst).subset member
    rw [shown_names, ← mem_toFinset, fresh_children, Finset.mem_filter] at inside
    exact inside.2
  refine ⟨short, ?_⟩
  apply emits.part.eq_of_length_le
  rw [length_map, ← fresh_card short, ← whole, List.toFinset_card_of_nodup complete.once,
    length_map]

theorem complete_fits (complete : Complete stem names (ds.map fun d => (d.name, d.kind))) :
    Fits stem names count := by
  obtain ⟨short, same⟩ := complete_all emits complete
  have length := congrArg List.length same
  rw [length_map, length_map] at length
  constructor
  · exact short
  · rw [fresh_card short, ← length]
    simpa using emits.rows
  · have room := emits.room
    rw [records_length, same, List.length_nil, Nat.zero_add, map_map] at room
    rw [fresh_size short]
    exact room
  · intro child member
    obtain ⟨dir, inside⟩ := (@mem_fresh stem [] names child).mpr
      ⟨not_mem_nil, short child member, mem_children.mp member⟩
    have listed : (child, kindOf dir) ∈ ds.map fun d => (d.name, d.kind) := by
      rw [same]
      exact mem_map.mpr ⟨(child, dir), inside, rfl⟩
    rw [fresh_first inside]
    exact kindOf_iff.mp (complete.kinds child _ listed)

theorem fits_complete (fits : Fits stem names count) :
    Complete stem names (ds.map fun d => (d.name, d.kind)) := by
  have few := fits.few
  have room := fits.room
  rw [fresh_card fits.short] at few
  rw [fresh_size fits.short] at room
  rw [emits.all (by simpa using few) (by simpa using room)]
  constructor
  · rw [shown_names]
    exact fresh_nodup
  · intro child
    rw [isChild_iff, shown_names, ← fresh_all fits.short, mem_toFinset]
  intro child kind member
  obtain ⟨⟨c, dir⟩, inside, eq⟩ := mem_map.mp member
  cases eq
  have known : c ∈ children stem names := by
    rw [← fresh_all fits.short, mem_toFinset]
    exact mem_map.mpr ⟨(c, dir), inside, rfl⟩
  have kinds := fits.kinds c known
  rw [fresh_first inside] at kinds
  exact kindOf_iff.mpr kinds

theorem listed_complete_iff :
    Complete stem names (ds.map fun d => (d.name, d.kind)) ↔ Fits stem names count :=
  ⟨complete_fits emits, fits_complete emits⟩

end

end Listed

def slotStem (p : Path) : Path :=
  if p ≠ [] ∧ ¬ (text "/").isSuffixOf p then p ++ text "/" else p

/-- The first call on a slot hands out the listing, as far as it goes, and all others nothing. -/
def State.getdents64 (v : State) (fd : Int) (count : Nat) : Option (State × Int × List UInt8) :=
  match v.dirSlots.cells.findIdx? fun slot => slot.fd = fd with
  | none => some (v, 0, [])
  | some i =>
    let slot := v.dirSlots.cells.getD i emptySlot
    if slot.done then some (v, 0, [])
    else
      (fillDirEntries v.archive count (slotStem slot.stem)).map fun out =>
        ({ v with dirSlots := v.dirSlots.set i { slot with done := true } }, out.length, out)

def State.listing (v : State) (fd : Int) : List Nat → Option (List UInt8)
  | [] => some []
  | count :: more =>
    (v.getdents64 fd count).bind fun r =>
      if r.2.1 = 0 then some [] else (r.1.listing fd more).map fun out => r.2.2 ++ out

inductive DirCall where
  | file (c : Call)
  | getdents64 (fd : Int) (count : Nat)

def dirStep (v : State) : DirCall → Option State
  | .file c => step v c
  | .getdents64 fd count => (v.getdents64 fd count).map Prod.fst

theorem getdents64_dirs (dirs : DirsNumbered v) (done : v.getdents64 fd count = some r) :
    DirsNumbered r.1 ∧ r.1.archive = v.archive := by
  unfold State.getdents64 at done
  split at done
  · cases done
    exact ⟨dirs, rfl⟩
  rename_i i found
  obtain ⟨inside, _, _⟩ := List.findIdx?_eq_some_iff_getElem.mp found
  simp only at done
  split at done
  · cases done
    exact ⟨dirs, rfl⟩
  obtain ⟨out, _, same⟩ := Option.map_eq_some_iff.mp done
  subst same
  have own := dirs i _ (List.getElem?_eq_getElem inside)
  refine ⟨Row.forall_set dirs ?_, rfl⟩
  rw [getD_eq_getElem _ _ inside]
  exact own

theorem run_listed {image : List UInt8} {past : List (State × DirCall)} {v : State}
    (run : Run dirStep (initial image) past v) : DirsNumbered v ∧ v.archive = image := by
  refine run_invariant (fun v => DirsNumbered v ∧ v.archive = image)
    ⟨dirsNumbered_initial image, rfl⟩ ?_ run
  rintro v c v' ⟨dirs, same⟩ taken
  cases c with
  | file =>
    obtain ⟨kept, next⟩ := step_rest taken
    exact ⟨next dirs, kept.trans same⟩
  | getdents64 =>
    obtain ⟨r, done, eq⟩ := Option.map_eq_some_iff.mp taken
    subst eq
    obtain ⟨next, kept⟩ := getdents64_dirs dirs done
    exact ⟨next, kept.trans same⟩

theorem find_slot (dirs : DirsNumbered v) (get : v.dirSlots.cells[i]? = some slot)
    (number : slot.fd = dirFdBase + (i : Nat)) :
    (v.dirSlots.cells.findIdx? fun s => s.fd = dirFdBase + (i : Nat)) = some i := by
  obtain ⟨inside, here⟩ := List.getElem?_eq_some_iff.mp get
  refine List.findIdx?_eq_some_iff_getElem.mpr ⟨inside, ?_, ?_⟩
  · rw [here]
    exact decide_eq_true number
  intro j before same
  have other := dirs j _ (List.getElem?_eq_getElem (Nat.lt_trans before inside))
  have same := of_decide_eq_true same
  rw [dirFdBase] at other same
  omega

def dirPath (path : Path) : Path := if (text "/").isPrefixOf path then path.drop 1 else path

theorem openDir_slot {v v' : State} {path : Path} {fd : Int}
    (opened : v.openDir path = (v', fd)) (valid : 0 ≤ fd) :
    v'.archive = v.archive ∧ ∃ i : Nat, fd = dirFdBase + (i : Nat) ∧
      v'.dirSlots.cells[i]? = some ⟨fd, (dirPath path).take 127, false⟩ := by
  unfold State.openDir at opened
  split at opened
  · rename_i i found
    obtain ⟨inside, _, _⟩ := List.findIdx?_eq_some_iff_getElem.mp found
    cases opened
    exact ⟨rfl, i, rfl, List.getElem?_set_self inside⟩
  · cases opened
    exact absurd valid (by decide)

theorem isDirPrefix_short (dir : isDirPrefix data path = some true) :
    (dirPath path).length < 127 := by
  unfold isDirPrefix at dir
  simp only at dir
  rw [← dirPath] at dir
  split at dir
  · cases dir
  · omega

theorem listing_first (dirs : DirsNumbered v) (get : v.dirSlots.cells[i]? = some slot)
    (number : slot.fd = dirFdBase + (i : Nat)) (unread : slot.done = false) (count next : Nat)
    (more : List Nat) :
    v.listing slot.fd (count :: next :: more) =
      fillDirEntries v.archive count (slotStem slot.stem) := by
  obtain ⟨inside, here⟩ := List.getElem?_eq_some_iff.mp get
  have current : v.dirSlots.cells.getD i emptySlot = slot := by
    rw [getD_eq_getElem _ _ inside, here]
  have found := find_slot dirs get number
  rw [← number] at found
  have first : v.getdents64 slot.fd count =
      (fillDirEntries v.archive count (slotStem slot.stem)).map fun out =>
        ({ v with dirSlots := v.dirSlots.set i { slot with done := true } },
          (out.length : Int), out) := by
    simp only [State.getdents64, found, current, unread, Bool.false_eq_true, if_false]
  rw [State.listing, first]
  cases fillDirEntries v.archive count (slotStem slot.stem) with
  | none => rfl
  | some out =>
    have get' : (v.dirSlots.set i { slot with done := true }).cells[i]? =
        some { slot with done := true } := List.getElem?_set_self inside
    obtain ⟨inside', here'⟩ := List.getElem?_eq_some_iff.mp get'
    have dirs' : DirsNumbered { v with dirSlots := v.dirSlots.set i { slot with done := true } } :=
      Row.forall_set dirs (.inr number)
    have found' := find_slot dirs' get' number
    rw [← number] at found'
    have second : State.getdents64 { v with dirSlots := v.dirSlots.set i { slot with done := true } }
        slot.fd next = some ({ v with dirSlots := v.dirSlots.set i { slot with done := true } }, 0, []) := by
      simp only [State.getdents64, found', getD_eq_getElem _ _ inside', here', if_true]
    simp only [Option.map_some, Option.bind_some]
    split
    · have empty : out = [] := List.eq_nil_of_length_eq_zero (by omega)
      rw [empty]
    · rw [State.listing, second]
      simp

theorem entriesAt_names (offset : Nat) (records : List Record) :
    (entriesAt offset records).map Entry.name = records.map Record.name := by
  induction records generalizing offset with
  | nil => rfl
  | cons r rest ih =>
    rw [entriesAt, map_cons, map_cons, ih]
    rfl

theorem decode_emitted (plain : ∀ name ∈ names, 0 ∉ name)
    (emits : Emits stem count ⟨[], []⟩ names ds) :
    decode (ds.map Dirent.bytes).flatten.length (ds.map Dirent.bytes).flatten =
      ds.map fun d => (d.name, d.kind) := by
  have known : ∀ d ∈ ds, Short d.name ∧ 0 ∉ d.name := by
    intro d member
    have inside := emits.part.subset (mem_map.mpr ⟨d, member, rfl⟩)
    obtain ⟨⟨child, dir⟩, new, same⟩ := mem_map.mp inside
    have name : child = d.name := congrArg Prod.fst same
    subst name
    obtain ⟨_, short, name, there, _, found⟩ := mem_fresh.mp ⟨dir, new⟩
    exact ⟨short, clean_child (plain name there) found⟩
  apply decode_bytes
  · intro d member
    exact (known d member).2
  · intro d member
    have := (recordLen_bounds d.name).2
    have := (known d member).1.2
    omega
  · rw [records_length, map_map]
    have positive : ∀ n ∈ ds.map ((fun c => recordLen c.1) ∘ fun d => (d.name, d.kind)), 1 ≤ n := by
      intro n member
      obtain ⟨d, _, same⟩ := mem_map.mp member
      have := (recordLen_bounds d.name).1
      rw [← same]
      simp only [Function.comp]
      omega
    have := List.length_le_sum_of_one_le _ positive
    rwa [length_map] at this

theorem opened_emits {records : List Record} (files : ∀ r ∈ records, r.name ≠ text "TRAILER!!!")
    (clean : ∀ r ∈ records, 0 ∉ r.name) {trailer : Record} (last : IsTrailer trailer)
    (tail : List UInt8) {past : List (State × DirCall)} {v v' : State}
    (run : Run dirStep (initial (archive records trailer tail)) past v) {path : Path} {fd : Int}
    (opened : v.openDir path = (v', fd)) (valid : 0 ≤ fd) (count next : Nat) (more : List Nat) :
    ∃ ds : List Dirent,
      (visitAll (fillVisit (slotStem ((dirPath path).take 127)) count) ⟨[], []⟩
        (entriesAt 0 records)).out = (ds.map Dirent.bytes).flatten ∧
      Emits (slotStem ((dirPath path).take 127)) count ⟨[], []⟩ (records.map Record.name) ds ∧
      v'.listing fd (count :: next :: more) = some (ds.map Dirent.bytes).flatten := by
  obtain ⟨dirs, image⟩ := run_listed run
  have dirs' := openDir_dirs dirs path
  rw [opened] at dirs'
  obtain ⟨same, i, number, get⟩ := openDir_slot opened valid
  have listed := listing_first dirs' get number rfl count next more
  have plain : ∀ e ∈ entriesAt 0 records, 0 ∉ e.name := by
    intro e member
    have inside : e.name ∈ (entriesAt 0 records).map Entry.name := mem_map.mpr ⟨e, member, rfl⟩
    rw [entriesAt_names] at inside
    obtain ⟨r, there, name⟩ := mem_map.mp inside
    rw [← name]
    exact clean r there
  obtain ⟨ds, out, emits⟩ := @fill_emits (slotStem ((dirPath path).take 127)) count
    (entriesAt 0 records) ⟨[], []⟩ (fun _ member => absurd member not_mem_nil) (Nat.zero_le _)
    (Nat.zero_le _) plain
  rw [entriesAt_names] at emits
  refine ⟨ds, out, emits, ?_⟩
  rw [listed, same, image, fillDirEntries, archive_walk last files tail
    (Nat.lt_succ_of_lt (archive_length records trailer tail)), Option.map_some, out]
  rfl

/-- A listing is complete exactly if the children of the directory are few and short, the first
    buffer takes them all, and the types can be told from the first names. -/
theorem listing_complete_iff {records : List Record} (files : ∀ r ∈ records, Proper r.name)
    {trailer : Record} (last : IsTrailer trailer) (tail : List UInt8)
    {past : List (State × DirCall)} {v v' : State}
    (run : Run dirStep (initial (archive records trailer tail)) past v) {path : Path} {fd : Int}
    (dir : isDirPrefix v.archive path = some true) (opened : v.openDir path = (v', fd))
    (valid : 0 ≤ fd) (count next : Nat) (more : List Nat) :
    (∃ out, v'.listing fd (count :: next :: more) = some out ∧
      Complete (slotStem (dirPath path)) (records.map Record.name) (decode out.length out)) ↔
    Fits (slotStem (dirPath path)) (records.map Record.name) count := by
  obtain ⟨ds, _, emits, listed⟩ := opened_emits (fun r member => (files r member).file)
    (fun r member => (files r member).clean) last tail run opened valid count next more
  have whole : (dirPath path).take 127 = dirPath path :=
    List.take_of_length_le (Nat.le_of_lt (isDirPrefix_short dir))
  rw [whole] at emits
  have read := decode_emitted (fun name member => by
    obtain ⟨r, there, eq⟩ := mem_map.mp member
    rw [← eq]
    exact (files r there).clean) emits
  rw [listed, ← listed_complete_iff emits]
  constructor
  · rintro ⟨_, eq, complete⟩
    cases eq
    rwa [read] at complete
  · intro complete
    exact ⟨_, rfl, by rwa [read]⟩

theorem empty_small : ([] : List UInt8).length < 2 ^ 32 := by decide

def twoInOne : List Record :=
  [.plain (text "d/a") [] (by decide) empty_small, .plain (text "d/b") [] (by decide) empty_small]

theorem twoInOne_proper : ∀ r ∈ twoInOne, Proper r.name := by
  intro r member
  simp only [twoInOne, mem_cons, not_mem_nil, or_false] at member
  rcases member with same | same <;> rw [same] <;>
    exact ⟨by decide, by decide, by decide, by decide, by decide⟩

theorem two_children_listed : ∃ v v' out,
    (initial (archive twoInOne plainTrailer [])).openDir (text "/d") = (v, 900) ∧
      v.openDir (text "/d") = (v', 901) ∧ v'.listing 901 [48, 48] = some out ∧
      Complete (text "d/") [text "d/a", text "d/b"] (decode out.length out) := by
  let v := ((initial (archive twoInOne plainTrailer [])).openDir (text "/d")).1
  have run : Run dirStep (initial (archive twoInOne plainTrailer [])) _ v :=
    .snoc (a := .file (.openDir (text "/d"))) .nil rfl
  have opened : v.openDir (text "/d") = ((v.openDir (text "/d")).1, 901) := rfl
  have fits : Fits (slotStem (dirPath (text "/d"))) (twoInOne.map Record.name) 48 :=
    ⟨by decide, by decide, by decide, by decide⟩
  obtain ⟨out, listed, complete⟩ := (listing_complete_iff twoInOne_proper plainTrailer_last [] run
    (by decide +kernel) opened (by decide) 48 48 []).mpr fits
  exact ⟨v, _, out, rfl, opened, listed, complete⟩

/-- Each buffer takes one record, and the second file is not listed. -/
theorem second_child_missing : ∃ v' out,
    isDirPrefix (archive twoInOne plainTrailer []) (text "/d") = some true ∧
      (initial (archive twoInOne plainTrailer [])).openDir (text "/d") = (v', 900) ∧
      v'.listing 900 [24, 24, 24] = some out ∧ decode out.length out = [(text "a", 8)] ∧
      IsChild (text "d/") (twoInOne.map Record.name) (text "b") := by
  refine ⟨((initial (archive twoInOne plainTrailer [])).openDir (text "/d")).1,
    (⟨1, 24, 8, text "a"⟩ : Dirent).bytes, by decide +kernel, rfl, by decide +kernel,
    by decide +kernel, text "d/b", by decide, text "b", by decide, by decide, by decide⟩

end TynKernel.Vfs
