import TynKernel.Vfs.Listing

/-!
The three views of a path in the archive: the lookup of a file, the test for a directory and
the listing. Each takes the path apart on its own.
-/
namespace TynKernel.Vfs
open Bytes Dirents Rows Runs
open List (cons_append getElem_map length_map length_nil mem_cons mem_map nil_append not_mem_nil
  prefix_append prefix_refl)

section Handed
variable {stem : Path} {count : Nat}

theorem fillVisit_out (acc : Fill) (e : Entry) :
    acc.out <+: (fillVisit stem count acc e).1.out := by
  unfold fillVisit
  split
  · simp only
    split
    · split
      · exact prefix_refl _
      · exact prefix_append ..
    · exact prefix_refl _
  · exact prefix_refl _

theorem visitAll_out (acc : Fill) (es : List Entry) :
    acc.out <+: (visitAll (fillVisit stem count) acc es).out := by
  induction es generalizing acc with
  | nil => exact prefix_refl _
  | cons e rest ih =>
    have here : acc.out <+: (fillVisit stem count acc e).1.out := fillVisit_out acc e
    rw [visitAll]
    split
    · exact here
    · exact here.trans (ih _)

theorem visitAll_first (acc : Fill) (es later : List Entry) :
    (visitAll (fillVisit stem count) acc es).out <+:
      (visitAll (fillVisit stem count) acc (es ++ later)).out := by
  induction es generalizing acc with
  | nil => exact visitAll_out acc later
  | cons e rest ih =>
    rw [cons_append, visitAll, visitAll]
    split
    · exact prefix_refl _
    · exact ih _

theorem fresh_first_part (few : n ≤ (fresh stem seen names).length) :
    ∃ front back, names = front ++ back ∧
      fresh stem seen front = (fresh stem seen names).take n := by
  induction names generalizing seen n with
  | nil => exact ⟨[], [], rfl, by simp [fresh]⟩
  | cons name rest ih =>
    by_cases new : ∃ child dir, childOf stem name = some (child, dir) ∧ Short child ∧ child ∉ seen
    · obtain ⟨child, dir, found, new⟩ := new
      have next := fun names => fresh_new names found new
      rw [next rest] at few ⊢
      cases n with
      | zero => exact ⟨[], name :: rest, rfl, rfl⟩
      | succ =>
        obtain ⟨front, back, parts, same⟩ := ih (Nat.le_of_succ_le_succ few)
        refine ⟨name :: front, back, by rw [parts, cons_append], ?_⟩
        rw [next front, same, List.take_succ_cons]
    · have old : ∀ child dir, childOf stem name = some (child, dir) →
          ¬ (Short child ∧ child ∉ seen) :=
        fun child dir found short => new ⟨child, dir, found, short⟩
      rw [fresh_old rest old] at few ⊢
      obtain ⟨front, back, parts, same⟩ := ih few
      refine ⟨name :: front, back, by rw [parts, cons_append], ?_⟩
      rw [fresh_old front old, same]

theorem recordsSize_append (front back : List (Path × Bool)) :
    recordsSize (front ++ back) = recordsSize front + recordsSize back := by
  simp [recordsSize]

theorem recordsSize_take (children : List (Path × Bool)) (less : k ≤ n) :
    recordsSize (children.take k) ≤ recordsSize (children.take n) := by
  have parts : children.take n = children.take k ++ (children.take n).drop k := by
    calc children.take n = (children.take n).take k ++ (children.take n).drop k :=
          (List.take_append_drop k _).symm
      _ = children.take k ++ (children.take n).drop k := by
        rw [List.take_take, Nat.min_eq_left less]
  rw [parts, recordsSize_append]
  exact Nat.le_add_right ..

theorem recordsSize_lt {children : List (Path × Bool)} (inside : i < children.length)
    (less : k ≤ i) : recordsSize (children.take k) < recordsSize (children.take (i + 1)) := by
  have before := recordsSize_take children less
  have positive := (recordLen_bounds children[i].1).1
  rw [List.take_succ_eq_append_getElem inside, recordsSize_append]
  have one : recordsSize [children[i]] = recordLen children[i].1 := List.sum_singleton
  omega

theorem emitted_size (emits : Emits stem count ⟨[], []⟩ names ds) :
    (ds.map Dirent.bytes).flatten.length =
      recordsSize ((fresh stem [] names).take ds.length) := by
  have part := List.prefix_iff_eq_take.mp emits.part
  rw [length_map] at part
  rw [records_length, part, ← List.map_take, List.map_map]
  rfl

theorem emitted_iff {es : List Entry} (plain : ∀ e ∈ es, 0 ∉ e.name)
    (out : (visitAll (fillVisit stem count) ⟨[], []⟩ es).out = (ds.map Dirent.bytes).flatten)
    (emits : Emits stem count ⟨[], []⟩ (es.map Entry.name) ds) (i : Nat) :
    i < ds.length ↔ i < 32 ∧ i < (fresh stem [] (es.map Entry.name)).length ∧
      recordsSize ((fresh stem [] (es.map Entry.name)).take (i + 1)) ≤ count := by
  have size := emitted_size emits
  constructor
  · intro inside
    have rows := emits.rows
    have room := emits.room
    have part := emits.part.length_le
    have next : i + 1 ≤ ds.length := inside
    have first := recordsSize_take (fresh stem [] (es.map Entry.name)) next
    simp only [length_nil, Nat.zero_add, length_map] at rows room part
    exact ⟨by omega, by omega, by omega⟩
  · rintro ⟨row, inside, fits⟩
    obtain ⟨front, back, parts, same⟩ := fresh_first_part (Nat.succ_le_of_lt inside)
    obtain ⟨early, late, whole, here, _⟩ := List.map_eq_append_iff.mp parts
    obtain ⟨ds', out', emits'⟩ := @fill_emits stem count early ⟨[], []⟩
      (fun _ member => absurd member not_mem_nil) (Nat.zero_le _) (Nat.zero_le _)
      (fun e member => plain e (by rw [whole]; exact List.mem_append_left _ member))
    have size' := emitted_size emits'
    have length : (fresh stem [] front).length = i + 1 := by
      rw [same, List.length_take, Nat.min_eq_left (Nat.succ_le_of_lt inside)]
    have all := emits'.all (by rw [here, length, length_nil]; omega)
      (by rw [here, same, length_nil, Nat.zero_add]; exact fits)
    have count' := congrArg List.length all
    rw [here, length_map, length_map, length] at count'
    rw [here, same, count', List.take_take, Nat.min_self] at size'
    have written := (@visitAll_first stem count ⟨[], []⟩ early late).length_le
    rw [← whole, out, out', size, nil_append, size'] at written
    by_contra outside
    have := recordsSize_lt inside (Nat.not_lt.mp outside)
    omega

end Handed

/-- A name that the listing hands out: it is one of the first 32 children, and its record is in the
    first buffer, with those of the children before it. -/
def Handed (stem : Path) (names : List Path) (count : Nat) (child : Path) : Prop :=
  ∃ i < 32, ((fresh stem [] names)[i]?).map Prod.fst = some child ∧
    recordsSize ((fresh stem [] names).take (i + 1)) ≤ count

def State.Shows (v : State) (path : Path) (buffers : List Nat) (child : Path) : Prop :=
  0 ≤ (v.openDir path).2 ∧ ∃ out,
    (v.openDir path).1.listing (v.openDir path).2 buffers = some out ∧
      child ∈ (decode out.length out).map Prod.fst

theorem openDir_valid (v : State) (path : Path) :
    0 ≤ (v.openDir path).2 ↔ ∃ slot ∈ v.dirSlots.cells, slot.fd = -1 := by
  unfold State.openDir
  split
  · rename_i i found
    obtain ⟨inside, free, _⟩ := List.findIdx?_eq_some_iff_getElem.mp found
    have valid : (0 : Int) ≤ dirFdBase + i := by
      rw [dirFdBase]
      omega
    exact ⟨fun _ => ⟨_, List.getElem_mem inside, of_decide_eq_true free⟩, fun _ => valid⟩
  · rename_i full
    constructor
    · intro valid
      have negative : ¬ (0 : Int) ≤ -24 := by decide
      exact absurd valid negative
    · rintro ⟨slot, member, free⟩
      have held := List.findIdx?_eq_none_iff.mp full slot member
      exact absurd (decide_eq_true free) (by simpa using held)

/-- A name that does not end the archive, nor itself before its end. -/
structure Named (name : Path) : Prop where
  clean : 0 ∉ name
  file : name ≠ text "TRAILER!!!"

section Archive
variable {records : List Record} (named : ∀ r ∈ records, Named r.name) {trailer : Record}
  (last : IsTrailer trailer) (tail : List UInt8)
include named last

theorem shows_iff (run : Run dirStep (initial (archive records trailer tail)) past v) (path : Path)
    (count next : Nat) (more : List Nat) (child : Path) :
    v.Shows path (count :: next :: more) child ↔ (∃ slot ∈ v.dirSlots.cells, slot.fd = -1) ∧
      Handed (slotStem ((dirPath path).take 127)) (records.map Record.name) count child := by
  unfold State.Shows
  rw [openDir_valid]
  refine and_congr_right fun free => ?_
  obtain ⟨ds, out, emits, listed⟩ := opened_emits (fun r member => (named r member).file)
    (fun r member => (named r member).clean) last tail run (Prod.eta (v.openDir path)).symm
    ((openDir_valid v path).mpr free) count next more
  have names : (entriesAt 0 records).map Entry.name = records.map Record.name :=
    entriesAt_names 0 records
  have clean : ∀ name ∈ records.map Record.name, 0 ∉ name := by
    intro name member
    obtain ⟨r, there, same⟩ := mem_map.mp member
    rw [← same]
    exact (named r there).clean
  have plain : ∀ e ∈ entriesAt 0 records, 0 ∉ e.name := by
    intro e member
    exact clean e.name (by rw [← names]; exact mem_map.mpr ⟨e, member, rfl⟩)
  have reached := emitted_iff plain out (by rwa [names])
  rw [names] at reached
  have read := decode_emitted clean emits
  rw [listed]
  constructor
  · rintro ⟨_, same, member⟩
    cases same
    rw [read] at member
    obtain ⟨i, inside, here⟩ := List.mem_iff_getElem.mp member
    rw [length_map, length_map] at inside
    obtain ⟨row, there, fits⟩ := (reached i).mp inside
    refine ⟨i, row, ?_, fits⟩
    have eq := emits.part.getElem (i := i) (by rwa [length_map])
    rw [List.getElem?_eq_getElem there, ← here, getElem_map, eq, getElem_map]
    rfl
  · rintro ⟨i, row, here, fits⟩
    obtain ⟨⟨c, dir⟩, get, same⟩ := Option.map_eq_some_iff.mp here
    obtain ⟨there, value⟩ := List.getElem?_eq_some_iff.mp get
    have inside := (reached i).mpr ⟨row, there, fits⟩
    refine ⟨_, rfl, ?_⟩
    rw [read, List.mem_iff_getElem]
    refine ⟨i, by rwa [length_map, length_map], ?_⟩
    have eq := emits.part.getElem (i := i) (by rwa [length_map])
    rw [getElem_map, eq, getElem_map, value, ← same]
    rfl

omit named last in
theorem lookup_some (some_ : ∃ r ∈ records, r.name = normalized path) :
    ∃ place, visitAll (lookupVisit path) none (entriesAt offset records) = some place := by
  induction records generalizing offset with
  | nil =>
    obtain ⟨r, member, _⟩ := some_
    cases member
  | cons b rest ih =>
    by_cases here : (b.entry offset).name = normalized path
    · rw [entriesAt, visitAll_last (if_pos here)]
      exact ⟨_, rfl⟩
    obtain ⟨r, member, same⟩ := some_
    rw [entriesAt, visitAll_next (if_neg here)]
    rcases mem_cons.mp member with first | later
    · exact absurd (first ▸ same) here
    · exact ih ⟨r, later, same⟩

theorem lookup_iff (path : Path) :
    (∃ place, cpioLookup (archive records trailer tail) path = some (some place)) ↔
      ∃ r ∈ records, r.name = normalized path := by
  rw [archive_lookup last (fun r member => (named r member).file) tail path]
  constructor
  · rintro ⟨place, found⟩
    by_contra other
    rw [lookup_none fun r member same => other ⟨r, member, same⟩] at found
    cases found
  · intro some_
    obtain ⟨place, found⟩ := @lookup_some records path 0 some_
    exact ⟨place, by rw [found]⟩

def dirStem (p : Path) : Path := if (text "/").isSuffixOf p then p else p ++ text "/"

omit named last in
theorem dir_any (stem : Path) (offset : Nat) :
    visitAll (dirVisit stem) false (entriesAt offset records) =
      records.any fun r => stem.isPrefixOf r.name := by
  induction records generalizing offset with
  | nil => rfl
  | cons r rest ih =>
    rw [entriesAt, List.any_cons]
    by_cases here : stem.isPrefixOf r.name = true
    · have off : dirVisit stem false (r.entry offset) = (true, true) := if_pos here
      rw [visitAll_last off, here]
      rfl
    · have on : dirVisit stem false (r.entry offset) = (false, false) := if_neg here
      rw [visitAll_next on, ih, Bool.eq_false_iff.mpr here]
      rfl

theorem isDirPrefix_iff (path : Path) :
    isDirPrefix (archive records trailer tail) path = some true ↔
      (dirPath path).length < 127 ∧ ∃ r ∈ records, dirStem (dirPath path) <+: r.name := by
  unfold isDirPrefix
  simp only
  rw [← dirPath]
  split
  · rename_i long
    constructor
    · intro wrong
      cases wrong
    · intro both
      exact absurd both.1 (Nat.not_lt.mpr long)
  · rename_i short
    rw [← dirStem, isDirPrefixFrom_walk, archive_walk last (fun r member => (named r member).file)
      tail (archive_length records trailer tail), Option.map_some, dir_any, Option.some_inj,
      List.any_eq_true]
    simp [List.isPrefixOf_iff_prefix, Nat.not_le.mp short, true_and]

end Archive

def spellings : List Path := [[], text "/", text "./"]

def component (rest : Path) : Path := rest.takeWhile (· ≠ 47)

theorem dirStem_below (p rest : Path) : dirStem p <+: p ++ text "/" ++ rest := by
  unfold dirStem
  split
  · rw [List.append_assoc]
    exact prefix_append ..
  · exact prefix_append ..

theorem dirPath_slash (p : Path) : dirPath (text "/" ++ p) = p := rfl

theorem spelled_below {records : List Record} {r : Record} (member : r ∈ records) {d rest p : Path}
    (name : r.name = d ++ text "/" ++ rest) (some_ : d ≠ []) (spelled : p ∈ spellings)
    (undotted : p ≠ text "./") (found : ∃ r' ∈ records, r'.name = normalized (p ++ r.name)) :
    ∃ r' ∈ records, dirStem (dirPath (p ++ d)) <+: r'.name := by
  simp only [spellings, mem_cons, not_mem_nil, or_false, undotted] at spelled
  rcases spelled with empty | slash
  · subst empty
    rw [nil_append]
    cases d with
    | nil => exact absurd rfl some_
    | cons b d =>
      by_cases first : b = 47
      · -- the slash is stripped from both paths
        subst first
        obtain ⟨r', there, same⟩ := found
        refine ⟨r', there, ?_⟩
        rw [same, name]
        exact dirStem_below d rest
      · have own : dirPath (b :: d) = b :: d := by
          have other : (text "/").isPrefixOf (b :: d) = false := by
            simp [text, List.isPrefixOf, Ne.symm first]
          rw [dirPath, other]
          rfl
        refine ⟨r, member, ?_⟩
        rw [own, name]
        exact dirStem_below (b :: d) rest
  · subst slash
    refine ⟨r, member, ?_⟩
    rw [dirPath_slash, name]
    exact dirStem_below d rest

/-- Every file is found under its name with either start, if it has none itself. Of a file that is
    found, the directory is accepted exactly if it is short enough, and is not spelled with a dot or
    other files have names with one. It shows the file exactly if a slot is free and the file's
    component has a row and room, under the path as the slot keeps it. The root is accepted
    exactly if some name begins with a slash. -/
theorem path_views_iff {records : List Record} (named : ∀ r ∈ records, Named r.name)
    {trailer : Record} (last : IsTrailer trailer) (tail : List UInt8)
    {past : List (State × DirCall)} {v : State}
    (run : Run dirStep (initial (archive records trailer tail)) past v) :
    (∀ r ∈ records, (text "/").isPrefixOf r.name = false → (text "./").isPrefixOf r.name = false →
      ∀ p ∈ spellings, ∃ place, cpioLookup v.archive (p ++ r.name) = some (some place)) ∧
    (∀ r ∈ records, ∀ d rest, r.name = d ++ text "/" ++ rest → d ≠ [] → ∀ p ∈ spellings,
      (∃ place, cpioLookup v.archive (p ++ r.name) = some (some place)) →
      (isDirPrefix v.archive (p ++ d) = some true ↔ (dirPath (p ++ d)).length < 127 ∧
        (p = text "./" → ∃ r' ∈ records, dirStem (text "./" ++ d) <+: r'.name)) ∧
      ∀ count next more, v.Shows (p ++ d) (count :: next :: more) (component rest) ↔
        (∃ slot ∈ v.dirSlots.cells, slot.fd = -1) ∧
          Handed (slotStem ((dirPath (p ++ d)).take 127)) (records.map Record.name) count
            (component rest)) ∧
    (isDirPrefix v.archive (text "/") = some true ↔ ∃ r ∈ records, text "/" <+: r.name) := by
  obtain ⟨_, image⟩ := run_listed run
  rw [image]
  refine ⟨?_, ?_, ?_⟩
  · intro r member relative undotted p spelled
    have same : normalized (p ++ r.name) = r.name := by
      apply normalized_spelled relative undotted
      simp only [spellings, mem_cons, not_mem_nil, or_false] at spelled
      rcases spelled with empty | slash | dot
      · exact .inl (by rw [empty, nil_append])
      · exact .inr (.inl (by rw [slash]))
      · exact .inr (.inr (by rw [dot]))
    exact (lookup_iff named last tail _).mpr ⟨r, member, same.symm⟩
  · intro r member d rest name some_ p spelled found
    refine ⟨?_, fun count next more => shows_iff named last tail run _ count next more _⟩
    rw [isDirPrefix_iff named last tail]
    refine and_congr_right fun _ => ?_
    by_cases dot : p = text "./"
    · subst dot
      exact ⟨fun below _ => below, fun below => below rfl⟩
    · exact ⟨fun _ same => absurd same dot, fun _ =>
        spelled_below member name some_ spelled dot ((lookup_iff named last tail _).mp found)⟩
  · rw [isDirPrefix_iff named last tail]
    exact ⟨fun both => both.2, fun below => ⟨by decide, below⟩⟩

theorem twoFiles_named : ∀ r ∈ twoFiles, Named r.name :=
  fun r member => ⟨(twoFiles_proper r member).clean, (twoFiles_proper r member).file⟩

theorem first_file_shown : isDirPrefix (archive twoFiles plainTrailer []) (text "/a") = some true ∧
    (initial (archive twoFiles plainTrailer [])).Shows (text "/a") [24, 24] (text "b") := by
  obtain ⟨found, views, _⟩ := path_views_iff twoFiles_named plainTrailer_last [] .nil
  have first : twoFiles[0] ∈ twoFiles := List.getElem_mem _
  obtain ⟨dir, shows_⟩ := views twoFiles[0] first (text "a") (text "b") rfl (by decide) (text "/")
    (by decide) (found twoFiles[0] first (by decide) (by decide) (text "/") (by decide))
  refine ⟨dir.mpr ⟨by decide, by decide⟩, ?_⟩
  exact (shows_ 24 24 []).mpr ⟨⟨emptySlot, by decide, rfl⟩, 0, by decide, by decide,
    by decide⟩

/-- With a dot and a slash in front, the file is found and its directory is not, nor listed; and the
    root is not a directory. -/
theorem dotted_directory_missing :
    (cpioLookup (archive twoFiles plainTrailer []) (text "./a/b")).any Option.isSome = true ∧
    isDirPrefix (archive twoFiles plainTrailer []) (text "./a") = some false ∧
    ((initial (archive twoFiles plainTrailer [])).openDir (text "./a")).2 = 900 ∧
    ((initial (archive twoFiles plainTrailer [])).openDir (text "./a")).1.listing 900 [4096, 4096] =
      some [] ∧
    isDirPrefix (archive twoFiles plainTrailer []) (text "/") = some false := by
  refine ⟨?_, ?_, rfl, ?_, ?_⟩ <;> decide +kernel

end TynKernel.Vfs
