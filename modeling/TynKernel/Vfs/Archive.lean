import TynKernel.Vfs.Walk

/-!
Archives as they are made: a list of files in the newc format, with the entry of the trailer
last and any bytes behind it.
-/
namespace TynKernel.Vfs
open Bytes List

def hexChar (upper : Bool) (d : Nat) : UInt8 :=
  if d < 10 then UInt8.ofNat (48 + d) else UInt8.ofNat ((if upper then 55 else 87) + d)

def hexField (upper : Nat → Bool) : (digits n : Nat) → List UInt8
  | 0, _ => []
  | k + 1, n => hexField upper k (n / 16) ++ [hexChar (upper k) (n % 16)]

theorem hexDigit_hexChar (upper : Bool) {d : Nat} (small : d < 16) :
    hexDigit (hexChar upper d) = d := by
  revert upper d
  decide

theorem hexField_length (upper : Nat → Bool) (k n : Nat) : (hexField upper k n).length = k := by
  induction k generalizing n with
  | zero => rfl
  | succ k ih => rw [hexField, length_append, ih, length_singleton]

theorem parseHex_append (digits : List UInt8) (b : UInt8) :
    parseHex (digits ++ [b]) = (parseHex digits <<< 4) % 2 ^ 64 ||| hexDigit b := by
  rw [parseHex, foldl_append]
  rfl

theorem parseHex_hexField (upper : Nat → Bool) (few : k ≤ 16) (small : n < 16 ^ k) :
    parseHex (hexField upper k n) = n := by
  induction k generalizing n with
  | zero =>
    rw [Nat.pow_zero, Nat.lt_one_iff] at small
    rw [small]
    rfl
  | succ k ih =>
    have power : (16 : Nat) ^ k ≤ 2 ^ 60 := by
      calc (16 : Nat) ^ k ≤ 16 ^ 15 := Nat.pow_le_pow_right (by decide) (by omega)
        _ = 2 ^ 60 := by decide
    have front := @ih (n / 16) (by omega) (by omega)
    rw [hexField, parseHex_append, front, hexDigit_hexChar _ (Nat.mod_lt _ (by decide)),
      Nat.shiftLeft_eq, Nat.mod_eq_of_lt (by omega), Nat.mul_comm,
      ← Nat.two_pow_add_eq_or_of_lt (i := 4) (Nat.mod_lt n (by decide))]
    omega

/-- A file with all that its entry has besides: the fields that nobody reads, the case of the digits
    and the bytes of the padding. -/
structure Record where
  name : Path
  contents : List UInt8
  lead : List UInt8
  between : List UInt8
  check : List UInt8
  sizeCase : Nat → Bool
  nameCase : Nat → Bool
  fill : Nat → UInt8
  lead_length : lead.length = 48
  between_length : between.length = 32
  check_length : check.length = 8
  name_size : name.length + 1 < 2 ^ 32
  contents_size : contents.length < 2 ^ 32

namespace Record

def pad (r : Record) (offset : Nat) : List UInt8 :=
  (List.range (align4 offset - offset)).map r.fill

def head (r : Record) : List UInt8 :=
  text "070701" ++ (r.lead ++ (hexField r.sizeCase 8 r.contents.length ++ (r.between ++
    (hexField r.nameCase 8 (r.name.length + 1) ++ (r.check ++ (r.name ++ [0]))))))

def front (r : Record) (offset : Nat) : List UInt8 := r.head ++ r.pad (offset + r.head.length)

def bytes (r : Record) (offset : Nat) : List UInt8 :=
  r.front offset ++ (r.contents ++ r.pad (offset + (r.front offset).length + r.contents.length))

def entry (r : Record) (offset : Nat) : Entry :=
  ⟨r.name, offset + (r.front offset).length, r.contents.length⟩

end Record

def layout : Nat → List Record → List UInt8
  | _, [] => []
  | offset, r :: rest => r.bytes offset ++ layout (offset + (r.bytes offset).length) rest

def archive (records : List Record) (trailer : Record) (tail : List UInt8) : List UInt8 :=
  layout 0 records ++ (trailer.bytes (layout 0 records).length ++ tail)

structure Proper (name : Path) : Prop where
  nonempty : name ≠ []
  clean : 0 ∉ name
  relative : (text "/").isPrefixOf name = false
  undotted : (text "./").isPrefixOf name = false
  file : name ≠ text "TRAILER!!!"

structure IsTrailer (trailer : Record) : Prop where
  name : trailer.name = text "TRAILER!!!"
  contents : trailer.contents = []

section Layout
variable (r : Record) (offset : Nat)

theorem head_length : r.head.length = 110 + (r.name.length + 1) := by
  have magic : (text "070701").length = 6 := rfl
  simp only [Record.head, length_append, hexField_length, r.lead_length, r.between_length,
    r.check_length, magic, length_singleton]
  omega

theorem pad_length : offset + (r.pad offset).length = align4 offset := by
  have above := align4_le offset
  simp only [Record.pad, length_map, length_range]
  omega

theorem front_length :
    offset + (r.front offset).length = align4 (offset + 110 + (r.name.length + 1)) := by
  have padded := pad_length r (offset + r.head.length)
  have start : offset + r.head.length = offset + 110 + (r.name.length + 1) := by
    rw [head_length]
    omega
  rw [Record.front, length_append, ← start]
  omega

theorem bytes_end : offset + (r.bytes offset).length = (r.entry offset).next := by
  have padded := pad_length r (offset + (r.front offset).length + r.contents.length)
  rw [Record.bytes, length_append, length_append]
  simp only [Entry.next, Record.entry]
  omega

end Layout

theorem record_fields (r : Record) (rest : data.drop offset = r.head ++ back) :
    (data.drop offset).take 6 = text "070701" ∧
      parseHex (field data (offset + 54)) = r.contents.length ∧
      parseHex (field data (offset + 94)) = r.name.length + 1 ∧
      (data.drop (offset + 110)).take r.name.length = r.name := by
  have sized := r.contents_size
  have named := r.name_size
  have magic : (text "070701").length = 6 := rfl
  have place {before mid after : List UInt8} {n k : Nat}
      (parts : r.head ++ back = before ++ (mid ++ after)) (start : before.length = n)
      (size : mid.length = k) : (data.drop (offset + n)).take k = mid := by
    rw [← drop_drop, rest, parts, drop_left' start, take_left' size]
  refine ⟨?_, ?_, ?_, ?_⟩
  · rw [rest, Record.head, append_assoc]
    exact take_left' magic
  · have parts : r.head ++ back = (text "070701" ++ r.lead) ++
        (hexField r.sizeCase 8 r.contents.length ++ (r.between ++
          (hexField r.nameCase 8 (r.name.length + 1) ++ (r.check ++ (r.name ++ ([0] ++ back)))))) := by
      simp [Record.head]
    rw [field, place parts (by simp [magic, r.lead_length]) (hexField_length ..),
      parseHex_hexField _ (by decide) (by omega)]
  · have parts : r.head ++ back = (text "070701" ++ (r.lead ++
        (hexField r.sizeCase 8 r.contents.length ++ r.between))) ++
          (hexField r.nameCase 8 (r.name.length + 1) ++ (r.check ++ (r.name ++ ([0] ++ back)))) := by
      simp [Record.head]
    rw [field, place parts (by simp [magic, r.lead_length, r.between_length, hexField_length])
      (hexField_length ..), parseHex_hexField _ (by decide) (by omega)]
  · have parts : r.head ++ back = (text "070701" ++ (r.lead ++
        (hexField r.sizeCase 8 r.contents.length ++ (r.between ++
          (hexField r.nameCase 8 (r.name.length + 1) ++ r.check))))) ++ (r.name ++ ([0] ++ back)) := by
      simp [Record.head]
    exact place parts
      (by simp [magic, r.lead_length, r.between_length, r.check_length, hexField_length]) rfl

theorem header_record (r : Record) (rest : data.drop offset = r.bytes offset ++ back) :
    header data flush whole offset =
      if r.name = text "TRAILER!!!" then some none else some (some (r.entry offset)) := by
  have length := congrArg List.length rest
  have before := front_length r offset
  have above := align4_le (offset + 110 + (r.name.length + 1))
  rw [Record.bytes, length_drop, length_append, length_append,
    length_append] at length
  have entry : r.bytes offset ++ back = r.head ++ (r.pad (offset + r.head.length) ++ (r.contents ++
      r.pad (offset + (r.front offset).length + r.contents.length)) ++ back) := by
    simp [Record.bytes, Record.front]
  obtain ⟨magic, sizes, names, name⟩ := record_fields r (rest.trans entry)
  have fits : ¬ (data.length < offset + 110 + (r.name.length + 1) - 1 ∨ (whole = true ∧
      data.length < align4 (offset + 110 + (r.name.length + 1)) + r.contents.length)) := by
    omega
  rw [header_inLoop (inLoop_of_lt flush (by omega)) names sizes, if_neg (not_not.mpr magic),
    if_neg fits, if_neg (Nat.succ_ne_zero _), Nat.add_sub_cancel, name, Record.entry, before]

section Visits
variable {A : Type}

def visitAll (visit : A → Entry → A × Bool) : A → List Entry → A
  | acc, [] => acc
  | acc, e :: rest =>
    if (visit acc e).2 then (visit acc e).1 else visitAll visit (visit acc e).1 rest

theorem visitAll_next (on : visit acc e = (acc', false)) :
    visitAll visit acc (e :: rest) = visitAll visit acc' rest := by
  rw [visitAll, on]
  rfl

theorem visitAll_last (off : visit acc e = (last, true)) :
    visitAll visit acc (e :: rest) = last := by
  rw [visitAll, off]
  rfl

def entriesAt : Nat → List Record → List Entry
  | _, [] => []
  | offset, r :: rest => r.entry offset :: entriesAt (r.entry offset).next rest

theorem walk_layout (last : IsTrailer trailer) (files : ∀ r ∈ records, r.name ≠ text "TRAILER!!!")
    (enough : records.length < fuel) (rest : data.drop offset = layout offset records ++
      (trailer.bytes (offset + (layout offset records).length) ++ back)) :
    walk data flush whole visit fuel offset acc =
      some (visitAll visit acc (entriesAt offset records), true) := by
  induction records generalizing offset fuel acc with
  | nil =>
    cases fuel with
    | zero => cases enough
    | succ =>
      rw [walk, header_record trailer rest, if_pos last.name]
      rfl
  | cons r records ih =>
    cases fuel with
    | zero => cases enough
    | succ =>
      have next := bytes_end r offset
      rw [layout, append_assoc] at rest
      rw [walk, header_record r rest, if_neg (files r mem_cons_self), Option.bind_some]
      simp only [entriesAt, visitAll]
      split
      · rfl
      · apply ih (fun r' member => files r' (mem_cons_of_mem _ member))
          (Nat.lt_of_succ_lt_succ enough)
        rw [← next, ← drop_drop, rest, drop_left, length_append, Nat.add_assoc]

end Visits

theorem archive_walk (last : IsTrailer trailer)
    (files : ∀ r ∈ records, r.name ≠ text "TRAILER!!!") (tail : List UInt8)
    (enough : records.length < fuel) :
    walk (archive records trailer tail) flush whole visit fuel 0 acc =
      some (visitAll visit acc (entriesAt 0 records), true) := by
  apply walk_layout last files enough
  rw [drop_zero, Nat.zero_add]
  rfl

theorem bytes_positive (r : Record) (offset : Nat) : 0 < (r.bytes offset).length := by
  have size := head_length r
  simp only [Record.bytes, Record.front, length_append]
  omega

theorem layout_length (offset : Nat) (records : List Record) :
    records.length ≤ (layout offset records).length := by
  induction records generalizing offset with
  | nil => exact Nat.le_refl _
  | cons r rest ih =>
    have first := bytes_positive r offset
    have later := ih (offset + (r.bytes offset).length)
    rw [layout, length_cons, length_append]
    omega

theorem archive_length (records : List Record) (trailer : Record) (tail : List UInt8) :
    records.length < (archive records trailer tail).length := by
  have files := layout_length 0 records
  have last := bytes_positive trailer (layout 0 records).length
  rw [archive, length_append, length_append]
  omega

theorem layout_append (offset : Nat) (before after : List Record) :
    layout offset (before ++ after) =
      layout offset before ++ layout (offset + (layout offset before).length) after := by
  induction before generalizing offset with
  | nil => rfl
  | cons r rest ih =>
    rw [cons_append, layout, layout, ih, append_assoc, length_append, Nat.add_assoc]

theorem archive_contents (before : List Record) (r : Record) (after : List Record)
    (trailer : Record) (tail : List UInt8) :
    ∃ back, archive (before ++ r :: after) trailer tail =
      (layout 0 before ++ r.front (layout 0 before).length) ++ (r.contents ++ back) := by
  rw [archive, layout_append, Nat.zero_add, layout, Record.bytes]
  simp only [append_assoc]
  exact ⟨_, rfl⟩

theorem lookup_none (others : ∀ r ∈ records, r.name ≠ normalized path) :
    visitAll (lookupVisit path) none (entriesAt offset records) = none := by
  induction records generalizing offset with
  | nil => rfl
  | cons r rest ih =>
    have other : ¬ (r.entry offset).name = normalized path := others r mem_cons_self
    rw [entriesAt, visitAll_next (if_neg other)]
    exact ih fun r' member => others r' (mem_cons_of_mem _ member)

theorem lookup_first {path : Path} {before after : List Record} {r : Record} {offset : Nat}
    (others : ∀ b ∈ before, b.name ≠ normalized path) (same : r.name = normalized path) :
    visitAll (lookupVisit path) none (entriesAt offset (before ++ r :: after)) =
      some (offset + (layout offset before).length +
        (r.front (offset + (layout offset before).length)).length, r.contents.length) := by
  induction before generalizing offset with
  | nil =>
    have found : (r.entry offset).name = normalized path := same
    rw [nil_append, entriesAt, visitAll_last (if_pos found)]
    rfl
  | cons b rest ih =>
    have other : ¬ (b.entry offset).name = normalized path := others b mem_cons_self
    have next := bytes_end b offset
    have later := @ih (b.entry offset).next fun b' member => others b' (mem_cons_of_mem _ member)
    rw [cons_append, entriesAt, visitAll_next (if_neg other), layout, length_append,
      ← Nat.add_assoc offset, next]
    exact later

def Spelled (name path : Path) : Prop :=
  path = name ∨ path = text "/" ++ name ∨ path = text "./" ++ name

theorem normalized_spelled (relative : (text "/").isPrefixOf name = false)
    (undotted : (text "./").isPrefixOf name = false) (spelled : Spelled name path) :
    normalized path = name := by
  rcases spelled with same | same | same
  · rw [same, normalized, relative, undotted]
    rfl
  · rw [same, normalized]
    simp [text]
  · rw [same, normalized]
    simp [text]

theorem archive_lookup {trailer : Record} (last : IsTrailer trailer)
    (files : ∀ r ∈ records, r.name ≠ text "TRAILER!!!") (tail : List UInt8) (path : Path) :
    cpioLookup (archive records trailer tail) path =
      some (visitAll (lookupVisit path) none (entriesAt 0 records)) := by
  rw [cpioLookup, cpioLookupFrom_walk,
    archive_walk last files tail (archive_length records trailer tail)]
  rfl

/-- In an archive of files the lookup finds the contents of the first one with the name, and none
    exactly if there is no such file. -/
theorem cpio_round_trip {records : List Record} (files : ∀ r ∈ records, Proper r.name)
    {trailer : Record} (last : IsTrailer trailer) (tail : List UInt8) {name path : Path}
    (relative : (text "/").isPrefixOf name = false)
    (undotted : (text "./").isPrefixOf name = false) (spelled : Spelled name path) :
    (∀ before r after, records = before ++ r :: after → r.name = name →
      (∀ b ∈ before, b.name ≠ name) →
      ∃ front back, archive records trailer tail = front ++ (r.contents ++ back) ∧
        front = layout 0 before ++ r.front (layout 0 before).length ∧
        cpioLookup (archive records trailer tail) path =
          some (some (front.length, r.contents.length))) ∧
    ((∀ r ∈ records, r.name ≠ name) →
      cpioLookup (archive records trailer tail) path = some none) := by
  have target := normalized_spelled relative undotted spelled
  have result := archive_lookup last (fun r member => (files r member).file) tail path
  constructor
  · intro before r after parts same others
    subst parts
    obtain ⟨back, whole⟩ := archive_contents before r after trailer tail
    refine ⟨_, back, whole, rfl, ?_⟩
    rw [result, lookup_first (fun b member => target ▸ others b member) (same.trans target.symm),
      Nat.zero_add, length_append]
  · intro others
    rw [result, lookup_none fun r member => target ▸ others r member]

def Record.plain (name contents : List UInt8) (named : name.length + 1 < 2 ^ 32)
    (sized : contents.length < 2 ^ 32) : Record :=
  ⟨name, contents, List.replicate 48 48, List.replicate 32 48, List.replicate 8 48, fun _ => true,
    fun _ => false, fun _ => 0, by simp, by simp, by simp, named, sized⟩

def plainTrailer : Record := .plain (text "TRAILER!!!") [] (by decide) (by decide)

theorem plainTrailer_last : IsTrailer plainTrailer := ⟨rfl, rfl⟩

def twoFiles : List Record :=
  [.plain (text "a/b") (text "070701") (by decide) (by decide),
    .plain (text "c") [7] (by decide) (by decide)]

theorem twoFiles_proper : ∀ r ∈ twoFiles, Proper r.name := by
  intro r member
  simp only [twoFiles, mem_cons, not_mem_nil, or_false] at member
  rcases member with same | same <;> rw [same] <;>
    exact ⟨by decide, by decide, by decide, by decide, by decide⟩

theorem second_of_two_files : ∃ front back,
    archive twoFiles plainTrailer [] = front ++ ([7] ++ back) ∧
      cpioLookup (archive twoFiles plainTrailer []) (text "/c") = some (some (front.length, 1)) := by
  obtain ⟨found, _⟩ := cpio_round_trip twoFiles_proper plainTrailer_last []
    (by decide : (text "/").isPrefixOf (text "c") = false) (by decide) (.inr (.inl rfl))
  obtain ⟨front, back, whole, _, result⟩ :=
    found [.plain (text "a/b") (text "070701") (by decide) (by decide)] _ [] rfl rfl (by decide)
  exact ⟨front, back, whole, result⟩

end TynKernel.Vfs
