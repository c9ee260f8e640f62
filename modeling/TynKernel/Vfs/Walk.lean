import TynKernel.Lib.Dirents
import TynKernel.Vfs.Cpio

/-!
The walk over the entries of the archive. The lookup, the count at boot, the test for a
directory and the listing have a copy of it each.
-/
namespace TynKernel.Vfs
open Bytes Dirents Option

structure Entry where
  name : Path
  dataStart : Nat
  filesize : Nat
  deriving DecidableEq, Repr

def Entry.next (e : Entry) : Nat := align4 (e.dataStart + e.filesize)

def inLoop (data : List UInt8) (flush : Bool) (offset : Nat) : Bool :=
  if flush then decide (offset + 110 ≤ data.length) else decide (offset + 110 < data.length)

/-- A turn up to the entry it finds. Without one the loop is left. -/
def header (data : List UInt8) (flush whole : Bool) (offset : Nat) : Option (Option Entry) :=
  if inLoop data flush offset then do
    let magic ← slice data offset (offset + 6)
    if magic ≠ text "070701" then return none
    let filesize := parseHex (← slice data (offset + 54) (offset + 62))
    let namesize := parseHex (← slice data (offset + 94) (offset + 102))
    let nameStart := offset + 110
    let nameEnd := nameStart + namesize - 1
    let dataStart := align4 (nameStart + namesize)
    let dataEnd := dataStart + filesize
    if data.length < nameEnd ∨ (whole ∧ data.length < dataEnd) then return none
    let name ← slice data nameStart nameEnd
    if name = text "TRAILER!!!" then return none
    return some ⟨name, dataStart, filesize⟩
  else some none

section Walk
variable {A : Type}

/-- The loop: visit says what becomes of the state at an entry, and whether the loop is left. The
    second component of the result tells that the loop ended before the fuel did. -/
def walk (data : List UInt8) (flush whole : Bool) (visit : A → Entry → A × Bool) :
    (fuel offset : Nat) → A → Option (A × Bool)
  | 0, _, acc => some (acc, false)
  | fuel + 1, offset, acc =>
    (header data flush whole offset).bind fun
      | none => some (acc, true)
      | some e =>
        if (visit acc e).2 then some ((visit acc e).1, true)
        else walk data flush whole visit fuel e.next (visit acc e).1

end Walk

def lookupVisit (path : Path) (_ : Option (Nat × Nat)) (e : Entry) : Option (Nat × Nat) × Bool :=
  if e.name = normalized path then (some (e.dataStart, e.filesize), true) else (none, false)

def dirVisit (stem : Path) (_ : Bool) (e : Entry) : Bool × Bool :=
  if stem.isPrefixOf e.name then (true, true) else (false, false)

def init (data : List UInt8) : Option Nat :=
  (walk data true false (fun count _ => (count + 1, false)) (data.length + 1) 0 0).map Prod.fst

structure Fill where
  out : List UInt8
  seen : List Path
  deriving DecidableEq, Repr

def isDup (seen : List Path) (child : Path) : Bool :=
  seen.any fun row =>
    let row := row ++ List.replicate (64 - row.length) 0
    row.take child.length == child && row.getD child.length 0 == 0

def fillVisit (stem : Path) (count : Nat) (acc : Fill) (e : Entry) : Fill × Bool :=
  if stem.length < e.name.length ∧ stem.isPrefixOf e.name then
    let rest := e.name.drop stem.length
    let child := rest.takeWhile (· ≠ 47)
    if (0 < child.length ∧ child.length < 64) ∧ isDup acc.seen child = false ∧
        acc.seen.length < 32 then
      let seen := acc.seen ++ [child]
      let reclen := recordLen child
      if count < acc.out.length + reclen then (⟨acc.out, seen⟩, true)
      else
        let d : Dirent := ⟨seen.length, acc.out.length + reclen,
          if child.length < rest.length then 4 else 8, child⟩
        (⟨acc.out ++ d.bytes, seen⟩, false)
    else (acc, false)
  else (acc, false)

def fillDirEntries (data : List UInt8) (count : Nat) (stem : Path) : Option (List UInt8) :=
  (walk data false false (fillVisit stem count) (data.length + 1) 0 ⟨[], []⟩).map fun r => r.1.out

theorem slice_some (order : first ≤ last) (inside : last ≤ data.length) :
    slice data first last = some ((data.drop first).take (last - first)) :=
  if_pos ⟨order, inside⟩

theorem inLoop_inside (here : inLoop data flush offset = true) : offset + 110 ≤ data.length := by
  unfold inLoop at here
  split at here <;> have := of_decide_eq_true here <;> omega

theorem inLoop_flush (here : offset + 110 ≤ data.length) : inLoop data true offset = true :=
  decide_eq_true here

theorem inLoop_of_lt (flush : Bool) (here : offset + 110 < data.length) :
    inLoop data flush offset = true := by
  cases flush with
  | true => exact decide_eq_true (Nat.le_of_lt here)
  | false => exact decide_eq_true here

def field (data : List UInt8) (first : Nat) : List UInt8 := (data.drop first).take 8

theorem slice_field (inside : first + 8 ≤ data.length) :
    slice data first (first + 8) = some (field data first) := by
  rw [slice_some (by omega) inside, Nat.add_sub_cancel_left]
  rfl

theorem slice_fixed (inside : offset + 110 ≤ data.length) :
    slice data offset (offset + 6) = some ((data.drop offset).take 6) ∧
      slice data (offset + 54) (offset + 62) = some (field data (offset + 54)) ∧
      slice data (offset + 94) (offset + 102) = some (field data (offset + 94)) := by
  refine ⟨?_, slice_field (by omega), slice_field (by omega)⟩
  rw [slice_some (by omega) (by omega), Nat.add_sub_cancel_left]

theorem slice_name (inside : offset + 110 + namesize - 1 ≤ data.length) :
    slice data (offset + 110) (offset + 110 + namesize - 1) =
      if namesize = 0 then none else some ((data.drop (offset + 110)).take (namesize - 1)) := by
  split
  · rename_i zero
    have bad : ¬ (offset + 110 ≤ offset + 110 + 0 - 1 ∧ offset + 110 + 0 - 1 ≤ data.length) := by
      omega
    rw [zero, slice, if_neg bad]
  · have length : offset + 110 + namesize - 1 - (offset + 110) = namesize - 1 := by omega
    rw [slice_some (by omega) inside, length]

theorem header_inLoop (here : inLoop data flush offset = true)
    (names : parseHex (field data (offset + 94)) = namesize)
    (sizes : parseHex (field data (offset + 54)) = filesize) :
    header data flush whole offset =
      if (data.drop offset).take 6 ≠ text "070701" then some none
      else if data.length < offset + 110 + namesize - 1 ∨
          (whole ∧ data.length < align4 (offset + 110 + namesize) + filesize) then some none
      else if namesize = 0 then none
      else if (data.drop (offset + 110)).take (namesize - 1) = text "TRAILER!!!" then some none
      else some (some ⟨(data.drop (offset + 110)).take (namesize - 1),
        align4 (offset + 110 + namesize), filesize⟩) := by
  obtain ⟨magic, first, second⟩ := slice_fixed (inLoop_inside here)
  rw [header, if_pos here, magic, first, second]
  simp only [bind, bind_some, pure, names, sizes]
  by_cases wrong : (data.drop offset).take 6 ≠ text "070701"
  · rw [if_pos wrong, if_pos wrong]
  rw [if_neg wrong, if_neg wrong]
  split
  · rfl
  · rename_i fits
    rw [slice_name (Nat.not_lt.mp (not_or.mp fits).1)]
    split <;> rfl

theorem cpioLookupFrom_walk (data : List UInt8) (path : Path) (fuel offset : Nat) :
    cpioLookupFrom data path fuel offset =
      (walk data true true (lookupVisit path) fuel offset none).map Prod.fst := by
  induction fuel generalizing offset with
  | zero => rfl
  | succ fuel ih =>
    rw [cpioLookupFrom, walk]
    by_cases here : offset + 110 ≤ data.length
    · obtain ⟨magic, first, second⟩ := slice_fixed here
      rw [if_pos here, header_inLoop (inLoop_flush here) rfl rfl, magic, first, second]
      simp only [bind, bind_some, pure, true_and]
      by_cases wrong : (data.drop offset).take 6 ≠ text "070701"
      · rw [if_pos wrong, if_pos wrong]
        rfl
      rw [if_neg wrong, if_neg wrong]
      split
      · rfl
      rename_i fits
      rw [slice_name (Nat.not_lt.mp (not_or.mp fits).1)]
      split
      · rfl
      rw [bind_some]
      split
      · rfl
      rw [bind_some, ih]
      simp only [lookupVisit]
      split <;> rfl
    · have outside : ¬ inLoop data true offset = true := fun h => here (of_decide_eq_true h)
      rw [if_neg here, header, if_neg outside]
      rfl

theorem isDirPrefixFrom_walk (data stem : List UInt8) (fuel offset : Nat) :
    isDirPrefixFrom data stem fuel offset =
      (walk data false false (dirVisit stem) fuel offset false).map Prod.fst := by
  induction fuel generalizing offset with
  | zero => rfl
  | succ fuel ih =>
    rw [isDirPrefixFrom, walk]
    by_cases here : offset + 110 < data.length
    · obtain ⟨magic, first, second⟩ := slice_fixed (Nat.le_of_lt here)
      rw [if_pos here, header_inLoop (inLoop_of_lt false here) rfl rfl, magic, first, second]
      simp only [bind, bind_some, pure, Bool.false_eq_true, false_and, or_false]
      by_cases wrong : (data.drop offset).take 6 ≠ text "070701"
      · rw [if_pos wrong, if_pos wrong]
        rfl
      rw [if_neg wrong, if_neg wrong]
      split
      · rfl
      rename_i fits
      rw [slice_name (Nat.not_lt.mp fits)]
      split
      · rfl
      rw [bind_some]
      split
      · rfl
      rw [bind_some, ih]
      simp only [dirVisit]
      split <;> rfl
    · have outside : ¬ inLoop data false offset = true := fun h => here (of_decide_eq_true h)
      rw [if_neg here, header, if_neg outside]
      rfl

theorem header_advances (found : header data flush whole offset = some (some e)) :
    offset + 110 ≤ data.length ∧ offset + 110 ≤ e.next := by
  by_cases here : inLoop data flush offset = true
  · refine ⟨inLoop_inside here, ?_⟩
    rw [header_inLoop here rfl rfl] at found
    split at found
    · cases found
    split at found
    · cases found
    split at found
    · cases found
    split at found
    · cases found
    cases found
    have first := align4_le (offset + 110 + parseHex (field data (offset + 94)))
    have second := align4_le (align4 (offset + 110 + parseHex (field data (offset + 94))) +
      parseHex (field data (offset + 54)))
    simp only [Entry.next]
    omega
  · rw [header, if_neg here] at found
    cases found

section Walk
variable {A : Type} {data : List UInt8} {flush whole : Bool} {visit : A → Entry → A × Bool}

theorem walk_ends (enough : data.length < offset + 110 * fuel) (some_ : 0 < fuel)
    (done : walk data flush whole visit fuel offset acc = some r) : r.2 = true := by
  induction fuel generalizing offset acc with
  | zero => cases some_
  | succ fuel ih =>
    rw [walk] at done
    obtain ⟨turn, found, done⟩ := bind_eq_some_iff.mp done
    cases turn with
    | none =>
      cases done
      rfl
    | some =>
      obtain ⟨inside, next⟩ := header_advances found
      simp only at done
      split at done
      · cases done
        rfl
      · exact ih (by omega) (by omega) done

def Nameless (data : List UInt8) (offset : Nat) : Prop :=
  offset + 110 ≤ data.length ∧ (data.drop offset).take 6 = text "070701" ∧
    parseHex (field data (offset + 94)) = 0

/-- The offsets that the walk comes to from one on if it visits all entries. -/
inductive Reach (data : List UInt8) : Nat → Nat → Prop where
  | here (offset : Nat) : Reach data offset offset
  | on {offset last : Nat} {e : Entry} (found : header data true false offset = some (some e))
      (rest : Reach data e.next last) : Reach data offset last

theorem header_nameless (nameless : Nameless data offset) :
    header data true false offset = none := by
  obtain ⟨inside, magic, zero⟩ := nameless
  have short : ¬ (data.length < offset + 110 + 0 - 1 ∨ (false = true ∧
      data.length < align4 (offset + 110 + 0) + parseHex (field data (offset + 54)))) := by
    simp only [Bool.false_eq_true, false_and, or_false]
    omega
  rw [header_inLoop (inLoop_flush inside) zero rfl, if_neg (not_not.mpr magic), if_neg short,
    if_pos rfl]

theorem header_returns (named : ¬ Nameless data offset) :
    ∃ turn, header data flush whole offset = some turn ∧
      ∀ e, turn = some e → header data true false offset = some (some e) := by
  by_cases here : inLoop data flush offset = true
  · have inside := inLoop_inside here
    rw [header_inLoop here rfl rfl, header_inLoop (inLoop_flush inside) rfl rfl]
    by_cases wrong : (data.drop offset).take 6 ≠ text "070701"
    · rw [if_pos wrong]
      exact ⟨none, rfl, nofun⟩
    rw [if_neg wrong, if_neg wrong]
    have positive : ¬ parseHex (field data (offset + 94)) = 0 :=
      fun zero => named ⟨inside, not_not.mp wrong, zero⟩
    split
    · exact ⟨none, rfl, nofun⟩
    rename_i fits
    have short := (not_or.mp fits).1
    split
    · exact ⟨none, rfl, nofun⟩
    rename_i inner
    refine ⟨_, rfl, ?_⟩
    intro e same
    cases same
    have fits' : ¬ (data.length < offset + 110 + parseHex (field data (offset + 94)) - 1 ∨
        (false = true ∧ data.length < align4 (offset + 110 + parseHex (field data (offset + 94))) +
          parseHex (field data (offset + 54)))) := by
      simpa using short
    rw [if_neg fits']
  · rw [header, if_neg here]
    exact ⟨none, rfl, nofun⟩

theorem walk_returns (named : ∀ last, Reach data offset last → ¬ Nameless data last) :
    ∃ r, walk data flush whole visit fuel offset acc = some r := by
  induction fuel generalizing offset acc with
  | zero => exact ⟨_, rfl⟩
  | succ fuel ih =>
    obtain ⟨turn, found, same⟩ := @header_returns data flush whole offset (named _ (.here offset))
    rw [walk, found, bind_some]
    cases turn with
    | none => exact ⟨_, rfl⟩
    | some e =>
      simp only
      split
      · exact ⟨_, rfl⟩
      · apply ih
        intro last rest
        exact named last (.on (same e rfl) rest)

theorem walk_named (all : ∀ acc e, (visit acc e).2 = false)
    (done : walk data true false visit fuel offset acc = some (r, true)) :
    ∀ last, Reach data offset last → ¬ Nameless data last := by
  induction fuel generalizing offset acc with
  | zero => cases done
  | succ fuel ih =>
    rw [walk] at done
    obtain ⟨turn, found, done⟩ := bind_eq_some_iff.mp done
    intro last reach nameless
    cases reach with
    | here =>
      rw [header_nameless nameless] at found
      cases found
    | on step rest =>
      rw [step] at found
      cases found
      simp only [all, Bool.false_eq_true, if_false] at done
      exact ih done last rest nameless

end Walk

structure Returns (data : List UInt8) : Prop where
  lookup : ∀ path, ∃ r, cpioLookup data path = some r
  init : ∃ count, init data = some count
  isDir : ∀ path, ∃ r, isDirPrefix data path = some r
  fill : ∀ count stem, ∃ out, fillDirEntries data count stem = some out

/-- Each walk over an image ends, and the four functions return exactly if no header on the way has
    a name size of zero. -/
theorem walkers_return_iff (data : List UInt8) :
    (∀ (A : Type) (flush whole : Bool) (visit : A → Entry → A × Bool) (acc : A) (fuel : Nat) r,
      data.length < fuel → walk data flush whole visit fuel 0 acc = some r → r.2 = true) ∧
    (Returns data ↔ ∀ offset, Reach data 0 offset → ¬ Nameless data offset) := by
  refine ⟨fun A flush whole visit acc fuel r enough done =>
    walk_ends (by omega) (by omega) done, ?_⟩
  constructor
  · intro returns
    obtain ⟨count, counted⟩ := returns.init
    obtain ⟨r, done, _⟩ := map_eq_some_iff.mp counted
    have ended := walk_ends (by omega) (by omega) done
    obtain ⟨n, flag⟩ := r
    cases ended
    exact walk_named (fun _ _ => rfl) done
  · intro named
    refine ⟨?_, ?_, ?_, ?_⟩
    · intro path
      obtain ⟨r, done⟩ := walk_returns named
      rw [cpioLookup, cpioLookupFrom_walk, done]
      exact ⟨_, rfl⟩
    · obtain ⟨r, done⟩ := walk_returns named
      rw [init, done]
      exact ⟨_, rfl⟩
    · intro path
      simp only [isDirPrefix]
      generalize (if (text "/").isPrefixOf path = true then path.drop 1 else path) = p
      split
      · exact ⟨_, rfl⟩
      · obtain ⟨r, done⟩ := walk_returns named
        rw [isDirPrefixFrom_walk, done]
        exact ⟨_, rfl⟩
    · intro count stem
      obtain ⟨r, done⟩ := walk_returns named
      rw [fillDirEntries, done]
      exact ⟨_, rfl⟩

def namelessImage : List UInt8 := text "070701" ++ (List.replicate 104 48 ++ [0, 0])

/-- All four functions read a slice that ends before it starts. -/
theorem nameless_image_stops : Nameless namelessImage 0 ∧
    cpioLookup namelessImage (text "x") = none ∧ init namelessImage = none ∧
    isDirPrefix namelessImage (text "x") = none ∧
    fillDirEntries namelessImage 4096 (text "x/") = none := by
  refine ⟨⟨by decide, by decide, by decide +kernel⟩, ?_, ?_, ?_, ?_⟩ <;> decide

end TynKernel.Vfs
