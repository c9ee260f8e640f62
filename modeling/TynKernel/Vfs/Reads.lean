import TynKernel.Lib.Streams
import TynKernel.Vfs.Files

/-!
Reading of archive files. Every open file is a part of the archive with a position in it that
is never past the end.
-/
namespace TynKernel.Vfs
open Bytes List Numbers Rows Runs Streams
variable {archive : List UInt8} {f : OpenFile} {v : State} {fd : Int}

def saturatingAdd (a b : Int) : Int := max (-2 ^ 63) (min (2 ^ 63 - 1) (a + b))

namespace State

def setPos (v : State) (f : OpenFile) (pos : Nat) : State :=
  match v.openFiles.cells.findIdx? fun slot => slot.any fun g => g.fd = f.fd with
  | some i => { v with openFiles := v.openFiles.set i (some { f with pos := pos }) }
  | none => v

def read (v : State) (fd : Int) (count : Nat) : Option (State × Int × List UInt8) :=
  match v.file fd with
  | some f =>
    let remaining := f.dataLen - f.pos
    if remaining = 0 then some (v, 0, [])
    else
      let toRead := min count remaining
      let src := f.dataOffset + f.pos
      (slice v.archive src (src + toRead)).map fun bytes =>
        (v.setPos f (f.pos + toRead), asI64 toRead, bytes)
  | none => some (v, -9, [])

def pread (v : State) (fd : Int) (count offset : Nat) : Option (Int × List UInt8) :=
  match v.file fd with
  | some f =>
    if f.dataLen ≤ offset then some (0, [])
    else
      let remaining := f.dataLen - offset
      let toRead := min count remaining
      let src := f.dataOffset + offset
      (slice v.archive src (src + toRead)).map fun bytes => (asI64 toRead, bytes)
  | none => some (-9, [])

def lseek (v : State) (fd offset whence : Int) : State × Int :=
  match v.file fd with
  | some f =>
    let newPos :=
      if whence = 0 then some (max offset 0).toNat
      else if whence = 1 then some (max (saturatingAdd (asI64 f.pos) offset) 0).toNat
      else if whence = 2 then some (max (saturatingAdd (asI64 f.dataLen) offset) 0).toNat
      else none
    match newPos with
    | some newPos =>
      let pos := min newPos f.dataLen
      (v.setPos f pos, asI64 pos)
    | none => (v, -22)
  | none => (v, -9)

end State

def contents (archive : List UInt8) (f : OpenFile) : List UInt8 :=
  part archive f.dataOffset f.dataLen

structure Inside (archive : List UInt8) (f : OpenFile) : Prop where
  image : f.dataOffset + f.dataLen ≤ archive.length
  length : f.dataLen < 2 ^ 32
  pos : f.pos ≤ f.dataLen

def Within (v : State) : Prop :=
  ∀ (i : Nat) slot, v.openFiles.cells[i]? = some slot → ∀ f, slot = some f → Inside v.archive f

theorem contents_length (inside : Inside archive f) :
    (contents archive f).length = f.dataLen :=
  part_length (by have := inside.image; omega)

theorem slice_contents (inside : Inside archive f) (fits : start + n ≤ f.dataLen) :
    slice archive (f.dataOffset + start) (f.dataOffset + start + n) =
      some (part (contents archive f) start n) := by
  have image := inside.image
  have bounds : f.dataOffset + start ≤ f.dataOffset + start + n ∧
      f.dataOffset + start + n ≤ archive.length := by omega
  have rest : min n (f.dataLen - start) = n := by omega
  rw [slice, if_pos bounds, Nat.add_sub_cancel_left]
  unfold contents part
  rw [drop_take, take_take, drop_drop, rest]

theorem file_slot (found : v.file fd = some f) :
    f.fd = fd ∧ ∃ i before after, v.openFiles.cells = before ++ some f :: after ∧
      before.length = i ∧ (v.openFiles.cells.findIdx? fun slot => slot.any fun g => g.fd = fd) =
        some i ∧ ∀ slot ∈ before, ¬ (slot.any fun g => g.fd = fd) = true := by
  unfold State.file at found
  generalize v.openFiles.cells = cells at found ⊢
  induction cells with
  | nil => cases found
  | cons slot rest ih =>
    have later : (rest.filterMap id).find? (fun f => f.fd = fd) = some f →
        ¬ (slot.any fun g => g.fd = fd) = true → f.fd = fd ∧ ∃ i before after,
          slot :: rest = before ++ some f :: after ∧ before.length = i ∧
          ((slot :: rest).findIdx? fun slot => slot.any fun g => g.fd = fd) = some i ∧
          ∀ slot ∈ before, ¬ (slot.any fun g => g.fd = fd) = true := by
      intro tail other
      obtain ⟨same, i, before, after, split, length, index, others⟩ := ih tail
      refine ⟨same, i + 1, slot :: before, after, ?_, ?_, ?_, ?_⟩
      · rw [split, cons_append]
      · rw [length_cons, length]
      · rw [findIdx?_cons, if_neg other, index]
        rfl
      · intro g member
        rcases mem_cons.mp member with here | there
        · rw [here]
          exact other
        · exact others g there
    cases slot with
    | none => exact later found Bool.false_ne_true
    | some g =>
      have head : ((some g :: rest).filterMap id) = g :: rest.filterMap id := rfl
      rw [head, find?_cons] at found
      split at found
      · rename_i same
        cases found
        refine ⟨of_decide_eq_true same, 0, [], rest, rfl, rfl, ?_, by simp⟩
        rw [findIdx?_cons, Option.any_some, if_pos same]
      · rename_i other
        refine later found ?_
        rw [Option.any_some, other]
        decide

theorem file_inside (within_ : Within v) (found : v.file fd = some f) : Inside v.archive f := by
  obtain ⟨_, i, before, after, split, length, _⟩ := file_slot found
  refine within_ i (some f) ?_ f rfl
  rw [split, ← length, getElem?_append_right (Nat.le_refl _), Nat.sub_self]
  rfl

theorem isVfsFd_file :
    v.isVfsFd fd = true ↔ ∃ f, v.file fd = some f := by
  rw [isVfsFd_iff, files_eq, Numbers.keys, map_map, ← Option.isSome_iff_exists, State.file,
    find?_isSome, mem_map]
  simp

theorem setPos_at {v : State} {fd : Int} {f : OpenFile} {before after : List (Option OpenFile)}
    (number : f.fd = fd) (split : v.openFiles.cells = before ++ some f :: after)
    (index : (v.openFiles.cells.findIdx? fun slot => slot.any fun g => g.fd = fd) =
      some before.length) (pos : Nat) :
    v.setPos f pos =
      { v with openFiles := v.openFiles.set before.length (some { f with pos := pos }) } ∧
    (v.setPos f pos).openFiles.cells = before ++ some { f with pos := pos } :: after := by
  have same : v.setPos f pos =
      { v with openFiles := v.openFiles.set before.length (some { f with pos := pos }) } := by
    unfold State.setPos
    rw [number, index]
  refine ⟨same, ?_⟩
  rw [same]
  simp only [Row.set]
  rw [split, set_append_right _ _ (Nat.le_refl _), Nat.sub_self, set_cons_zero]

theorem setPos_self (found : v.file fd = some f) :
    v.setPos f f.pos = v := by
  obtain ⟨number, i, before, after, split, rfl, index, _⟩ := file_slot found
  obtain ⟨same, cells⟩ := setPos_at number split index f.pos
  rw [← split] at cells
  rw [same] at cells ⊢
  cases v with
  | mk archive next files =>
    cases files with
    | mk =>
      simp only [Row.set] at cells ⊢
      simp [cells]

theorem file_setPos (found : v.file fd = some f) (pos : Nat) :
    (v.setPos f pos).file fd = some { f with pos := pos } := by
  obtain ⟨number, i, before, after, split, rfl, index, others⟩ := file_slot found
  rw [State.file, (setPos_at number split index pos).2, filterMap_append, find?_append]
  have first : (before.filterMap id).find? (fun g => g.fd = fd) = none := by
    rw [find?_eq_none]
    intro g member same
    obtain ⟨slot, inside, here⟩ := mem_filterMap.mp member
    have here : slot = some g := here
    refine others slot inside ?_
    rw [here]
    exact same
  have next : ((some { f with pos := pos } :: after).filterMap id) =
      { f with pos := pos } :: after.filterMap id := rfl
  rw [first, Option.none_or, next, find?_cons, decide_eq_true number]

theorem setPos_rest (v : State) (f : OpenFile) (pos : Nat) :
    (v.setPos f pos).archive = v.archive ∧ (v.setPos f pos).dirSlots = v.dirSlots := by
  unfold State.setPos
  split <;> exact ⟨rfl, rfl⟩

theorem setPos_within (within_ : Within v) (inside : Inside v.archive f) (short : pos ≤ f.dataLen) :
    Within (v.setPos f pos) := by
  unfold State.setPos
  split
  · refine Row.forall_set within_ ?_
    intro g same
    cases same
    exact ⟨inside.image, inside.length, short⟩
  · exact within_

section
variable (within_ : Within v) (found : v.file fd = some f)
include within_ found

theorem pread_contents (count offset : Nat) :
    v.pread fd count offset = some (((min count (f.dataLen - offset) : Nat) : Int),
      part (contents v.archive f) offset (min count (f.dataLen - offset))) := by
  have inside := file_inside within_ found
  have length := inside.length
  simp only [State.pread, found]
  split
  · rename_i past
    rw [Nat.sub_eq_zero_of_le past, Nat.min_zero, part_zero]
    rfl
  · have word : asI64 (min count (f.dataLen - offset) : Nat) =
        (min count (f.dataLen - offset) : Nat) := asI64_nat (by omega)
    rw [slice_contents inside (by omega), Option.map_some, word]

theorem lseek_current :
    v.lseek fd 0 1 = (v, (f.pos : Int)) := by
  have inside := file_inside within_ found
  have length := inside.length
  have pos := inside.pos
  have word : asI64 f.pos = f.pos := asI64_nat (by omega)
  have target : (max (saturatingAdd (asI64 f.pos) 0) 0).toNat = f.pos := by
    rw [word, saturatingAdd]
    omega
  simp only [State.lseek, found, target]
  rw [if_neg (by decide), if_pos trivial]
  simp [Nat.min_eq_left pos, setPos_self found, word]

theorem lseek_set (short : pos ≤ f.dataLen) :
    v.lseek fd pos 0 = (v.setPos f pos, (pos : Int)) := by
  have length := (file_inside within_ found).length
  have word : asI64 pos = pos := asI64_nat (by omega)
  have target : (max (pos : Int) 0).toNat = pos := by omega
  simp only [State.lseek, found, target]
  rw [if_pos trivial]
  simp [Nat.min_eq_left short, word]

end

inductive Call where
  | open_ (path : Path)
  | dup (fd : Int)
  | close (fd : Int)
  | read (fd : Int) (count : Nat)
  | lseek (fd offset whence : Int)
  | openDir (path : Path)
  | closeDir (fd : Int)

def step (v : State) : Call → Option State
  | .open_ path => (v.open_ path).map Prod.fst
  | .dup fd => some (v.dup fd).1
  | .close fd => some (v.close fd)
  | .read fd count => (v.read fd count).map Prod.fst
  | .lseek fd offset whence => some (v.lseek fd offset whence).1
  | .openDir path => some (v.openDir path).1
  | .closeDir fd => some (v.closeDir fd)

theorem parseHex_lt (short : digits.length ≤ 16) : parseHex digits < 16 ^ digits.length := by
  have digit : ∀ b : UInt8, hexDigit b < 16 := by
    intro b
    unfold hexDigit
    split <;> try omega
    split <;> try omega
    split <;> omega
  have go : ∀ (digits : List UInt8) (val k : Nat), val < 16 ^ k → digits.length + k ≤ 16 →
      digits.foldl (fun val b => (val <<< 4) % 2 ^ 64 ||| hexDigit b) val <
        16 ^ (digits.length + k) := by
    intro digits
    induction digits with
    | nil =>
      intro val k small _
      rw [length_nil, Nat.zero_add]
      exact small
    | cons b rest ih =>
      intro val k small fits
      rw [length_cons] at fits ⊢
      have grown : (val <<< 4) % 2 ^ 64 ||| hexDigit b < 16 ^ (k + 1) := by
        have power : (16 : Nat) ^ (k + 1) = 2 ^ (4 * (k + 1)) := by
          rw [Nat.pow_mul]
        rw [power]
        refine Nat.or_lt_two_pow ?_ ?_
        · exact Nat.lt_of_le_of_lt (Nat.mod_le _ _) (by omega)
        · calc hexDigit b < 2 ^ 4 := digit b
            _ ≤ 2 ^ (4 * (k + 1)) := Nat.pow_le_pow_right (by decide) (by omega)
      have rest' := ih _ (k + 1) grown (by omega)
      rw [Nat.add_assoc, Nat.add_comm 1 k]
      exact rest'
  exact go digits 0 0 (by decide) (by omega)

theorem cpioLookupFrom_inside
    (found : cpioLookupFrom data path fuel offset = some (some (first, len))) :
    first + len ≤ data.length ∧ len < 2 ^ 32 := by
  induction fuel generalizing offset with
  | zero => cases found
  | succ fuel ih =>
    rw [cpioLookupFrom] at found
    split at found
    · obtain ⟨magic, _, found⟩ := Option.bind_eq_some_iff.mp found
      split at found
      · cases found
      obtain ⟨digits, sliced, found⟩ := Option.bind_eq_some_iff.mp found
      obtain ⟨nameDigits, _, found⟩ := Option.bind_eq_some_iff.mp found
      simp only at found
      split at found
      · cases found
      obtain ⟨entryName, _, found⟩ := Option.bind_eq_some_iff.mp found
      split at found
      · cases found
      split at found
      · obtain ⟨rfl, rfl⟩ := found
        have eight : digits.length = 8 := by
          unfold slice at sliced
          split at sliced
          · cases sliced
            rw [length_take, length_drop]
            omega
          · cases sliced
        have small : parseHex digits < 16 ^ digits.length := parseHex_lt (by omega)
        rw [eight] at small
        exact ⟨by omega, by omega⟩
      · exact ih found
    · cases found

theorem within_initial (archive : List UInt8) : Within (initial archive) := by
  intro i slot get f used
  have empty : slot = none := eq_of_mem_replicate (mem_of_getElem? get)
  rw [empty] at used
  cases used

theorem install_within (within_ : Within v)
    (inside : dataOffset + dataLen ≤ v.archive.length ∧ dataLen < 2 ^ 32) (short : pos ≤ dataLen) :
    Within (v.install dataOffset dataLen pos).1 := by
  simp only [State.install]
  split
  · refine Row.forall_set within_ ?_
    intro f same
    rw [← Option.some.inj same]
    exact ⟨inside.1, inside.2, short⟩
  · exact within_

theorem step_within (within_ : Within v) (taken : step v call = some v') : Within v' := by
  cases call with
  | open_ =>
    simp only [step, State.open_, Option.map_map, Option.map_eq_some_iff] at taken
    obtain ⟨result, found, taken⟩ := taken
    subst taken
    cases result with
    | none => exact within_
    | some =>
      exact install_within within_ (cpioLookupFrom_inside found) (Nat.zero_le _)
  | dup =>
    cases taken
    unfold State.dup
    split
    · rename_i f found
      have inside := file_inside within_ found
      exact install_within within_ ⟨inside.image, inside.length⟩ inside.pos
    · exact within_
  | close =>
    cases taken
    unfold State.close
    split
    · exact Row.forall_set within_ (fun f used => by cases used)
    · exact within_
  | read =>
    simp only [step, State.read] at taken
    split at taken
    · rename_i f found
      split at taken
      · cases taken
        exact within_
      · simp only [Option.map_map, Option.map_eq_some_iff] at taken
        obtain ⟨bytes, _, taken⟩ := taken
        subst taken
        exact setPos_within within_ (file_inside within_ found) (by omega)
    · cases taken
      exact within_
  | lseek =>
    cases taken
    unfold State.lseek
    split
    · rename_i f found
      simp only
      split
      · exact setPos_within within_ (file_inside within_ found) (Nat.min_le_right _ _)
      · exact within_
    · exact within_
  | openDir =>
    cases taken
    unfold State.openDir
    split <;> exact within_
  | closeDir =>
    cases taken
    unfold State.closeDir
    split <;> exact within_

theorem run_within (run : Run step (initial archive) past v) : Within v :=
  run_invariant Within (within_initial archive) (fun _ _ _ within_ taken => step_within within_ taken)
    run

theorem step_rest (taken : step v call = some v') :
    v'.archive = v.archive ∧ (DirsNumbered v → DirsNumbered v') := by
  cases call with
  | open_ =>
    simp only [step, State.open_, Option.map_map, Option.map_eq_some_iff] at taken
    obtain ⟨result, _, taken⟩ := taken
    subst taken
    cases result with
    | none => exact ⟨rfl, id⟩
    | some place =>
      obtain ⟨image, dirs, _⟩ := install_rest v place.1 place.2 0
      exact ⟨image, dirsNumbered_same dirs⟩
  | dup =>
    cases taken
    unfold State.dup
    split
    · rename_i f _
      obtain ⟨image, dirs, _⟩ := install_rest v f.dataOffset f.dataLen f.pos
      exact ⟨image, dirsNumbered_same dirs⟩
    · exact ⟨rfl, id⟩
  | close fd =>
    cases taken
    obtain ⟨image, dirs, _⟩ := close_rest v fd
    exact ⟨image, dirsNumbered_same dirs⟩
  | read =>
    simp only [step, State.read] at taken
    split at taken
    · split at taken
      · cases taken
        exact ⟨rfl, id⟩
      · simp only [Option.map_map, Option.map_eq_some_iff] at taken
        obtain ⟨bytes, _, taken⟩ := taken
        subst taken
        exact (setPos_rest ..).imp_right dirsNumbered_same
    · cases taken
      exact ⟨rfl, id⟩
  | lseek =>
    cases taken
    unfold State.lseek
    split
    · simp only
      split
      · exact (setPos_rest ..).imp_right dirsNumbered_same
      · exact ⟨rfl, id⟩
    · exact ⟨rfl, id⟩
  | openDir path =>
    cases taken
    refine ⟨?_, fun dirs => openDir_dirs dirs path⟩
    unfold State.openDir
    split <;> rfl
  | closeDir fd =>
    cases taken
    exact ⟨(closeDir_rest v fd).1, fun dirs => closeDir_dirs dirs fd⟩

theorem run_dirs {image : List UInt8} {past : List (State × Call)} {v : State}
    (run : Run step (initial image) past v) : DirsNumbered v :=
  run_invariant DirsNumbered (dirsNumbered_initial image)
    (fun _ _ _ dirs taken => (step_rest taken).2 dirs) run

end TynKernel.Vfs
