import TynKernel.Vfs.Archive
import TynKernel.Vfs.Reads

/-!
Descriptors of archive files. To a program the open files are a map from numbers to files.
-/
namespace TynKernel.Vfs
open Bytes Function Numbers Option Rows Runs Streams
variable {f : OpenFile} {w v' : State} {dataOffset dataLen pos k : Nat} {code : Int} {call : Call}
  {past : List (State × Call)}

def WellFormed (image : List UInt8) : Prop :=
  ∃ records trailer tail, (∀ r ∈ records, r.name ≠ text "TRAILER!!!") ∧ IsTrailer trailer ∧
    image = archive records trailer tail

namespace State

def hasRoom (v : State) : Bool := v.openFiles.cells.any Option.isNone

def gives (v : State) : Call → Option Int
  | .open_ path =>
    if (cpioLookup v.archive path).join.isSome && v.hasRoom then some (asI32 v.nextVfsFd) else none
  | .dup fd => if (v.file fd).isSome && v.hasRoom then some (asI32 v.nextVfsFd) else none
  | _ => none

end State

def seekOrigin (f : OpenFile) (whence : Int) : Option Int :=
  if whence = 0 then some 0
  else if whence = 1 then some f.pos
  else if whence = 2 then some f.dataLen
  else none

def Adds (v v' : State) (f : OpenFile) : Prop :=
  v.file f.fd = none ∧ v'.file = Function.update v.file f.fd (some f)

/-- What a call does to the map from numbers to files, and what it answers. -/
def Serves (v v' : State) : Call → Prop
  | .open_ path =>
    match cpioLookup v.archive path with
    | some (some place) =>
      if v.hasRoom then ∃ n, v.open_ path = some (v', n) ∧ Adds v v' ⟨n, place.1, place.2, 0⟩
      else v.open_ path = some (v', -24) ∧ v'.file = v.file
    | some none => v.open_ path = some (v', -2) ∧ v'.file = v.file
    | none => False
  | .dup fd =>
    match v.file fd with
    | some f =>
      if v.hasRoom then ∃ n, v.dup fd = (v', n) ∧ Adds v v' { f with fd := n }
      else v.dup fd = (v', -24) ∧ v'.file = v.file
    | none => v.dup fd = (v', -9) ∧ v'.file = v.file
  | .close fd => v'.file = Function.update v.file fd none
  | .read fd count =>
    match v.file fd with
    | some f =>
      let n := min count (f.dataLen - f.pos)
      v.read fd count = some (v', (n : Int), part (contents v.archive f) f.pos n) ∧
        v'.file = Function.update v.file fd (some { f with pos := f.pos + n })
    | none => v.read fd count = some (v', -9, []) ∧ v'.file = v.file
  | .lseek fd offset whence =>
    match v.file fd with
    | some f =>
      match seekOrigin f whence with
      | some origin =>
        let pos := (max 0 (min (origin + offset) f.dataLen)).toNat
        v.lseek fd offset whence = (v', (pos : Int)) ∧
          v'.file = Function.update v.file fd (some { f with pos := pos })
      | none => v.lseek fd offset whence = (v', -22) ∧ v'.file = v.file
    | none => v.lseek fd offset whence = (v', -9) ∧ v'.file = v.file
  | .openDir _ => v'.file = v.file
  | .closeDir _ => v'.file = v.file

section Cells
variable {v : State} {fd : Int} {i : Nat} {old new : Option OpenFile}

def State.slot (v : State) (fd : Int) : Option Nat :=
  v.openFiles.cells.findIdx? fun slot => slot.any fun f => f.fd = fd

def State.put (v : State) (i : Nat) (slot : Option OpenFile) : State :=
  { v with openFiles := v.openFiles.set i slot }

theorem slot_none : v.slot fd = none ↔ v.file fd = none := by
  rw [State.slot, List.findIdx?_eq_none_iff, ← not_isSome_iff_eq_none,
    isSome_iff_exists, ← isVfsFd_file, State.isVfsFd, Bool.not_eq_true, List.any_eq_false]
  simp

theorem slot_some : v.slot fd = some i →
    ∃ f, f.fd = fd ∧ v.openFiles.cells[i]? = some (some f) ∧ v.file fd = some f := by
  intro found
  cases here : v.file fd with
  | none =>
    rw [slot_none.mpr here] at found
    cases found
  | some f =>
    obtain ⟨number, j, before, after, split, length, index, _⟩ := file_slot here
    have same : j = i := Option.some.inj (index.symm.trans found)
    refine ⟨f, number, ?_, rfl⟩
    rw [split, ← same, ← length, List.getElem?_append_right (Nat.le_refl _), Nat.sub_self]
    rfl

theorem slot_of_file (found : v.file fd = some f) :
    ∃ i, v.slot fd = some i ∧ v.openFiles.cells[i]? = some (some f) := by
  cases here : v.slot fd with
  | none =>
    rw [slot_none.mp here] at found
    cases found
  | some i =>
    obtain ⟨g, _, get, same⟩ := slot_some here
    rw [found, Option.some.injEq] at same
    subst same
    exact ⟨i, rfl, get⟩

theorem put_self (here : v.openFiles.cells[i]? = some old) (new : Option OpenFile) :
    (v.put i new).openFiles.cells[i]? = some new :=
  List.getElem?_set_self (List.getElem?_eq_some_iff.mp here).1

theorem file_put_other (here : v.openFiles.cells[i]? = some old)
    (before : ∀ f, old = some f → f.fd ≠ fd) (after : ∀ f, new = some f → f.fd ≠ fd) :
    (v.put i new).file fd = v.file fd := by
  have fails : ∀ slot : Option OpenFile, (∀ f, slot = some f → f.fd ≠ fd) →
      (slot.any fun f => f.fd = fd) = false := by
    intro slot other
    cases slot with
    | none => rfl
    | some f => exact decide_eq_false (other f rfl)
  have same : (v.put i new).slot fd = v.slot fd :=
    findIdx_write_same here ((fails new after).trans (fails old before).symm)
  cases place : v.slot fd with
  | none => rw [slot_none.mp place, slot_none.mp (same.trans place)]
  | some k =>
    obtain ⟨f, number, get, found⟩ := slot_some place
    obtain ⟨g, _, get', found'⟩ := slot_some (same.trans place)
    have apart : i ≠ k := by
      intro eq
      rw [← eq, here, Option.some.injEq] at get
      exact before f get number
    have cell : (v.put i new).openFiles.cells[k]? = v.openFiles.cells[k]? :=
      List.getElem?_set_ne apart
    rw [cell, get, Option.some.injEq, Option.some.injEq] at get'
    rw [found, found', get']

theorem file_put_here (found : v.slot fd = some i) (number : f.fd = fd) :
    (v.put i (some f)).file fd = some f := by
  obtain ⟨g, same, here, _⟩ := slot_some found
  have again : (v.put i (some f)).slot fd = some i := by
    rw [← found]
    exact findIdx_write_same here (by simp only [any_some, number, same])
  obtain ⟨h, _, get, there⟩ := slot_some again
  rw [put_self here, Option.some.injEq, Option.some.injEq] at get
  rw [there, get]

theorem file_put_new (here : v.openFiles.cells[i]? = some old) (absent : v.file fd = none)
    (number : f.fd = fd) : (v.put i (some f)).file fd = some f := by
  have others := List.findIdx?_eq_none_iff.mp (slot_none.mpr absent)
  have found : (v.put i (some f)).slot fd = some i :=
    findIdx_write_here here (decide_eq_true number)
      (fun j b _ get => others b (List.mem_of_getElem? get))
  obtain ⟨h, _, get, there⟩ := slot_some found
  rw [put_self here, Option.some.injEq, Option.some.injEq] at get
  rw [there, get]

end Cells

def Unique (v : State) : Prop :=
  ∀ (i j : Nat) f g, v.openFiles.cells[i]? = some (some f) →
    v.openFiles.cells[j]? = some (some g) → f.fd = g.fd → i = j

theorem unique_initial (image : List UInt8) : Unique (initial image) := by
  intro i j f g here
  have empty : some f = none := List.eq_of_mem_replicate (List.mem_of_getElem? here)
  cases empty

theorem put_unique {v : State} {i : Nat} {new : Option OpenFile} (unique : Unique v)
    (own : ∀ f, new = some f → ∀ (j : Nat) g, j ≠ i → v.openFiles.cells[j]? = some (some g) →
      f.fd ≠ g.fd) : Unique (v.put i new) := by
  have cell : ∀ (j : Nat) g, (v.put i new).openFiles.cells[j]? = some (some g) →
      (j = i ∧ new = some g) ∨ (j ≠ i ∧ v.openFiles.cells[j]? = some (some g)) := by
    intro j g get
    by_cases here : i = j
    · subst here
      obtain ⟨bound, same⟩ := List.getElem?_eq_some_iff.mp get
      simp only [State.put, Row.set, List.getElem_set_self] at same
      exact .inl ⟨rfl, same⟩
    · exact .inr ⟨fun eq => here eq.symm, (List.getElem?_set_ne here).symm.trans get⟩
  intro j k f g first second number
  rcases cell j f first with ⟨rfl, isNew⟩ | ⟨other, old⟩
  · rcases cell k g second with ⟨rfl, _⟩ | ⟨other, old⟩
    · rfl
    · exact absurd number (own f isNew k g other old)
  · rcases cell k g second with ⟨rfl, isNew⟩ | ⟨_, old'⟩
    · exact absurd number.symm (own g isNew j f other old)
    · exact unique j k f g old old' number

theorem absent_cell {v : State} {fd : Int} (absent : v.file fd = none) {j : Nat} {g : OpenFile}
    (get : v.openFiles.cells[j]? = some (some g)) : fd ≠ g.fd := by
  intro same
  have fails := List.findIdx?_eq_none_iff.mp (slot_none.mpr absent) _ (List.mem_of_getElem? get)
  rw [any_some, decide_eq_false_iff_not] at fails
  exact fails same.symm

theorem setPos_put {v : State} (found : v.file fd = some f) :
    ∃ i, v.slot fd = some i ∧ v.openFiles.cells[i]? = some (some f) ∧
      ∀ pos, v.setPos f pos = v.put i (some { f with pos := pos }) := by
  obtain ⟨i, index, get⟩ := slot_of_file found
  refine ⟨i, index, get, ?_⟩
  intro pos
  rw [← (file_slot found).1, State.slot] at index
  rw [State.setPos, index]
  rfl

theorem setPos_update {v : State} (found : v.file fd = some f) (pos : Nat) :
    (v.setPos f pos).file = update v.file fd (some { f with pos := pos }) := by
  have number := (file_slot found).1
  obtain ⟨i, index, get, moved⟩ := setPos_put found
  rw [moved]
  funext other
  by_cases same : other = fd
  · rw [same, update_self]
    exact file_put_here index number
  rw [update_of_ne same]
  refine file_put_other get ?_ ?_
  · intro g eq
    cases eq
    exact fun eq => same (eq.symm.trans number)
  · intro g eq
    cases eq
    exact fun eq => same (eq.symm.trans number)

theorem setPos_unique (unique : Unique v) (found : v.file fd = some f) (pos : Nat) :
    Unique (v.setPos f pos) := by
  obtain ⟨i, _, get, moved⟩ := setPos_put found
  rw [moved]
  apply put_unique unique
  intro g eq j h other here same
  cases eq
  exact other (unique j i h f here get same.symm)

theorem file_congr {v : State} (same : v.openFiles = w.openFiles) : v.file = w.file := by
  funext fd
  rw [State.file, State.file, same]

theorem unique_congr (same : v.openFiles = w.openFiles) (unique : Unique w) : Unique v := by
  rw [Unique, same]
  exact unique

theorem install_cases (v : State) (dataOffset dataLen pos : Nat) :
    (v.hasRoom = true ∧ ∃ i v', v.openFiles.cells[i]? = some none ∧
      v.install dataOffset dataLen pos = (v', asI32 v.nextVfsFd) ∧
      v'.openFiles = (v.put i (some ⟨asI32 v.nextVfsFd, dataOffset, dataLen, pos⟩)).openFiles) ∨
    (v.hasRoom = false ∧ ∃ v', v.install dataOffset dataLen pos = (v', -24) ∧
      v'.openFiles = v.openFiles) := by
  simp only [State.install]
  split
  · rename_i i found
    obtain ⟨slot, get, free, _⟩ := findIdx_iff.mp found
    rw [isNone_iff_eq_none] at free
    subst free
    have room : v.hasRoom = true := List.any_eq_true.mpr ⟨none, List.mem_of_getElem? get, rfl⟩
    exact .inl ⟨room, i, _, get, rfl, rfl⟩
  · rename_i full
    refine .inr ⟨?_, _, rfl, rfl⟩
    rw [State.hasRoom, List.any_eq_false]
    intro slot member
    rw [List.findIdx?_eq_none_iff.mp full slot member]
    exact Bool.false_ne_true

theorem install_room {v : State} (dataOffset dataLen pos : Nat) (room : v.hasRoom = true) :
    ∃ i v', v.openFiles.cells[i]? = some none ∧
      v.install dataOffset dataLen pos = (v', asI32 v.nextVfsFd) ∧
      v'.openFiles = (v.put i (some ⟨asI32 v.nextVfsFd, dataOffset, dataLen, pos⟩)).openFiles := by
  rcases install_cases v dataOffset dataLen pos with ⟨_, taken⟩ | ⟨full, _⟩
  · exact taken
  · rw [room] at full
    cases full

theorem install_full {v : State} (dataOffset dataLen pos : Nat) (full : v.hasRoom = false) :
    ∃ v', v.install dataOffset dataLen pos = (v', -24) ∧ v'.openFiles = v.openFiles := by
  rcases install_cases v dataOffset dataLen pos with ⟨room, _⟩ | ⟨_, refused⟩
  · rw [full] at room
    cases room
  · exact refused

theorem put_update {v : State} (free : v.openFiles.cells[i]? = some none)
    (fresh : v.file f.fd = none) :
    (v.put i (some f)).file = update v.file f.fd (some f) := by
  funext other
  by_cases same : other = f.fd
  · rw [same, update_self]
    exact file_put_new free fresh rfl
  rw [update_of_ne same]
  refine file_put_other free (fun g eq => by cases eq) ?_
  intro g eq
  cases eq
  exact fun eq => same eq.symm

theorem put_new_unique {v : State} (unique : Unique v) (fresh : v.file f.fd = none) :
    Unique (v.put i (some f)) := by
  apply put_unique unique
  intro g eq j h _ here
  cases eq
  exact absent_cell fresh here

theorem close_update (unique : Unique v) (fd : Int) :
    (v.close fd).file = update v.file fd none ∧ Unique (v.close fd) := by
  cases place : v.slot fd with
  | none =>
    have same : v.close fd = v := by
      rw [State.slot] at place
      rw [State.close, place]
    rw [same, eq_update_self_iff]
    exact ⟨slot_none.mp place, unique⟩
  | some i =>
    have closed : v.close fd = v.put i none := by
      rw [State.slot] at place
      rw [State.close, place]
      rfl
    obtain ⟨f, number, get, _⟩ := slot_some place
    have kept : Unique (v.put i none) := put_unique unique (fun g eq => by cases eq)
    rw [closed]
    refine ⟨?_, kept⟩
    funext other
    by_cases same : other = fd
    · rw [same, update_self, ← slot_none, State.slot, List.findIdx?_eq_none_iff]
      intro slot member
      obtain ⟨j, here⟩ := List.mem_iff_getElem?.mp member
      cases slot with
      | none => rfl
      | some g =>
        apply decide_eq_false
        intro eq
        have apart : i ≠ j := by
          intro eq
          rw [← eq, put_self get] at here
          cases here
        have before : v.openFiles.cells[j]? = some (some g) :=
          (List.getElem?_set_ne apart).symm.trans here
        exact apart (unique i j f g get before (number.trans eq.symm))
    · rw [update_of_ne same]
      refine file_put_other get ?_ (fun g eq => by cases eq)
      intro g eq
      cases eq
      exact fun eq => same (eq.symm.trans number)

theorem install_adds {v : State} (room : v.hasRoom = true)
    (fresh : v.file (asI32 v.nextVfsFd) = none)
    (done : v.install dataOffset dataLen pos = (v', code)) :
    Adds v v' ⟨code, dataOffset, dataLen, pos⟩ ∧ (Unique v → Unique v') := by
  obtain ⟨i, w, free, installed, files⟩ := install_room dataOffset dataLen pos room
  obtain ⟨same, number⟩ := Prod.mk.inj (installed.symm.trans done)
  rw [number] at fresh files
  subst same
  refine ⟨⟨fresh, ?_⟩, ?_⟩
  · rw [file_congr files]
    exact put_update free fresh
  · intro unique
    exact unique_congr files (put_new_unique unique fresh)

theorem install_refused {v : State} (full : v.hasRoom = false)
    (done : v.install dataOffset dataLen pos = (v', code)) :
    code = -24 ∧ v'.file = v.file ∧ (Unique v → Unique v') := by
  obtain ⟨w, installed, files⟩ := install_full dataOffset dataLen pos full
  obtain ⟨same, refused⟩ := Prod.mk.inj (installed.symm.trans done)
  subst same
  exact ⟨refused.symm, file_congr files, unique_congr files⟩

theorem open_found {v : State} {path : Path} {place : Nat × Nat}
    (found : cpioLookup v.archive path = some (some place)) :
    v.open_ path = some (v.install place.1 place.2 0) ∧
      v.gives (.open_ path) = if v.hasRoom then some (asI32 v.nextVfsFd) else none := by
  cases place with
  | mk =>
    constructor
    · rw [State.open_, found, map_some]
    · simp [State.gives, found, join_some]

theorem dup_found {v : State} (found : v.file fd = some f) :
    v.dup fd = v.install f.dataOffset f.dataLen f.pos ∧
      v.gives (.dup fd) = if v.hasRoom then some (asI32 v.nextVfsFd) else none := by
  constructor
  · rw [State.dup, found]
  · simp [State.gives, found]

theorem open_serves {v v' : State} (unique : Unique v)
    (fresh : ∀ n ∈ v.gives (.open_ path), v.file n = none)
    (taken : step v (.open_ path) = some v') : Serves v v' (.open_ path) ∧ Unique v' := by
  obtain ⟨⟨w, code⟩, opened, same⟩ := map_eq_some_iff.mp taken
  subst same
  rw [Serves]
  cases found : cpioLookup v.archive path with
  | none =>
    rw [State.open_, found] at opened
    cases opened
  | some result =>
    cases result with
    | none =>
      rw [opened]
      rw [State.open_, found] at opened
      cases opened
      exact ⟨⟨rfl, rfl⟩, unique⟩
    | some =>
      obtain ⟨runs, given⟩ := open_found found
      rw [given] at fresh
      simp only [opened]
      rw [runs, Option.some.injEq] at opened
      cases room : v.hasRoom with
      | true =>
        rw [room] at fresh
        obtain ⟨adds, kept⟩ := install_adds room (fresh _ rfl) opened
        exact ⟨⟨code, rfl, adds⟩, kept unique⟩
      | false =>
        obtain ⟨refused, same, kept⟩ := install_refused room opened
        rw [refused]
        exact ⟨⟨rfl, same⟩, kept unique⟩

theorem dup_serves {v : State} (unique : Unique v)
    (fresh : ∀ n ∈ v.gives (.dup fd), v.file n = none) :
    Serves v (v.dup fd).1 (.dup fd) ∧ Unique (v.dup fd).1 := by
  rw [Serves]
  cases found : v.file fd with
  | none =>
    have same : v.dup fd = (v, -9) := by rw [State.dup, found]
    rw [same]
    exact ⟨⟨rfl, rfl⟩, unique⟩
  | some =>
    obtain ⟨runs, given⟩ := dup_found found
    rw [given] at fresh
    cases done : v.dup fd with
    | mk v' code =>
      rw [runs] at done
      cases room : v.hasRoom with
      | true =>
        rw [room] at fresh
        obtain ⟨adds, kept⟩ := install_adds room (fresh _ rfl) done
        exact ⟨⟨code, rfl, adds⟩, kept unique⟩
      | false =>
        obtain ⟨refused, same, kept⟩ := install_refused room done
        rw [refused]
        exact ⟨⟨rfl, same⟩, kept unique⟩

theorem read_found (within_ : Within v) (found : v.file fd = some f) (count : Nat) :
    v.read fd count = some (v.setPos f (f.pos + min count (f.dataLen - f.pos)),
      ((min count (f.dataLen - f.pos) : Nat) : Int),
      part (contents v.archive f) f.pos (min count (f.dataLen - f.pos))) := by
  have inside := file_inside within_ found
  have length := inside.length
  simp only [State.read, found]
  by_cases ended : f.dataLen - f.pos = 0
  · rw [if_pos ended, ended, Nat.min_zero, Nat.add_zero, setPos_self found, part_zero]
    rfl
  · have word : asI64 (min count (f.dataLen - f.pos) : Nat) =
        (min count (f.dataLen - f.pos) : Nat) := asI64_nat (by omega)
    rw [if_neg ended, slice_contents inside (by omega), map_some, word]

theorem read_serves {v : State} (within_ : Within v) (fd : Int) (count : Nat) :
    ∃ v', step v (.read fd count) = some v' ∧ Serves v v' (.read fd count) ∧
      (Unique v → Unique v') := by
  rw [step]
  cases found : v.file fd with
  | none =>
    have same : v.read fd count = some (v, -9, []) := by rw [State.read, found]
    refine ⟨v, by rw [same]; rfl, ?_, id⟩
    rw [Serves, found]
    exact ⟨same, rfl⟩
  | some =>
    have reads := read_found within_ found count
    refine ⟨_, by rw [reads]; rfl, ?_, fun unique => setPos_unique unique found _⟩
    rw [Serves, found]
    exact ⟨reads, setPos_update found _⟩

theorem seek_clamped {origin : Nat} (offset : Int) (small : origin < 2 ^ 32)
    (length : f.dataLen < 2 ^ 32) :
    min (max (saturatingAdd (asI64 origin) offset) 0).toNat f.dataLen =
      (max 0 (min ((origin : Int) + offset) f.dataLen)).toNat := by
  have word : asI64 origin = origin := asI64_nat (by omega)
  rw [word, saturatingAdd]
  omega

theorem lseek_found {v : State} (within_ : Within v) (found : v.file fd = some f) :
    v.lseek fd offset whence =
      match seekOrigin f whence with
      | some origin =>
        (v.setPos f (max 0 (min (origin + offset) f.dataLen)).toNat,
          ((max 0 (min (origin + offset) f.dataLen)).toNat : Int))
      | none => (v, -22) := by
  have inside := file_inside within_ found
  have length := inside.length
  have short := inside.pos
  have word : ∀ n : Nat, n ≤ f.dataLen → asI64 n = n := fun n fits => asI64_nat (by omega)
  have target : ∀ origin : Int, (max 0 (min (origin + offset) f.dataLen)).toNat ≤ f.dataLen := by
    omega
  simp only [State.lseek, found]
  by_cases set : whence = 0
  · have cut : min (max offset 0).toNat f.dataLen =
        (max 0 (min (0 + offset) f.dataLen)).toNat := by omega
    simp only [seekOrigin, if_pos set, cut, word _ (target 0)]
  by_cases current : whence = 1
  · simp only [seekOrigin, if_neg set, if_pos current, seek_clamped offset
      (Nat.lt_of_le_of_lt short length) length, word _ (target f.pos)]
  · by_cases last : whence = 2
    · simp only [seekOrigin, if_neg set, if_neg current, if_pos last,
        seek_clamped offset length length, word _ (target f.dataLen)]
    · simp [seekOrigin, if_neg set, if_neg current, if_neg last]

theorem lseek_serves {v : State} (within_ : Within v) (fd offset whence : Int) :
    Serves v (v.lseek fd offset whence).1 (.lseek fd offset whence) ∧
      (Unique v → Unique (v.lseek fd offset whence).1) := by
  rw [Serves]
  cases found : v.file fd with
  | none =>
    have same : v.lseek fd offset whence = (v, -9) := by rw [State.lseek, found]
    rw [same]
    exact ⟨⟨rfl, rfl⟩, id⟩
  | some f =>
    rw [lseek_found within_ found]
    simp only
    cases seekOrigin f whence with
    | none => exact ⟨⟨rfl, rfl⟩, id⟩
    | some =>
      exact ⟨⟨rfl, setPos_update found _⟩, fun unique => setPos_unique unique found _⟩

theorem openDir_files (v : State) (path : Path) : (v.openDir path).1.openFiles = v.openFiles := by
  unfold State.openDir
  split <;> rfl

/-- While the numbers given out are new, each call does to the map what it should. -/
theorem step_serves (within_ : Within v) (unique : Unique v)
    (fresh : ∀ n ∈ v.gives call, v.file n = none) (taken : step v call = some v') :
    Serves v v' call ∧ Unique v' := by
  cases call with
  | open_ => exact open_serves unique fresh taken
  | dup =>
    cases taken
    exact dup_serves unique fresh
  | close fd =>
    cases taken
    exact close_update unique fd
  | read fd count =>
    obtain ⟨w, reads, serves, kept⟩ := read_serves within_ fd count
    rw [reads] at taken
    cases taken
    exact ⟨serves, kept unique⟩
  | lseek fd offset whence =>
    cases taken
    obtain ⟨serves, kept⟩ := lseek_serves within_ fd offset whence
    exact ⟨serves, kept unique⟩
  | openDir path =>
    cases taken
    exact ⟨file_congr (openDir_files v path), unique_congr (openDir_files v path) unique⟩
  | closeDir fd =>
    cases taken
    have files := (closeDir_rest v fd).2.1
    exact ⟨file_congr files, unique_congr files unique⟩

theorem serves_fresh {v : State} (serves : Serves v v' call) :
    ∀ n ∈ v.gives call, v.file n = none := by
  intro n given
  cases call with
  | open_ path =>
    rw [Serves] at serves
    cases found : cpioLookup v.archive path with
    | none =>
      rw [found] at serves
      exact serves.elim
    | some result =>
      cases result with
      | none =>
        rw [State.gives, found] at given
        cases given
      | some place =>
        obtain ⟨runs, gives⟩ := open_found found
        rw [gives] at given
        simp only [found, runs, Option.some.injEq] at serves
        cases room : v.hasRoom with
        | false =>
          rw [room] at given
          cases given
        | true =>
          rw [room] at given serves
          rw [if_pos rfl, mem_some] at given
          subst given
          obtain ⟨code, done, absent, _⟩ := serves
          obtain ⟨_, _, _, installed, _⟩ := install_room place.1 place.2 0 room
          rw [(Prod.mk.inj (installed.symm.trans done)).2]
          exact absent
  | dup fd =>
    rw [Serves] at serves
    cases found : v.file fd with
    | none =>
      rw [State.gives, found] at given
      cases given
    | some f =>
      obtain ⟨runs, gives⟩ := dup_found found
      rw [gives] at given
      simp only [found, runs] at serves
      cases room : v.hasRoom with
      | false =>
        rw [room] at given
        cases given
      | true =>
        rw [room] at given serves
        rw [if_pos rfl, mem_some] at given
        subst given
        obtain ⟨code, done, absent, _⟩ := serves
        obtain ⟨_, _, _, installed, _⟩ := install_room f.dataOffset f.dataLen f.pos room
        rw [(Prod.mk.inj (installed.symm.trans done)).2]
        exact absent
  | close fd | read fd count | lseek fd offset whence | openDir path | closeDir fd => cases given

theorem run_archive {image : List UInt8} (run : Run step (initial image) past v) :
    Within v ∧ v.archive = image := by
  refine run_invariant (fun v => Within v ∧ v.archive = image) ⟨within_initial image, rfl⟩ ?_ run
  rintro s call s' ⟨within_, same⟩ taken
  exact ⟨step_within within_ taken, (step_rest taken).1.trans same⟩

theorem step_returns (within_ : Within v) (formed : WellFormed v.archive) (call : Call) :
    ∃ v', step v call = some v' := by
  cases call with
  | open_ path =>
    obtain ⟨records, trailer, tail, files, last, image⟩ := formed
    have found := archive_lookup last files tail path
    rw [← image] at found
    rw [step, State.open_, found]
    exact ⟨_, rfl⟩
  | read fd count =>
    obtain ⟨v', reads, _⟩ := read_serves within_ fd count
    exact ⟨v', reads⟩
  | dup fd | close fd | lseek fd offset whence | openDir path | closeDir fd => exact ⟨_, rfl⟩

theorem run_unique {image : List UInt8} (run : Run step (initial image) past v)
    (fresh : ∀ e ∈ past, ∀ n ∈ e.1.gives e.2, e.1.file n = none) :
    Throughout (fun v => Within v ∧ Unique v) past v := by
  refine run_throughout (fun v call => ∀ n ∈ v.gives call, v.file n = none)
    (fun v => Within v ∧ Unique v) ⟨within_initial image, unique_initial image⟩ ?_ run fresh
  rintro s call s' ⟨within_, unique⟩ new taken
  exact ⟨step_within within_ taken, (step_serves within_ unique new taken).2⟩

/-- Every open file stays inside the image, and read, pread and lseek give and move what they
    should. All calls of a run do so exactly when the numbers that open and dup give out are not
    those of open files. -/
theorem descriptors_iff {image : List UInt8} {past : List (State × Call)} {v : State}
    (run : Run step (initial image) past v) :
    Within v ∧ (WellFormed image → ∀ call, ∃ v', step v call = some v') ∧
      (∀ fd count, ∃ v', step v (.read fd count) = some v' ∧ Serves v v' (.read fd count)) ∧
      (∀ fd f count offset, v.file fd = some f → v.pread fd count offset =
        some (((min count (f.dataLen - offset) : Nat) : Int),
          part (contents v.archive f) offset (min count (f.dataLen - offset)))) ∧
      (∀ fd offset whence, Serves v (v.lseek fd offset whence).1 (.lseek fd offset whence)) ∧
      ((∀ e ∈ past, ∀ v', step e.1 e.2 = some v' → Serves e.1 v' e.2) ↔
        ∀ e ∈ past, ∀ n ∈ e.1.gives e.2, e.1.file n = none) := by
  obtain ⟨within_, same⟩ := run_archive run
  refine ⟨within_, ?_, ?_, ?_, ?_, ?_, ?_⟩
  · intro formed
    rw [← same] at formed
    exact step_returns within_ formed
  · intro fd count
    obtain ⟨v', reads, serves, _⟩ := read_serves within_ fd count
    exact ⟨v', reads, serves⟩
  · intro fd f count offset found
    exact pread_contents within_ found count offset
  · intro fd offset whence
    exact (lseek_serves within_ fd offset whence).1
  · intro served e member
    obtain ⟨later, earlier, eq⟩ := List.append_of_mem member
    subst eq
    obtain ⟨mid, _, taken, _⟩ := run_at run
    exact serves_fresh (served e member mid taken)
  · intro fresh e member v' taken
    obtain ⟨inside, unique⟩ := (run_unique run fresh).2 e member
    exact (step_serves inside unique (fresh e member) taken).1

section Round
variable {image : List UInt8} {path : Path} {place : Nat × Nat}

def others : List (Option OpenFile) := List.replicate 254 none

def kept (image : List UInt8) (place : Nat × Nat) (second : Option OpenFile) (next : Nat) :
    State where
  archive := image
  nextVfsFd := next
  openFiles := ⟨some ⟨1000, place.1, place.2, 0⟩ :: second :: others,
    by simp only [others, List.length_cons, List.length_replicate, maxOpen]⟩
  dirSlots := Row.replicate maxDirs emptySlot

theorem initial_file (fd : Int) : (initial image).file fd = none := by
  rw [← slot_none, State.slot, List.findIdx?_eq_none_iff]
  intro slot member
  rw [List.eq_of_mem_replicate member]
  rfl

theorem kept_file :
    (kept image place second next).file 1000 = some ⟨1000, place.1, place.2, 0⟩ := by
  cases second <;> rfl

theorem kept_file_other (other : fd ≠ 1000) : (kept image place none next).file fd = none := by
  rw [← slot_none, State.slot, List.findIdx?_eq_none_iff]
  intro slot member
  rcases List.mem_cons.mp member with first | member
  · rw [first]
    exact decide_eq_false (fun eq => other eq.symm)
  rcases List.mem_cons.mp member with second | member
  · rw [second]
    rfl
  · rw [List.eq_of_mem_replicate member]
    rfl

theorem kept_install (small : next + 1 < 2 ^ 64) (dataOffset dataLen pos : Nat) :
    (kept image place none next).install dataOffset dataLen pos =
      (kept image place (some ⟨asI32 next, dataOffset, dataLen, pos⟩) (next + 1), asI32 next) := by
  have slot : (kept image place none next).openFiles.cells.findIdx? Option.isNone = some 1 := rfl
  have counter : (kept image place none next).nextVfsFd = next := rfl
  simp only [State.install, slot, counter, Nat.mod_eq_of_lt small]
  rfl

theorem kept_dup {next : Nat} (small : next + 1 < 2 ^ 64) :
    (kept image place none next).dup 1000 =
      (kept image place (some ⟨asI32 next, place.1, place.2, 0⟩) (next + 1), asI32 next) := by
  rw [(dup_found kept_file).1, kept_install small]

theorem open_first (found : cpioLookup image path = some (some place)) :
    step (initial image) (.open_ path) = some (kept image place none 1001) := by
  have number : asI32 ((1000 : Nat) : Int) = 1000 := by decide
  have slot : (initial image).openFiles.cells.findIdx? Option.isNone = some 0 := rfl
  have next : (initial image).nextVfsFd = 1000 := rfl
  rw [step, (open_found (v := initial image) found).1, map_some]
  simp only [State.install, slot, next, number]
  rfl

theorem open_second (found : cpioLookup image path = some (some place)) {next : Nat}
    (small : next + 1 < 2 ^ 64) :
    step (kept image place none next) (.open_ path) =
      some (kept image place (some ⟨asI32 next, place.1, place.2, 0⟩) (next + 1)) := by
  rw [step, (open_found (v := kept image place none next) found).1, map_some,
    kept_install small]

theorem dup_second (small : next + 1 < 2 ^ 64) :
    step (kept image place none next) (.dup 1000) =
      some (kept image place (some ⟨asI32 next, place.1, place.2, 0⟩) (next + 1)) := by
  rw [step, kept_dup small]

theorem close_second (other : fd ≠ 1000) :
    step (kept image place (some ⟨fd, dataOffset, dataLen, pos⟩) next) (.close fd) =
      some (kept image place none next) := by
  have first : ¬ (1000 : Int) = fd := fun eq => other eq.symm
  have slot : (kept image place (some ⟨fd, dataOffset, dataLen, pos⟩) next).slot fd = some 1 := by
    simp only [State.slot, kept, List.findIdx?_cons, any_some, decide_eq_false first,
      decide_true, Bool.false_eq_true, if_false, if_true, map_some, Nat.zero_add]
  rw [State.slot] at slot
  simp only [step, State.close, slot]
  rfl

theorem number_apart (few : k + 1 < 2 ^ 32) : asI32 ((1001 + k : Nat) : Int) ≠ 1000 := by
  rw [asI32, Int.bmod_def]
  split <;> omega

theorem run_round (found : cpioLookup image path = some (some place)) (few : k < 2 ^ 32) :
    ∃ past, Run step (initial image) past (kept image place none (1001 + k)) := by
  induction k with
  | zero => exact ⟨_, .snoc .nil (open_first found)⟩
  | succ k ih =>
    obtain ⟨past, run⟩ := ih (by omega)
    have opened := Run.snoc run (open_second found (by omega))
    exact ⟨_, .snoc opened (close_second (number_apart few))⟩

theorem lookup_second :
    WellFormed (archive twoFiles plainTrailer []) ∧
      ∃ first, cpioLookup (archive twoFiles plainTrailer []) (text "c") = some (some (first, 1)) := by
  have files : ∀ r ∈ twoFiles, r.name ≠ text "TRAILER!!!" := fun r member =>
    (twoFiles_proper r member).file
  refine ⟨⟨twoFiles, plainTrailer, [], files, plainTrailer_last, rfl⟩, ?_⟩
  rw [archive_lookup plainTrailer_last files]
  have second := @lookup_first (text "c") [.plain (text "a/b") (text "070701") (by decide)
    (by decide)] [] (.plain (text "c") [7] (by decide) (by decide)) 0 (by decide) (by decide)
  exact ⟨_, congrArg some second⟩

theorem descriptors_opened_and_duplicated : ∃ past v,
    Run step (initial (archive twoFiles plainTrailer [])) past v ∧
      past.map Prod.snd = [.dup 1000, .open_ (text "c")] ∧
      ∀ e ∈ past, ∀ v', step e.1 e.2 = some v' → Serves e.1 v' e.2 := by
  obtain ⟨_, first, found⟩ := lookup_second
  have opened := Run.snoc Run.nil (open_first found)
  have run := Run.snoc opened (dup_second (by decide))
  refine ⟨_, _, run, rfl, ((descriptors_iff run).2.2.2.2.2).mpr ?_⟩
  intro e member n given
  rcases List.mem_cons.mp member with same | member
  · have number : asI32 ((1001 : Nat) : Int) = n := by
      rw [same, (dup_found kept_file).2] at given
      exact Option.some.inj given
    rw [same, ← number]
    exact kept_file_other (by decide)
  · rw [List.mem_singleton.mp member]
    exact initial_file n

/-- After 2^32 numbers dup gives out the number of its argument, which is open. What is closed
    under that number is still open. -/
theorem dup_gives_its_argument : ∃ image past v v', WellFormed image ∧
    Run step (initial image) past v ∧ v.dup 1000 = (v', 1000) ∧ ¬ Serves v v' (.dup 1000) ∧
      (v'.close 1000).file 1000 ≠ none := by
  obtain ⟨formed, first, found⟩ := lookup_second
  obtain ⟨past, run⟩ := run_round found (by decide : 2 ^ 32 - 1 < 2 ^ 32)
  have number : asI32 ((1001 + (2 ^ 32 - 1) : Nat) : Int) = 1000 := by decide
  have dups := @kept_dup (archive twoFiles plainTrailer []) (first, 1) (1001 + (2 ^ 32 - 1))
    (by decide)
  refine ⟨_, past, _, _, formed, run, dups, ?_, ?_⟩
  · intro serves
    have fresh := serves_fresh serves
    have absent := fresh _ rfl
    have open_ := @kept_file (archive twoFiles plainTrailer []) (first, 1) none
      (1001 + (2 ^ 32 - 1))
    rw [State.nextVfsFd, kept, number] at absent
    rw [kept] at open_
    rw [absent] at open_
    cases open_
  · exact some_ne_none _

end Round

end TynKernel.Vfs
