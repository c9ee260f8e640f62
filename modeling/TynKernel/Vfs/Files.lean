import TynKernel.Lib.Numbers
import TynKernel.Lib.Rows
import TynKernel.Vfs.Cpio

/-!
Open files and directories of the archive. Files have numbers from a counter that never goes
back, directories the number of their slot. A directory slot whose number is -1 is free.
-/
namespace TynKernel.Vfs
open Bytes List Numbers Rows

def maxOpen : Nat := 256
def maxDirs : Nat := 8
def dirFdBase : Int := 900

structure OpenFile where
  fd : Int
  dataOffset : Nat
  dataLen : Nat
  pos : Nat
  deriving DecidableEq, Repr

structure DirSlot where
  fd : Int
  stem : Path
  done : Bool
  deriving DecidableEq, Repr

def emptySlot : DirSlot := ⟨-1, [], false⟩

structure State where
  archive : List UInt8
  nextVfsFd : Nat
  openFiles : Row maxOpen (Option OpenFile)
  dirSlots : Row maxDirs DirSlot

def initial (archive : List UInt8) : State where
  archive := archive
  nextVfsFd := 1000
  openFiles := Row.replicate maxOpen none
  dirSlots := Row.replicate maxDirs emptySlot

namespace State

/-- The end of open and of dup: the next number, which is spent even if no slot is free. -/
def install (v : State) (dataOffset dataLen pos : Nat) : State × Int :=
  let fd := asI32 v.nextVfsFd
  let v := { v with nextVfsFd := (v.nextVfsFd + 1) % 2 ^ 64 }
  match v.openFiles.cells.findIdx? Option.isNone with
  | some i => ({ v with openFiles := v.openFiles.set i (some ⟨fd, dataOffset, dataLen, pos⟩) }, fd)
  | none => (v, -24)

def open_ (v : State) (path : Path) : Option (State × Int) :=
  (cpioLookup v.archive path).map fun
    | some (dataOffset, dataLen) => v.install dataOffset dataLen 0
    | none => (v, -2)

def file (v : State) (fd : Int) : Option OpenFile :=
  (v.openFiles.cells.filterMap id).find? fun f => f.fd = fd

def dup (v : State) (oldfd : Int) : State × Int :=
  match v.file oldfd with
  | some f => v.install f.dataOffset f.dataLen f.pos
  | none => (v, -9)

def fstatSize (v : State) (fd : Int) : Option Nat := (v.file fd).map OpenFile.dataLen

def isVfsFd (v : State) (fd : Int) : Bool :=
  v.openFiles.cells.any fun slot => slot.any fun f => f.fd = fd

def close (v : State) (fd : Int) : State :=
  match v.openFiles.cells.findIdx? fun slot => slot.any fun f => f.fd = fd with
  | some i => { v with openFiles := v.openFiles.set i none }
  | none => v

/-- open_dir takes the first free slot, and the path without its slash up to 127 bytes. -/
def openDir (v : State) (path : Path) : State × Int :=
  match v.dirSlots.cells.findIdx? fun slot => slot.fd = -1 with
  | some i =>
    let fd := dirFdBase + i
    let p := if (text "/").isPrefixOf path then path.drop 1 else path
    ({ v with dirSlots := v.dirSlots.set i ⟨fd, p.take 127, false⟩ }, fd)
  | none => (v, -24)

def closeDir (v : State) (fd : Int) : State :=
  match v.dirSlots.cells.findIdx? fun slot => slot.fd = fd with
  | some i => { v with dirSlots := v.dirSlots.set i emptySlot }
  | none => v

def isDirFd (v : State) (fd : Int) : Bool := v.dirSlots.cells.any fun slot => slot.fd = fd

end State

def fileEntry (slot : Option OpenFile) (_ : Nat) : List (Int × (Nat × Nat)) :=
  slot.toList.map fun f => (f.fd, (f.dataOffset, f.dataLen))

def dirEntry (slot : DirSlot) (_ : Nat) : List (Int × Path) :=
  if slot.fd = -1 then [] else [(slot.fd, slot.stem)]

def State.files (v : State) : List (Int × (Nat × Nat)) := entries fileEntry v.openFiles.cells

def State.dirs (v : State) : List (Int × Path) := entries dirEntry v.dirSlots.cells

/-- A directory slot is free or has the number of its place. -/
def DirsNumbered (v : State) : Prop :=
  ∀ (i : Nat) slot, v.dirSlots.cells[i]? = some slot → slot.fd = -1 ∨ slot.fd = dirFdBase + i

structure Numbered (v : State) : Prop where
  files : Issued 1000 v.nextVfsFd (keys v.files)
  dirs : DirsNumbered v
  started : 1000 ≤ v.nextVfsFd

theorem files_initial (archive : List UInt8) : (initial archive).files = [] :=
  entries_replicate maxOpen fun _ => rfl

theorem dirs_initial (archive : List UInt8) : (initial archive).dirs = [] :=
  entries_replicate maxDirs fun _ => rfl

theorem dirsNumbered_initial (archive : List UInt8) : DirsNumbered (initial archive) := by
  intro i slot get
  have empty : slot = emptySlot := eq_of_mem_replicate (mem_of_getElem? get)
  rw [empty]
  exact .inl rfl

theorem numbered_initial (archive : List UInt8) : Numbered (initial archive) := by
  refine ⟨?_, dirsNumbered_initial archive, Nat.le_refl _⟩
  rw [files_initial]
  exact issued_nil ..

theorem dirsNumbered_same {v v' : State} (same : v'.dirSlots = v.dirSlots)
    (dirs : DirsNumbered v) : DirsNumbered v' := by
  rw [DirsNumbered, same]
  exact dirs

theorem openDir_dirs {v : State} (dirs : DirsNumbered v) (path : Path) :
    DirsNumbered (v.openDir path).1 := by
  unfold State.openDir
  split
  · exact Row.forall_set dirs (.inr rfl)
  · exact dirs

theorem closeDir_dirs {v : State} (dirs : DirsNumbered v) (fd : Int) :
    DirsNumbered (v.closeDir fd) := by
  unfold State.closeDir
  split
  · exact Row.forall_set dirs (.inl rfl)
  · exact dirs

theorem files_eq (v : State) :
    v.files = (v.openFiles.cells.filterMap id).map fun f => (f.fd, (f.dataOffset, f.dataLen)) := by
  unfold State.files entries
  generalize v.openFiles.cells = cells
  generalize 0 = n
  induction cells generalizing n with
  | nil => rfl
  | cons slot rest ih =>
    rw [zipIdx_cons, flatMap_cons, ih]
    cases slot <;> rfl

theorem file_of_mem (numbered : Numbered v) (member : (fd, place) ∈ v.files) :
    ∃ f, v.file fd = some f ∧ (f.dataOffset, f.dataLen) = place := by
  have distinct := numbered.files.distinct
  rw [files_eq] at member
  rw [files_eq, Numbers.keys, map_map] at distinct
  exact find_entry distinct member

theorem isVfsFd_iff {v : State} : v.isVfsFd fd = true ↔ fd ∈ keys v.files := by
  rw [files_eq, Numbers.keys, map_map, mem_map]
  simp only [State.isVfsFd, any_eq_true, Option.any_eq_true, decide_eq_true_eq,
    mem_filterMap, id, Function.comp]
  constructor
  · rintro ⟨slot, inside, f, rfl, same⟩
    exact ⟨f, ⟨some f, inside, rfl⟩, same⟩
  · rintro ⟨f, ⟨slot, inside, rfl⟩, same⟩
    exact ⟨some f, inside, f, rfl, same⟩

theorem dirs_issued (numbered : Numbered v) : Issued 900 908 (keys v.dirs) := by
  have slots : ∀ (cells : List DirSlot) (n : Nat),
      (∀ i slot, cells[i]? = some slot → slot.fd = -1 ∨ slot.fd = dirFdBase + (n + i : Nat)) →
      (keys ((cells.zipIdx n).flatMap fun x => dirEntry x.1 x.2)).Sublist
        ((List.range' n cells.length).map fun i => dirFdBase + (i : Nat)) := by
    intro cells
    induction cells with
    | nil => exact fun n _ => List.Sublist.slnil
    | cons slot rest ih =>
      intro n own
      have later := ih (n + 1) (fun i slot get => by
        have := own (i + 1) slot get
        rw [Nat.add_assoc, Nat.add_comm 1 i]
        exact this)
      rw [zipIdx_cons, flatMap_cons, Numbers.keys_append, length_cons, range'_succ,
        map_cons]
      rcases own 0 slot rfl with free | used
      · rw [dirEntry, if_pos free]
        exact later.cons _
      have number : slot.fd = dirFdBase + (n : Nat) := used
      have notFree : slot.fd ≠ -1 := by
        rw [number, dirFdBase]
        omega
      rw [dirEntry, if_neg notFree, number]
      exact later.cons_cons _
  have sub := slots v.dirSlots.cells 0 (fun i slot get => by
    rw [Nat.zero_add]
    exact numbered.dirs i slot get)
  rw [v.dirSlots.size] at sub
  refine issued_sublist ⟨by decide, by decide, by decide⟩ sub

structure Installed (v : State) (place : Nat × Nat) (code : Int) (v' : State) : Prop where
  archive : v'.archive = v.archive
  dirSlots : v'.dirSlots = v.dirSlots
  next : v'.nextVfsFd = v.nextVfsFd + 1
  number : 0 ≤ code → code = v.nextVfsFd
  added : Added v.files place code v'.files

theorem install_rest (v : State) (dataOffset dataLen pos : Nat) :
    (v.install dataOffset dataLen pos).1.archive = v.archive ∧
      (v.install dataOffset dataLen pos).1.dirSlots = v.dirSlots ∧
      (v.install dataOffset dataLen pos).1.nextVfsFd = (v.nextVfsFd + 1) % 2 ^ 64 := by
  unfold State.install
  simp only
  split <;> exact ⟨rfl, rfl, rfl⟩

theorem install_outcome (small : v.nextVfsFd < 4000)
    (done : v.install dataOffset dataLen pos = (v', code)) :
    Installed v (dataOffset, dataLen) code v' := by
  have number : asI32 v.nextVfsFd = v.nextVfsFd := asI32_of_lt (by omega) (by omega)
  have counter : (v.nextVfsFd + 1) % 2 ^ 64 = v.nextVfsFd + 1 := Nat.mod_eq_of_lt (by omega)
  simp only [State.install, number, counter] at done
  split at done
  · rename_i i found
    obtain ⟨rfl, rfl⟩ := Prod.mk.inj done
    obtain ⟨old, rest, free, _, before, after⟩ := entries_set fileEntry found
    rw [Option.isNone_iff_eq_none] at free
    subst free
    exact ⟨rfl, rfl, rfl, fun _ => rfl, .put (by omega) ((after _).trans (before.symm.cons _))⟩
  · obtain ⟨rfl, rfl⟩ := Prod.mk.inj done
    exact ⟨rfl, rfl, rfl, fun valid => absurd valid (by decide), .refused (by decide) rfl⟩

theorem installed_numbered (numbered : Numbered v) (installed : Installed v place code v') :
    Numbered v' := by
  have started := numbered.started
  refine ⟨?_, dirsNumbered_same installed.dirSlots numbered.dirs, ?_⟩
  · rw [installed.next]
    exact issued_added numbered.files (by omega) installed.added installed.number
  · rw [installed.next]
    omega

theorem close_taken (v : State) (fd : Int) : Taken v.files fd (v.close fd).files := by
  unfold State.close
  split
  · rename_i i found
    obtain ⟨old, rest, test, _, before, after⟩ := entries_set fileEntry found
    obtain ⟨f, rfl, same⟩ := (Option.any_eq_true _ _).mp test
    have number : f.fd = fd := of_decide_eq_true same
    rw [fileEntry, Option.toList_some, map_singleton, number] at before
    exact .took _ (before.trans ((after none).symm.cons _))
  · rename_i absent
    refine .absent ?_ (.refl _)
    intro member
    obtain ⟨place, inside⟩ := mem_keys.mp member
    refine entries_absent absent ?_ inside
    intro slot i entry
    cases slot with
    | none => cases entry
    | some f =>
      have same : (fd, place) = (f.fd, (f.dataOffset, f.dataLen)) := mem_singleton.mp entry
      simp [(Prod.mk.inj same).1]

theorem close_rest (v : State) (fd : Int) :
    (v.close fd).archive = v.archive ∧ (v.close fd).dirSlots = v.dirSlots ∧
      (v.close fd).nextVfsFd = v.nextVfsFd := by
  unfold State.close
  split <;> exact ⟨rfl, rfl, rfl⟩

theorem close_numbered (numbered : Numbered v) (fd : Int) : Numbered (v.close fd) := by
  obtain ⟨_, dirs, next⟩ := close_rest v fd
  refine ⟨?_, dirsNumbered_same dirs numbered.dirs, ?_⟩
  · rw [next]
    exact issued_taken numbered.files (close_taken v fd)
  · rw [next]
    exact numbered.started

theorem openDir_outcome {v v' : State} {path : Path} {code : Int}
    (done : v.openDir path = (v', code)) :
    v'.archive = v.archive ∧ v'.openFiles = v.openFiles ∧ v'.nextVfsFd = v.nextVfsFd ∧
      ∃ stem, Added v.dirs stem code v'.dirs := by
  unfold State.openDir at done
  split at done
  · rename_i i found
    obtain ⟨rfl, rfl⟩ := Prod.mk.inj done
    obtain ⟨old, rest, free, _, before, after⟩ := entries_set dirEntry found
    have isFree : old.fd = -1 := of_decide_eq_true free
    have used : dirFdBase + (i : Int) ≠ -1 := by
      rw [dirFdBase]
      omega
    rw [dirEntry, if_pos isFree] at before
    have new := after ⟨dirFdBase + i,
      (if (text "/").isPrefixOf path then path.drop 1 else path).take 127, false⟩
    refine ⟨rfl, rfl, rfl, _, .put ?_ (new.trans (before.symm.cons _))⟩
    rw [dirFdBase]
    omega
  · obtain ⟨rfl, rfl⟩ := Prod.mk.inj done
    exact ⟨rfl, rfl, rfl, [], .refused (by decide) rfl⟩

theorem openDir_numbered {v v' : State} {path : Path} {code : Int} (numbered : Numbered v)
    (done : v.openDir path = (v', code)) : Numbered v' := by
  obtain ⟨_, files, next, _⟩ := openDir_outcome done
  have dirs := openDir_dirs numbered.dirs path
  rw [done] at dirs
  refine ⟨?_, dirs, ?_⟩
  · rw [next, State.files, files]
    exact numbered.files
  · rw [next]
    exact numbered.started

theorem dir_not_free (member : e ∈ entries dirEntry cells) : e.1 ≠ -1 := by
  obtain ⟨i, slot, _, inside⟩ := mem_entries.mp member
  rw [dirEntry] at inside
  split at inside
  · cases inside
  · rename_i used
    rw [mem_singleton.mp inside]
    exact used

theorem closeDir_taken (v : State) (fd : Int) : Taken v.dirs fd (v.closeDir fd).dirs := by
  unfold State.closeDir
  split
  · rename_i i found
    obtain ⟨old, rest, test, _, before, after⟩ := entries_set dirEntry found
    have number : old.fd = fd := of_decide_eq_true test
    have freed := after emptySlot
    by_cases free : old.fd = -1
    · rw [dirEntry, if_pos free] at before
      refine .absent ?_ (freed.trans before.symm)
      intro member
      obtain ⟨stem, inside⟩ := mem_keys.mp member
      exact dir_not_free inside (number.symm.trans free)
    · rw [dirEntry, if_neg free, number] at before
      exact .took old.stem (before.trans (freed.symm.cons _))
  · rename_i absent
    refine .absent ?_ (.refl _)
    intro member
    obtain ⟨stem, inside⟩ := mem_keys.mp member
    refine entries_absent absent ?_ inside
    intro slot i entry
    rw [dirEntry] at entry
    split at entry
    · cases entry
    · simp [(Prod.mk.inj (mem_singleton.mp entry)).1]

theorem closeDir_rest (v : State) (fd : Int) :
    (v.closeDir fd).archive = v.archive ∧ (v.closeDir fd).openFiles = v.openFiles ∧
      (v.closeDir fd).nextVfsFd = v.nextVfsFd := by
  unfold State.closeDir
  split <;> exact ⟨rfl, rfl, rfl⟩

theorem closeDir_numbered (numbered : Numbered v) (fd : Int) : Numbered (v.closeDir fd) := by
  obtain ⟨_, files, next⟩ := closeDir_rest v fd
  refine ⟨?_, closeDir_dirs numbered.dirs fd, ?_⟩
  · rw [next, State.files, files]
    exact numbered.files
  · rw [next]
    exact numbered.started

end TynKernel.Vfs
