import TynKernel.Fd.Stat

/-!
stat against open and fstat. The two ways to the type and size of a file test the path in a
different order, and one of them goes by the number.
-/
namespace TynKernel.Tmpfs
open Bytes Numbers

def Node.info (node : Node) : Nat × Nat :=
  if node.isDir then (0o040000 ||| (node.mode &&& 0o7777), 4096)
  else (0o100000 ||| (node.mode &&& 0o7777), node.data.length)

theorem stat_info (fs : State) (path : Path) :
    fs.stat path = (fs.nodes.lookup (norm path)).map Node.info := rfl

def State.fstat (fs : State) (fd : Int) : Int × Option (Nat × Nat) :=
  match fs.descriptor fd with
  | none => (-9, none)
  | some o =>
    match fs.nodes.lookup o.path with
    | some node => (0, some node.info)
    | none => (-9, none)

/-- The entry of the table that has the number. Numbers below 4000 are not of the tmpfs. -/
def State.entry (fs : State) (n : Int) : Option OpenFd :=
  if n < tmpfsFdBase then none else fs.opens.find? fun o => o.fd = n

theorem isTmpfsFd_entry (fs : State) (n : Int) : fs.isTmpfsFd n = (fs.entry n).isSome := by
  rw [State.isTmpfsFd, State.entry]
  split
  · rfl
  · rw [Bool.eq_iff_iff, List.any_eq_true, List.find?_isSome]

theorem fstat_entry {fs : State} (found : fs.entry n = some o) :
    fs.fstat n = match fs.nodes.lookup o.path with
      | some node => (0, some node.info)
      | none => (-9, none) := by
  rw [State.entry] at found
  split at found
  · cases found
  · rw [State.fstat, State.descriptor, found]

section Pushed
variable {fs fs' : State} {o : OpenFd} {n : Int} (opens : fs'.opens = fs.opens ++ [o])
include opens

theorem entry_new (high : tmpfsFdBase ≤ n) (own : o.fd = n) (fresh : ∀ o ∈ fs.opens, o.fd ≠ n) :
    fs'.entry n = some o := by
  have first : fs.opens.find? (fun o => o.fd = n) = none :=
    List.find?_eq_none.mpr fun o member same => fresh o member (of_decide_eq_true same)
  rw [State.entry, if_neg (Int.not_lt.mpr high), opens, List.find?_append, first, Option.none_or,
    List.find?_cons, decide_eq_true own]

theorem entry_old (used : ¬ (tmpfsFdBase ≤ n ∧ ∀ o ∈ fs.opens, o.fd ≠ n)) :
    fs'.entry n = fs.entry n := by
  by_cases low : n < tmpfsFdBase
  · rw [State.entry, State.entry, if_pos low, if_pos low]
  rw [State.entry, State.entry, if_neg low, if_neg low, opens, List.find?_append]
  cases found : fs.opens.find? fun o => o.fd = n with
  | some p => rfl
  | none =>
    refine absurd ⟨Int.not_lt.mp low, fun p member same => ?_⟩ used
    exact List.find?_eq_none.mp found p member (decide_eq_true same)

end Pushed

theorem info_dir {node : Node} (isDir : node.isDir = true) :
    node.info.1 &&& 0o170000 = 0o040000 ∧ node.info.2 = 4096 := by
  rw [Node.info, if_pos isDir]
  refine ⟨?_, rfl⟩
  rw [Nat.and_or_distrib_right, Nat.and_assoc]
  exact congrArg _ (Nat.and_zero node.mode)

theorem info_file {node : Node} (isFile : node.isDir = false) :
    node.info.1 &&& 0o170000 = 0o100000 ∧ node.info.2 = node.data.length := by
  rw [Node.info, isFile, if_neg Bool.false_ne_true]
  refine ⟨?_, rfl⟩
  rw [Nat.and_or_distrib_right, Nat.and_assoc]
  exact congrArg _ (Nat.and_zero node.mode)

end TynKernel.Tmpfs

namespace TynKernel.Fd
open Bytes Numbers Rows Runs Vfs

structure Kernel where
  tables : Tables
  resolv : List UInt8

def openRdonly (k : Kernel) (user : List UInt8) (mode : Nat) : Option (Kernel × Int) :=
  (sysOpen k.tables user 0 mode).map fun r =>
    (⟨r.1, if copyPath user = text "/tyn/resolv.conf" then k.tables.resolvConf else k.resolv⟩, r.2)

def sysFstat (k : Kernel) (fd : Int) : Int × Option Stat :=
  let t := k.tables
  if t.tmpfs.isTmpfsFd fd then t.tmpfs.fstat fd
  else if fd = fdSynthDir ∨ t.vfs.isDirFd fd = true then (0, some (0o40755, 0))
  else if fd = fdDevRandom ∨ fd = fdDevnull then (0, some (0o020666, 0))
  else if fd = fdResolvConf then (0, some (0o100644, k.resolv.length))
  else (0, some (0o100644, (t.vfs.fstatSize fd).getD 0))

def Same (a b : Stat) : Prop := a.1 &&& 0o170000 = b.1 &&& 0o170000 ∧ a.2 = b.2

def Reports (k : Kernel) (fd : Int) (info : Stat) : Prop :=
  ∃ reported, sysFstat k fd = (0, some reported) ∧ Same info reported

def Agrees (k : Kernel) (user : List UInt8) (k' : Kernel) (fd : Int) : Prop :=
  ∃ t' info, sysStat k.tables user = some (t', 0, some info) ∧ Reports k' fd info

/-- The size that an archive path is opened with. The file goes to the first free slot under the
    next number, and a file before the slot that has this number is found in its place. -/
def openedSize (v : Vfs.State) (path : List UInt8) : Option Nat :=
  match (cpioLookup v.archive path).join, v.openFiles.cells.findIdx? Option.isNone with
  | some place, some i =>
    if 0 ≤ asI32 v.nextVfsFd then
      some ((((v.openFiles.cells.take i).filterMap id).find? fun f =>
        f.fd = asI32 v.nextVfsFd).elim place.2 OpenFile.dataLen)
    else none
  | _, _ => none

def Ordinary (k : Kernel) (n : Int) : Prop :=
  ¬ (n = fdSynthDir ∨ k.tables.vfs.isDirFd n = true) ∧ ¬ (n = fdDevRandom ∨ n = fdDevnull)

def Plain (k : Kernel) (n : Int) : Prop :=
  k.tables.tmpfs.entry n = none ∧ Ordinary k n ∧ ¬ n = fdResolvConf

def IsFile (k : Kernel) (n : Int) (size : Nat) : Prop :=
  match k.tables.tmpfs.entry n with
  | some o => ∃ node, k.tables.tmpfs.nodes.lookup o.path = some node ∧ node.isDir = false ∧
      size = node.data.length
  | none => Ordinary k n ∧ size =
      if n = fdResolvConf then k.resolv.length
      else ((k.tables.vfs.file n).map OpenFile.dataLen).getD 0

def IsTmpfsDir (k : Kernel) (n : Int) : Prop :=
  ∃ o node, k.tables.tmpfs.entry n = some o ∧ k.tables.tmpfs.nodes.lookup o.path = some node ∧
    node.isDir = true

/-- What the files and the tables must be like before the call. A topology file must be in the
    archive with the size of whatever has number 101, a directory of /sys must not be a file of
    the archive. The next number of the tmpfs or of the archive files must be free, or stand for
    something of the same type and size already. -/
def Consistent (k : Kernel) (user : List UInt8) : Prop :=
  let path := copyPath user
  let t := k.tables
  if isSpecial path then True
  else if isSynthFile path then
    openedSize t.vfs path = some (((t.vfs.file fdSynthZero).map OpenFile.dataLen).getD 0)
  else if isSynthDir path then
    openedSize t.vfs path = none ∧ cpioLookup t.vfs.archive path ≠ none ∧
      Vfs.isDirPrefix t.vfs.archive path ≠ none
  else if Tmpfs.ownsPath path then
    let n := t.tmpfs.nextFd
    (Tmpfs.tmpfsFdBase ≤ n ∧ ∀ o ∈ t.tmpfs.opens, o.fd ≠ n) ∨
      ∃ node, t.tmpfs.nodes.lookup (Tmpfs.norm path) = some node ∧
        if node.isDir then IsTmpfsDir k n else IsFile k n node.data.length
  else
    let n := asI32 t.vfs.nextVfsFd
    ∀ size, openedSize t.vfs path = some size → Plain k n ∨ IsFile k n size

theorem open_rest {v w : Vfs.State} {path : List UInt8} {code : Int}
    (opened : v.open_ path = some (w, code)) :
    w.archive = v.archive ∧ w.dirSlots = v.dirSlots ∧ cpioLookup v.archive path ≠ none := by
  rw [State.open_, Option.map_eq_some_iff] at opened
  obtain ⟨result, found, same⟩ := opened
  have there : cpioLookup v.archive path ≠ none := by
    rw [found]
    exact Option.some_ne_none _
  cases result with
  | none =>
    rw [← (Prod.mk.inj same).1]
    exact ⟨rfl, rfl, there⟩
  | some place =>
    obtain ⟨image, dirs, _⟩ := install_rest v place.1 place.2 0
    have done : v.install place.1 place.2 0 = (w, code) := same
    rw [done] at image dirs
    exact ⟨image, dirs, there⟩

section Numbers
variable {k : Kernel} {fd : Int}

theorem entry_low {fs : Tmpfs.State} (low : fd < Tmpfs.tmpfsFdBase) : fs.entry fd = none := by
  rw [Tmpfs.State.entry, if_pos low]

theorem isDirFd_low (dirs : DirsNumbered v) (low : fd < dirFdBase) (positive : 0 ≤ fd) :
    ¬ v.isDirFd fd = true := by
  intro known
  obtain ⟨slot, member, same⟩ := List.any_eq_true.mp known
  obtain ⟨i, get⟩ := List.mem_iff_getElem?.mp member
  have number : slot.fd = fd := of_decide_eq_true same
  rcases dirs i slot get with free | used
  · omega
  · omega

theorem sysFstat_tmpfs (found : k.tables.tmpfs.entry fd = some o) :
    sysFstat k fd = match k.tables.tmpfs.nodes.lookup o.path with
      | some node => (0, some node.info)
      | none => (-9, none) := by
  simp only [sysFstat]
  rw [Tmpfs.isTmpfsFd_entry, found, Option.isSome_some, if_pos rfl, Tmpfs.fstat_entry found]

theorem sysFstat_rest (none_ : k.tables.tmpfs.entry fd = none) :
    sysFstat k fd =
      if fd = fdSynthDir ∨ k.tables.vfs.isDirFd fd = true then (0, some (0o40755, 0))
      else if fd = fdDevRandom ∨ fd = fdDevnull then (0, some (0o020666, 0))
      else if fd = fdResolvConf then (0, some (0o100644, k.resolv.length))
      else (0, some (0o100644, (k.tables.vfs.fstatSize fd).getD 0)) := by
  simp only [sysFstat]
  rw [Tmpfs.isTmpfsFd_entry, none_, Option.isSome_none, if_neg Bool.false_ne_true]

theorem sysFstat_plain (plain : Plain k fd) :
    sysFstat k fd = (0, some (0o100644, (k.tables.vfs.fstatSize fd).getD 0)) := by
  obtain ⟨notTmpfs, ⟨notDir, notDevice⟩, notResolv⟩ := plain
  rw [sysFstat_rest notTmpfs, if_neg notDir, if_neg notDevice, if_neg notResolv]

theorem sysFstat_dir (low : fd < Tmpfs.tmpfsFdBase)
    (dir : fd = fdSynthDir ∨ k.tables.vfs.isDirFd fd = true) :
    sysFstat k fd = (0, some (0o40755, 0)) := by
  rw [sysFstat_rest (entry_low low), if_pos dir]

section
variable (dirs : DirsNumbered k.tables.vfs)
include dirs

theorem not_dir (other : fd ≠ fdSynthDir)
    (low : fd < dirFdBase) (positive : 0 ≤ fd) :
    ¬ (fd = fdSynthDir ∨ k.tables.vfs.isDirFd fd = true) :=
  not_or.mpr ⟨other, isDirFd_low dirs low positive⟩

theorem sysFstat_device
    (device : fd = fdDevRandom ∨ fd = fdDevnull) : sysFstat k fd = (0, some (0o020666, 0)) := by
  obtain ⟨low, notDir⟩ : fd < Tmpfs.tmpfsFdBase ∧
      ¬ (fd = fdSynthDir ∨ k.tables.vfs.isDirFd fd = true) := by
    rcases device with rfl | rfl
    · exact ⟨by decide, not_dir dirs (by decide) (by decide) (by decide)⟩
    · exact ⟨by decide, not_dir dirs (by decide) (by decide) (by decide)⟩
  rw [sysFstat_rest (entry_low low), if_neg notDir, if_pos device]

theorem sysFstat_resolv :
    sysFstat k fdResolvConf = (0, some (0o100644, k.resolv.length)) := by
  have notDir : ¬ (fdResolvConf = fdSynthDir ∨ k.tables.vfs.isDirFd fdResolvConf = true) :=
    not_dir dirs (by decide) (by decide) (by decide)
  rw [sysFstat_rest (entry_low (by decide)), if_neg notDir, if_neg (by decide), if_pos rfl]

theorem zero_plain : Plain k fdSynthZero :=
  ⟨entry_low (by decide), ⟨not_dir dirs (by decide) (by decide) (by decide), by decide⟩,
    by decide⟩

end

end Numbers

theorem dropSlashes_head (other : b ≠ 47) (rest : List UInt8) :
    ∃ tail, Tmpfs.dropSlashes (b :: rest) = b :: tail := by
  rw [Tmpfs.dropSlashes]
  split
  · rw [if_neg other]
    exact ⟨[], rfl⟩
  · exact ⟨_, rfl⟩

theorem synthDir_head (synth : isSynthDir path = true) : ∃ rest, path = 47 :: 115 :: rest := by
  have below : ∀ stem : List UInt8, (∃ rest, stem = 47 :: 115 :: rest) →
      stem.isPrefixOf path = true → ∃ rest, path = 47 :: 115 :: rest := by
    rintro stem ⟨front, rfl⟩ begins
    obtain ⟨rest, eq⟩ := List.isPrefixOf_iff_prefix.mp begins
    exact ⟨front ++ rest, eq.symm⟩
  simp only [isSynthDir, Bool.or_eq_true, beq_iff_eq] at synth
  rcases synth with ((node | cpu) | node) | cpu
  · exact ⟨_, node⟩
  · exact ⟨_, cpu⟩
  · exact below _ ⟨_, rfl⟩ node
  · exact below _ ⟨_, rfl⟩ cpu

theorem synthDir_inArchive (synth : isSynthDir path = true) :
    inArchive path ∧ ¬ isSpecial path := by
  obtain ⟨rest, eq⟩ := synthDir_head synth
  subst eq
  have apart : ∀ {b : UInt8} {back : List UInt8}, b ≠ 115 →
      (47 :: 115 :: rest : List UInt8) ≠ 47 :: b :: back := by
    intro b back other same
    rw [List.cons.injEq, List.cons.injEq] at same
    exact other same.2.1.symm
  have notSpecial : ¬ isSpecial (47 :: 115 :: rest) := by
    rintro (null | (urandom | random) | resolv)
    · exact apart (by decide) null
    · exact apart (by decide) urandom
    · exact apart (by decide) random
    · exact apart (by decide) resolv
  obtain ⟨tail, kept⟩ := dropSlashes_head (by decide : (115 : UInt8) ≠ 47) rest
  have normal : Tmpfs.norm (47 :: 115 :: rest) = 47 :: 115 :: tail := by
    rw [← kept]
    rfl
  refine ⟨⟨?_, ?_, ?_⟩, notSpecial⟩
  · simp only [Tmpfs.ownsPath, normal]
    simp [text]
  · rintro (urandom | random | null)
    · exact apart (by decide) urandom
    · exact apart (by decide) random
    · exact apart (by decide) null
  · exact fun resolv => apart (by decide) resolv

theorem synthFile_synthDir (file : isSynthFile path = true) : isSynthDir path = true := by
  rw [isSynthFile, Bool.and_eq_true] at file
  rw [isSynthDir, file.1, Bool.or_true]

section Archive
variable {k : Kernel} {user : List UInt8} {fd : Int} {size : Nat}

theorem file_installed {v w : Vfs.State} {i : Nat} (bound : i < v.openFiles.cells.length)
    (files : w.openFiles = v.openFiles.set i (some f)) :
    w.file f.fd =
      (((v.openFiles.cells.take i).filterMap id).find? fun g => g.fd = f.fd).or (some f) := by
  have cells : w.openFiles.cells =
      v.openFiles.cells.take i ++ some f :: v.openFiles.cells.drop (i + 1) := by
    rw [files]
    exact (List.set_eq_take_append_cons_drop ..).trans (if_pos bound)
  have rest : (some f :: v.openFiles.cells.drop (i + 1)).filterMap id =
      f :: (v.openFiles.cells.drop (i + 1)).filterMap id := rfl
  rw [State.file, cells, List.filterMap_append, rest, List.find?_append, List.find?_cons,
    decide_eq_true rfl]

theorem openedSize_some {v : Vfs.State} (opened : openedSize v path = some size) :
    ∃ w n, v.open_ path = some (w, n) ∧ n = asI32 v.nextVfsFd ∧ 0 ≤ n ∧
      (w.fstatSize n).getD 0 = size := by
  unfold openedSize at opened
  split at opened
  · rename_i place i looked found
    obtain ⟨w, f, done, number, length, files, _⟩ := install_at found place
    obtain ⟨_, get, _⟩ := findIdx_iff.mp found
    rw [← number] at opened ⊢
    split at opened
    · rename_i positive
      refine ⟨w, f.fd, ?_, rfl, positive, ?_⟩
      · rw [(open_found (Option.join_eq_some_iff.mp looked)).1, done]
      · rw [State.fstatSize, file_installed (List.getElem?_eq_some_iff.mp get).1 files,
          ← Option.some.inj opened, ← length]
        cases ((v.openFiles.cells.take i).filterMap id).find? fun g => g.fd = f.fd <;> rfl
    · cases opened
  · cases opened

theorem openedSize_none {v w : Vfs.State} {n : Int} (nothing : openedSize v path = none)
    (opened : v.open_ path = some (w, n)) : n < 0 := by
  obtain ⟨result, looked, same⟩ := Option.map_eq_some_iff.mp opened
  cases result with
  | none =>
    rw [← (Prod.mk.inj same).2]
    decide
  | some place =>
    have done : v.install place.1 place.2 0 = (w, n) := same
    cases found : v.openFiles.cells.findIdx? Option.isNone with
    | none =>
      simp only [State.install, found] at done
      rw [← (Prod.mk.inj done).2]
      decide
    | some i =>
      obtain ⟨_, f, installed, number, _⟩ := install_at found place
      have given : f.fd = n := (Prod.mk.inj (installed.symm.trans done)).2
      rw [openedSize, looked, Option.join_some, found, ← number, given] at nothing
      simp only at nothing
      split at nothing
      · cases nothing
      · omega

theorem statArchive_size {t : Tables} (opened : openedSize t.vfs path = some size) :
    (∃ t', statArchive t path = some (t', 0, some (0o100644, size))) ∧
      ∃ w n, openArchive t path = some ({ t with vfs := w }, n) ∧ n = asI32 t.vfs.nextVfsFd ∧
        (w.fstatSize n).getD 0 = size ∧ w.dirSlots = t.vfs.dirSlots := by
  obtain ⟨w, n, done, number, positive, sized⟩ := openedSize_some opened
  refine ⟨⟨{ t with vfs := w.close n }, ?_⟩, w, n, ?_, number, sized, (open_rest done).2.1⟩
  · rw [statArchive, done]
    simp only
    rw [if_pos positive, sized]
  · rw [openArchive, done]
    simp only
    rw [if_pos positive]

theorem statArchive_noSize {t : Tables} (nothing : openedSize t.vfs path = none) :
    (cpioLookup t.vfs.archive path = none ∧ statArchive t path = none ∧
      openArchive t path = none) ∨
    (cpioLookup t.vfs.archive path ≠ none ∧ ∃ w : Vfs.State, w.dirSlots = t.vfs.dirSlots ∧
      (statArchive t path = (Vfs.isDirPrefix t.vfs.archive path).map fun known =>
        ({ t with vfs := w },
          if known || isSynthDir path then (0, some (0o40755, 0)) else (-2, none))) ∧
      openArchive t path = (Vfs.isDirPrefix t.vfs.archive path).map fun known =>
        if known then ({ t with vfs := (w.openDir path).1 }, (w.openDir path).2)
        else ({ t with vfs := w }, -2)) := by
  cases done : t.vfs.open_ path with
  | none =>
    refine .inl ⟨?_, ?_, ?_⟩
    · rw [State.open_, Option.map_eq_none_iff] at done
      exact done
    · rw [statArchive, done]
    · rw [openArchive, done]
  | some result =>
    obtain ⟨w, n⟩ := result
    obtain ⟨image, dirs, there⟩ := open_rest done
    have positive := Int.not_le.mpr (openedSize_none nothing done)
    refine .inr ⟨there, w, dirs, ?_, ?_⟩
    · rw [statArchive, done]
      simp only
      rw [if_neg positive, image]
      cases Vfs.isDirPrefix t.vfs.archive path with
      | none => rfl
      | some =>
        simp only [Option.map_some]
        split <;> rfl
    · rw [openArchive, done]
      simp only
      rw [if_neg positive, image]
      cases Vfs.isDirPrefix t.vfs.archive path with
      | none => rfl
      | some known => cases known <;> rfl

end Archive

section Routes
variable {k k' : Kernel} {user : List UInt8} {mode : Nat} {fd : Int}

theorem openRdonly_tables (opened : openRdonly k user mode = some (k', fd)) :
    sysOpen k.tables user 0 mode = some (k'.tables, fd) ∧
      (copyPath user ≠ text "/tyn/resolv.conf" → k'.resolv = k.resolv) ∧
      (copyPath user = text "/tyn/resolv.conf" → k'.resolv = k.tables.resolvConf) := by
  obtain ⟨r, done, same⟩ := Option.map_eq_some_iff.mp opened
  obtain ⟨tables, number⟩ := Prod.mk.inj same
  subst tables number
  exact ⟨done, fun other => if_neg other, fun resolv => if_pos resolv⟩

theorem special_agrees (dirs : DirsNumbered k.tables.vfs)
    (opened : openRdonly k user mode = some (k', fd)) (special : isSpecial (copyPath user)) :
    Agrees k user k' fd := by
  obtain ⟨done, _, snapshot⟩ := openRdonly_tables opened
  unfold sysOpen at done
  have notOwned : ¬ Tmpfs.ownsPath (copyPath user) = true := by
    rcases special with null | (urandom | random) | resolv
    · rw [null]
      decide
    · rw [urandom]
      decide
    · rw [random]
      decide
    · rw [resolv]
      decide
  have device : (copyPath user = text "/dev/urandom" ∨ copyPath user = text "/dev/random" ∨
      copyPath user = text "/dev/null") → k'.tables = k.tables → fd = fdDevRandom ∨ fd = fdDevnull →
      Agrees k user k' fd := by
    intro path same number
    refine ⟨k.tables, (0o020666, 0), ?_, (0o020666, 0), ?_, rfl, rfl⟩
    · unfold sysStat
      rw [if_neg notOwned, if_pos path]
    · exact sysFstat_device (same ▸ dirs) number
  by_cases null : copyPath user = text "/dev/null"
  · rw [if_pos null, Option.some.injEq] at done
    obtain ⟨same, number⟩ := Prod.mk.inj done
    exact device (.inr (.inr null)) same.symm (.inr number.symm)
  rw [if_neg null] at done
  by_cases random : copyPath user = text "/dev/urandom" ∨ copyPath user = text "/dev/random"
  · rw [if_pos random, Option.some.injEq] at done
    obtain ⟨same, number⟩ := Prod.mk.inj done
    exact device (random.imp id .inl) same.symm (.inl number.symm)
  rw [if_neg random] at done
  have resolv := (special.resolve_left null).resolve_left random
  rw [if_pos resolv, Option.some.injEq] at done
  obtain ⟨same, number⟩ := Prod.mk.inj done
  have notDevice : ¬ (copyPath user = text "/dev/urandom" ∨ copyPath user = text "/dev/random" ∨
      copyPath user = text "/dev/null") := by
    rw [resolv]
    decide
  refine ⟨k.tables, (0o100644, k.tables.resolvConf.length), ?_,
    (0o100644, k.tables.resolvConf.length), ?_, rfl, rfl⟩
  · unfold sysStat
    rw [if_neg notOwned, if_neg notDevice, if_pos resolv]
  · rw [← number, sysFstat_resolv (same ▸ dirs), snapshot resolv]

theorem agrees_reported (reported : sysStat k.tables user = some (t', 0, some info)) :
    Agrees k user k' fd ↔ Reports k' fd info := by
  rw [Agrees, reported]
  constructor
  · rintro ⟨_, _, eq, reports⟩
    cases eq
    exact reports
  · intro reports
    exact ⟨t', info, rfl, reports⟩

theorem agrees_answered (agrees : Agrees k user k' fd) : sysStat k.tables user ≠ none := by
  obtain ⟨_, _, reported, _⟩ := agrees
  rw [reported]
  exact Option.some_ne_none _

theorem reports_iff (said : sysFstat k fd = (0, some got)) : Reports k fd info ↔ Same info got := by
  rw [Reports, said]
  constructor
  · rintro ⟨_, eq, same⟩
    cases eq
    exact same
  · intro same
    exact ⟨got, rfl, same⟩

theorem sysFstat_other (tmpfs : k'.tables.tmpfs = k.tables.tmpfs)
    (dirs : k'.tables.vfs.dirSlots = k.tables.vfs.dirSlots) (resolv : k'.resolv = k.resolv)
    (other : ¬ Plain k fd) : sysFstat k' fd = sysFstat k fd := by
  have isDir : k'.tables.vfs.isDirFd fd = k.tables.vfs.isDirFd fd := by
    rw [State.isDirFd, State.isDirFd, dirs]
  cases first : k.tables.tmpfs.entry fd with
  | some o => rw [sysFstat_tmpfs first, sysFstat_tmpfs (tmpfs ▸ first), tmpfs]
  | none =>
    rw [sysFstat_rest first, sysFstat_rest (tmpfs ▸ first), isDir, resolv]
    by_cases second : fd = fdSynthDir ∨ k.tables.vfs.isDirFd fd = true
    · rw [if_pos second, if_pos second]
    by_cases third : fd = fdDevRandom ∨ fd = fdDevnull
    · rw [if_neg second, if_neg second, if_pos third, if_pos third]
    by_cases fourth : fd = fdResolvConf
    · rw [if_pos fourth, if_pos fourth]
    exact absurd ⟨first, ⟨second, third⟩, fourth⟩ other

theorem reports_entry (found : k.tables.tmpfs.entry fd = some o) : Reports k fd info ↔
    ∃ node, k.tables.tmpfs.nodes.lookup o.path = some node ∧ Same info node.info := by
  rw [Reports, sysFstat_tmpfs found]
  cases k.tables.tmpfs.nodes.lookup o.path <;> simp

theorem regular : 0o100644 &&& 0o170000 = 0o100000 := by decide

theorem reports_file (type : info.1 &&& 0o170000 = 0o100000) :
    Reports k fd info ↔ IsFile k fd info.2 := by
  unfold IsFile
  cases first : k.tables.tmpfs.entry fd with
  | some o =>
    rw [reports_entry first]
    refine exists_congr fun node => and_congr_right fun _ => ?_
    rw [Same, type]
    cases isDir : node.isDir with
    | true => simp [Tmpfs.info_dir isDir]
    | false => simp [Tmpfs.info_file isDir]
  | none =>
    have said := sysFstat_rest first
    simp only [Ordinary]
    by_cases second : fd = fdSynthDir ∨ k.tables.vfs.isDirFd fd = true
    · rw [if_pos second] at said
      rw [reports_iff said, Same, type]
      exact ⟨fun both => absurd both.1 (by decide), fun plain => absurd second plain.1.1⟩
    by_cases third : fd = fdDevRandom ∨ fd = fdDevnull
    · rw [if_neg second, if_pos third] at said
      rw [reports_iff said, Same, type]
      exact ⟨fun both => absurd both.1 (by decide), fun plain => absurd third plain.1.2⟩
    have size : sysFstat k fd = (0, some (0o100644, if fd = fdResolvConf then k.resolv.length
        else ((k.tables.vfs.file fd).map OpenFile.dataLen).getD 0)) := by
      rw [said, if_neg second, if_neg third]
      split <;> rfl
    rw [reports_iff size, Same, type]
    exact ⟨fun both => ⟨⟨second, third⟩, both.2⟩, fun both => ⟨regular.symm, both.2⟩⟩

theorem reports_dir (type : info.1 &&& 0o170000 = 0o040000) (size : info.2 = 4096) :
    Reports k fd info ↔ IsTmpfsDir k fd := by
  unfold IsTmpfsDir
  cases first : k.tables.tmpfs.entry fd with
  | some o =>
    rw [reports_entry first]
    simp only [Option.some.injEq, exists_and_left, exists_eq_left']
    refine exists_congr fun node => and_congr_right fun _ => ?_
    rw [Same, type, size]
    cases isDir : node.isDir with
    | true => simp [Tmpfs.info_dir isDir]
    | false => simp [Tmpfs.info_file isDir]
  | none =>
    refine ⟨fun ⟨got, eq, types, sizes⟩ => ?_, fun ⟨_, _, eq, _⟩ => by cases eq⟩
    rw [sysFstat_rest first] at eq
    rw [type] at types
    rw [size] at sizes
    have regular : 0o100644 &&& 0o170000 ≠ 0o040000 := by decide
    split_ifs at eq
    · cases eq
      cases sizes
    · cases eq
      cases sizes
    · cases eq
      exact absurd types.symm regular
    · cases eq
      exact absurd types.symm regular

theorem reports_node (node : Tmpfs.Node) : Reports k fd node.info ↔
    if node.isDir then IsTmpfsDir k fd else IsFile k fd node.data.length := by
  cases isDir : node.isDir with
  | true =>
    obtain ⟨type, size⟩ := Tmpfs.info_dir isDir
    rw [if_pos rfl, reports_dir type size]
  | false =>
    obtain ⟨type, size⟩ := Tmpfs.info_file isDir
    rw [if_neg Bool.false_ne_true, reports_file type, size]

theorem openDir_known {v : Vfs.State} (valid : 0 ≤ (v.openDir path).2) :
    (v.openDir path).2 < Tmpfs.tmpfsFdBase ∧
      (v.openDir path).1.isDirFd (v.openDir path).2 = true := by
  unfold State.openDir at valid ⊢
  cases found : v.dirSlots.cells.findIdx? fun slot => slot.fd = -1 with
  | none =>
    rw [found] at valid
    have valid : (0 : Int) ≤ -24 := valid
    omega
  | some =>
    obtain ⟨slot, get, _⟩ := findIdx_iff.mp found
    have bound := (List.getElem?_eq_some_iff.mp get).1
    have few : v.dirSlots.cells.length = 8 := v.dirSlots.size
    refine ⟨?_, ?_⟩
    · simp only [dirFdBase, Tmpfs.tmpfsFdBase]
      omega
    · refine List.any_eq_true.mpr ⟨_, List.mem_of_getElem? (List.getElem?_set_self bound), ?_⟩
      exact decide_eq_true rfl

theorem synth_open (opened : openRdonly k user mode = some (k', fd))
    (synth : isSynthDir (copyPath user) = true) :
    k'.tables = k.tables ∧
      fd = if isSynthFile (copyPath user) then fdSynthZero else fdSynthDir := by
  have done := (openRdonly_tables opened).1
  have notSpecial := (synthDir_inArchive synth).2
  have null : ¬ copyPath user = text "/dev/null" := fun eq => notSpecial (.inl eq)
  have random : ¬ (copyPath user = text "/dev/urandom" ∨ copyPath user = text "/dev/random") :=
    fun eq => notSpecial (.inr (.inl eq))
  have resolv : ¬ copyPath user = text "/tyn/resolv.conf" :=
    fun eq => notSpecial (.inr (.inr eq))
  unfold sysOpen at done
  rw [if_neg null, if_neg random, if_neg resolv] at done
  by_cases file : isSynthFile (copyPath user) = true
  · rw [if_pos file, Option.some.injEq] at done
    rw [if_pos file]
    obtain ⟨same, number⟩ := Prod.mk.inj done
    exact ⟨same.symm, number.symm⟩
  · rw [if_neg file, if_pos synth, Option.some.injEq] at done
    rw [if_neg file]
    obtain ⟨same, number⟩ := Prod.mk.inj done
    exact ⟨same.symm, number.symm⟩

theorem synth_stat (k : Kernel) (synth : isSynthDir (copyPath user) = true) :
    (∃ n t', openedSize k.tables.vfs (copyPath user) = some n ∧
      sysStat k.tables user = some (t', 0, some (0o100644, n))) ∨
    openedSize k.tables.vfs (copyPath user) = none ∧
      ((sysStat k.tables user = none ∧ (cpioLookup k.tables.vfs.archive (copyPath user) = none ∨
        Vfs.isDirPrefix k.tables.vfs.archive (copyPath user) = none)) ∨
      ((∃ t', sysStat k.tables user = some (t', 0, some (0o40755, 0))) ∧
        cpioLookup k.tables.vfs.archive (copyPath user) ≠ none ∧
        Vfs.isDirPrefix k.tables.vfs.archive (copyPath user) ≠ none)) := by
  rw [sysStat_archive (synthDir_inArchive synth).1]
  cases size : openedSize k.tables.vfs (copyPath user) with
  | some n =>
    obtain ⟨⟨t', reported⟩, _⟩ := statArchive_size size
    exact .inl ⟨n, t', rfl, reported⟩
  | none =>
    refine .inr ⟨rfl, ?_⟩
    rcases statArchive_noSize size with ⟨missing, stopped, _⟩ | ⟨there, w, _, answered, _⟩
    · exact .inl ⟨stopped, .inl missing⟩
    rw [answered, synth]
    cases Vfs.isDirPrefix k.tables.vfs.archive (copyPath user) with
    | none => exact .inl ⟨rfl, .inr rfl⟩
    | some =>
      rw [Option.map_some, Bool.or_true, if_pos rfl]
      exact .inr ⟨⟨_, rfl⟩, there, Option.some_ne_none _⟩

theorem topology_iff (dirs : DirsNumbered k.tables.vfs)
    (opened : openRdonly k user mode = some (k', fd))
    (file : isSynthFile (copyPath user) = true) :
    Agrees k user k' fd ↔
      openedSize k.tables.vfs (copyPath user) =
        some ((k.tables.vfs.fstatSize fdSynthZero).getD 0) := by
  have synth := synthFile_synthDir file
  obtain ⟨same, number⟩ := synth_open opened synth
  rw [if_pos file] at number
  have said := sysFstat_plain (zero_plain (k := k') (same ▸ dirs))
  rw [same, ← number] at said
  rw [← number]
  rcases synth_stat k synth with ⟨n, t', size, reported⟩ | ⟨size, ⟨stopped, _⟩ | ⟨⟨t', reported⟩, _⟩⟩
  · rw [size, agrees_reported reported, reports_iff said, Option.some.injEq]
    exact ⟨fun both => both.2, fun sizes => ⟨rfl, sizes⟩⟩
  · rw [size]
    exact ⟨fun agrees => absurd stopped (agrees_answered agrees), fun eq => by cases eq⟩
  · rw [size, agrees_reported reported, reports_iff said]
    refine ⟨fun both => ?_, fun eq => by cases eq⟩
    have types : 0o40755 &&& 0o170000 = 0o100644 &&& 0o170000 := both.1
    exact absurd types (by decide)

theorem synthDir_iff (opened : openRdonly k user mode = some (k', fd))
    (synth : isSynthDir (copyPath user) = true) (notFile : ¬ isSynthFile (copyPath user) = true) :
    Agrees k user k' fd ↔
      openedSize k.tables.vfs (copyPath user) = none ∧
        cpioLookup k.tables.vfs.archive (copyPath user) ≠ none ∧
        Vfs.isDirPrefix k.tables.vfs.archive (copyPath user) ≠ none := by
  obtain ⟨same, number⟩ := synth_open opened synth
  rw [if_neg notFile] at number
  have said : sysFstat k' fd = (0, some (0o40755, 0)) := by
    rw [number]
    exact sysFstat_dir (by decide) (.inl rfl)
  rcases synth_stat k synth with
    ⟨n, t', size, reported⟩ | ⟨size, ⟨stopped, lost⟩ | ⟨⟨t', reported⟩, walked⟩⟩
  · rw [size, agrees_reported reported, reports_iff said]
    refine ⟨fun both => ?_, fun ⟨nothing, _⟩ => by cases nothing⟩
    have types : 0o100644 &&& 0o170000 = 0o40755 &&& 0o170000 := both.1
    exact absurd types (by decide)
  · refine ⟨fun agrees => absurd stopped (agrees_answered agrees), fun ⟨_, found, known⟩ => ?_⟩
    exact absurd lost (not_or.mpr ⟨found, known⟩)
  · rw [agrees_reported reported, reports_iff said]
    exact ⟨fun _ => ⟨size, walked⟩, fun _ => ⟨rfl, rfl⟩⟩

theorem tmpfs_open {fs fs' : Tmpfs.State}
    (done : fs.open_ path 0 mode = (fs', fd)) (valid : 0 ≤ fd) :
    ∃ node o, fs.nodes.lookup (Tmpfs.norm path) = some node ∧ fs'.nodes = fs.nodes ∧
      fd = fs.nextFd ∧ o.fd = fd ∧ o.path = Tmpfs.norm path ∧ fs'.opens = fs.opens ++ [o] := by
  rcases Tmpfs.open_cases fs path 0 mode with
    ⟨_, code, refused, error, _⟩ | ⟨_, fs₁, pos, append, writable, isDir, pushed, ready⟩
  · rw [done] at refused
    have number : fd = code := (Prod.mk.inj refused).2
    omega
  obtain ⟨opens, _, number⟩ := Tmpfs.ready_push ready pos
  have nodes : (fs₁.push (Tmpfs.norm path) pos append writable isDir).1.nodes = fs₁.nodes := rfl
  rw [← pushed, done] at opens number nodes
  cases ready with
  | dir node present | file node present =>
    exact ⟨node, _, present, nodes, number, number.symm, rfl, opens⟩
  | emptied node present isFile truncates => exact absurd (Nat.zero_and _) truncates
  | created up perm absent creates => exact absurd (Nat.zero_and _) creates

theorem tmpfs_iff (opened : openRdonly k user mode = some (k', fd)) (valid : 0 ≤ fd)
    (owned : Tmpfs.ownsPath (copyPath user) = true) (notSpecial : ¬ isSpecial (copyPath user))
    (notDir : ¬ isSynthDir (copyPath user) = true) :
    Agrees k user k' fd ↔
      (Tmpfs.tmpfsFdBase ≤ k.tables.tmpfs.nextFd ∧
        ∀ o ∈ k.tables.tmpfs.opens, o.fd ≠ k.tables.tmpfs.nextFd) ∨
      ∃ node, k.tables.tmpfs.nodes.lookup (Tmpfs.norm (copyPath user)) = some node ∧
        if node.isDir then IsTmpfsDir k k.tables.tmpfs.nextFd
        else IsFile k k.tables.tmpfs.nextFd node.data.length := by
  obtain ⟨done, kept, _⟩ := openRdonly_tables opened
  have resolv := kept (fun eq => notSpecial (.inr (.inr eq)))
  unfold sysOpen at done
  rw [if_neg fun eq => notSpecial (.inl eq), if_neg fun eq => notSpecial (.inr (.inl eq)),
    if_neg fun eq => notSpecial (.inr (.inr eq)),
    if_neg fun file => notDir (synthFile_synthDir file), if_neg notDir, if_pos owned,
    Option.some.injEq] at done
  obtain ⟨same, number⟩ := Prod.mk.inj done
  generalize result : k.tables.tmpfs.open_ (copyPath user) 0 mode = r at same number
  obtain ⟨fs', n⟩ := r
  obtain rfl : n = fd := number
  obtain ⟨node, o, found, nodes, next, own, named, opens⟩ := tmpfs_open result valid
  have reported : sysStat k.tables user = some (k.tables, 0, some node.info) := by
    unfold sysStat
    rw [if_pos owned, Tmpfs.stat_info, found]
    rfl
  rw [agrees_reported reported, found, ← next]
  simp only [Option.some.injEq, exists_eq_left']
  rw [← reports_node]
  by_cases fresh : Tmpfs.tmpfsFdBase ≤ n ∧ ∀ o ∈ k.tables.tmpfs.opens, o.fd ≠ n
  · have said : sysFstat k' n = (0, some node.info) := by
      have entry := Tmpfs.entry_new opens fresh.1 own fresh.2
      rw [sysFstat_tmpfs (k := k') (o := o) (by rw [← same]; exact entry), ← same]
      simp only
      rw [named, nodes, found]
    exact ⟨fun _ => .inl fresh, fun _ => (reports_iff said).mpr ⟨rfl, rfl⟩⟩
  · have unchanged : sysFstat k' n = sysFstat k n := by
      have entry : k'.tables.tmpfs.entry n = k.tables.tmpfs.entry n := by
        rw [← same]
        exact Tmpfs.entry_old opens fresh
      cases first : k.tables.tmpfs.entry n with
      | some o =>
        rw [sysFstat_tmpfs first, sysFstat_tmpfs (entry.trans first), ← same]
        simp only [nodes]
      | none => rw [sysFstat_rest first, sysFstat_rest (entry.trans first), ← same, resolv]
    rw [Reports, unchanged]
    exact ⟨.inr, fun either => either.resolve_left fresh⟩

theorem archive_iff (opened : openRdonly k user mode = some (k', fd)) (valid : 0 ≤ fd)
    (inside : inArchive (copyPath user)) (notDir : ¬ isSynthDir (copyPath user) = true) :
    Agrees k user k' fd ↔
      ∀ size, openedSize k.tables.vfs (copyPath user) = some size →
        Plain k (asI32 k.tables.vfs.nextVfsFd) ∨
          IsFile k (asI32 k.tables.vfs.nextVfsFd) size := by
  have notFile : ¬ isSynthFile (copyPath user) = true := fun file => notDir (synthFile_synthDir file)
  obtain ⟨done, kept, _⟩ := openRdonly_tables opened
  rw [sysOpen_archive inside notFile notDir] at done
  have resolv := kept inside.2.2
  cases size : openedSize k.tables.vfs (copyPath user) with
  | some n =>
    obtain ⟨⟨t', reported⟩, w, number, opens, next, sized, dirs⟩ := statArchive_size size
    rw [opens, Option.some.injEq] at done
    obtain ⟨same, eq⟩ := Prod.mk.inj done
    rw [← sysStat_archive inside] at reported
    subst eq
    rw [agrees_reported reported, ← next]
    simp only [Option.some.injEq, forall_eq']
    have file : Reports k number (0o100644, n) ↔ IsFile k number n := reports_file regular
    rw [← file]
    by_cases plain : Plain k number
    · have plain' : Plain k' number := by
        rw [Plain, Ordinary, ← same, State.isDirFd, dirs]
        exact plain
      have said := sysFstat_plain plain'
      rw [← same, sized] at said
      exact ⟨fun _ => .inl plain, fun _ => (reports_iff said).mpr ⟨rfl, rfl⟩⟩
    · have unchanged : sysFstat k' number = sysFstat k number :=
        sysFstat_other (by rw [← same]) (by rw [← same]; exact dirs) resolv plain
      rw [Reports, unchanged]
      exact ⟨.inr, fun either => either.resolve_left plain⟩
  | none =>
    refine ⟨fun _ _ eq => (Option.some_ne_none _ eq.symm).elim, fun _ => ?_⟩
    rcases statArchive_noSize size with ⟨_, _, stopped⟩ | ⟨_, w, dirs, answered, opens⟩
    · rw [stopped] at done
      cases done
    rw [← sysStat_archive inside] at answered
    rw [opens] at done
    cases known : Vfs.isDirPrefix k.tables.vfs.archive (copyPath user) with
    | none =>
      rw [known] at done
      cases done
    | some below =>
      rw [known, Option.map_some] at done answered
      cases below with
      | false =>
        have refused : -2 = fd := (Prod.mk.inj (Option.some.inj done)).2
        omega
      | true =>
        obtain ⟨same, number⟩ := Prod.mk.inj (Option.some.inj done)
        obtain ⟨low, known⟩ := openDir_known (number ▸ valid)
        rw [number] at low known
        have said : sysFstat k' fd = (0, some (0o40755, 0)) := by
          refine sysFstat_dir low (.inr ?_)
          rw [← same]
          exact known
        rw [agrees_reported answered, reports_iff said]
        exact ⟨rfl, rfl⟩

/-- stat agrees with open and fstat exactly on the files and tables described, whatever calls
    have led to the tables of the archive. -/
theorem stat_agrees_iff {image : List UInt8} {past : List (Vfs.State × Vfs.Call)}
    (run : Run Vfs.step (Vfs.initial image) past k.tables.vfs)
    (opened : openRdonly k user mode = some (k', fd)) (valid : 0 ≤ fd) :
    Agrees k user k' fd ↔ Consistent k user := by
  have dirs := run_dirs run
  unfold Consistent
  by_cases special : isSpecial (copyPath user)
  · rw [if_pos special]
    exact ⟨fun _ => trivial, fun _ => special_agrees dirs opened special⟩
  rw [if_neg special]
  by_cases file : isSynthFile (copyPath user) = true
  · rw [if_pos file]
    exact topology_iff dirs opened file
  rw [if_neg file]
  by_cases dir : isSynthDir (copyPath user) = true
  · rw [if_pos dir]
    exact synthDir_iff opened dir file
  rw [if_neg dir]
  by_cases owned : Tmpfs.ownsPath (copyPath user) = true
  · rw [if_pos owned]
    exact tmpfs_iff opened valid owned special dir
  rw [if_neg owned]
  refine archive_iff opened valid ⟨owned, ?_, fun eq => special (.inr (.inr eq))⟩ dir
  rintro (urandom | random | null)
  · exact special (.inr (.inl (.inl urandom)))
  · exact special (.inr (.inl (.inr random)))
  · exact special (.inl null)

end Routes

def booted : Kernel := ⟨boot [] [] false, []⟩

def created : Kernel :=
  { booted with tables :=
      { booted.tables with tmpfs := (Tmpfs.initial.open_ (text "/tmp/a") 0o101 0o640).1 } }

theorem stat_agrees_tmp : ∃ k', openRdonly created (text "/tmp/a") 0 = some (k', 4001) ∧
    Agrees created (text "/tmp/a") k' 4001 := by
  have consistent : Consistent created (text "/tmp/a") :=
    .inl ⟨by decide, fun o member => by rw [List.mem_singleton.mp member]; decide⟩
  obtain ⟨k', opened⟩ : ∃ k', openRdonly created (text "/tmp/a") 0 = some (k', 4001) := ⟨_, rfl⟩
  exact ⟨k', opened, (stat_agrees_iff .nil opened (by decide)).mpr consistent⟩

/-- open has a file for the number of a core; for stat it is a directory. -/
theorem topology_file_is_directory :
    ∃ k' t', openRdonly booted (text "/sys/devices/system/cpu/cpu0/topology/core_id") 0 =
        some (k', fdSynthZero) ∧ sysFstat k' fdSynthZero = (0, some (0o100644, 0)) ∧
      sysStat booted.tables (text "/sys/devices/system/cpu/cpu0/topology/core_id") =
        some (t', 0, some (0o40755, 0)) :=
  ⟨_, _, rfl, rfl, rfl⟩

end TynKernel.Fd
