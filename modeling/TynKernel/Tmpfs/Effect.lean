import TynKernel.Lib.Weights
import TynKernel.Tmpfs.Calls

/-!
Every outcome of a call, for the nodes and for the open table. The account of the bytes comes
first, since it says that no sum or difference of a call wraps.
-/
namespace TynKernel.Tmpfs
open Bytes List Numbers Weights

def Node.size (node : Node) : Nat := if node.isDir then 0 else node.data.length

def State.fileBytes (fs : State) : Nat := weight Node.size fs.nodes

structure Sound (fs : State) : Prop where
  total : fs.total = fs.fileBytes
  capped : fs.total ≤ cap
  dirs : ∀ path node, fs.nodes.lookup path = some node → node.isDir = true → node.data = []

/-- The destination of the rename is removed although the rename fails: both are directories, the
    destination is empty, and the source has a child other than the destination. -/
structure Clobbers (fs : State) (old new : Path) : Prop where
  apart : norm old ≠ norm new
  source : ∃ src, fs.nodes.lookup (norm old) = some src ∧ src.isDir = true
  above : ∃ up, fs.nodes.lookup (parent (norm new)) = some up ∧ up.isDir = true
  target : ∃ dst, fs.nodes.lookup (norm new) = some dst ∧ dst.isDir = true
  vacant : hasChildren fs.nodes (norm new) = false
  inhabited : hasChildren (fs.nodes.erase (norm new)) (norm old) = true

/-- A rename that moves its source: the directory of the destination is there, a destination is of
    the same kind and has no children, and a directory has none other than the destination. -/
structure Renames (fs : State) (old new : Path) (src : Node) : Prop where
  apart : norm old ≠ norm new
  source : fs.nodes.lookup (norm old) = some src
  above : ∃ up, fs.nodes.lookup (parent (norm new)) = some up ∧ up.isDir = true
  replaced : ∀ dst, fs.nodes.lookup (norm new) = some dst → dst.isDir = src.isDir ∧
    (dst.isDir = true → hasChildren fs.nodes (norm new) = false)
  childless : src.isDir = true → hasChildren (fs.nodes.erase (norm new)) (norm old) = false

def Call.writes : Call → Bool
  | .open_ .. | .write .. | .pwrite .. | .truncate .. | .ftruncate .. => true
  | _ => false

def Idle (fs : State) (c : Call) (code : Int) : Prop :=
  ∀ old new, c = .rename old new →
    (norm old ≠ norm new → code ≠ 0) ∧ ∀ src, ¬ Renames fs old new src

inductive NodeEffect (fs : State) : Call → AList (fun _ : Path => Node) → Nat → Int → Prop where
  | same (c : Call) (code : Int) (idle : Idle fs c code) : NodeEffect fs c fs.nodes fs.total code
  | create (path : Path) (flags mode perm : Nat) (up : Node) (code : Int)
      (absent : fs.nodes.lookup (norm path) = none)
      (above : fs.nodes.lookup (parent (norm path)) = some up) (dir : up.isDir = true) :
      NodeEffect fs (.open_ path flags mode) (fs.nodes.insert (norm path) ⟨false, [], perm⟩)
        fs.total code
  | mkdir (path : Path) (mode perm : Nat) (up : Node)
      (absent : fs.nodes.lookup (norm path) = none)
      (above : fs.nodes.lookup (parent (norm path)) = some up) (dir : up.isDir = true) :
      NodeEffect fs (.mkdir path mode) (fs.nodes.insert (norm path) ⟨true, [], perm⟩) fs.total 0
  | rewrite (c : Call) (path : Path) (node : Node) (data : List UInt8) (total : Nat) (code : Int)
      (writes : c.writes = true) (present : fs.nodes.lookup path = some node)
      (file : node.isDir = false)
      (count : total + node.data.length = fs.total + data.length) (fits : total ≤ cap) :
      NodeEffect fs c (fs.nodes.insert path { node with data := data }) total code
  | unlink (path : Path) (node : Node) (total : Nat)
      (present : fs.nodes.lookup (norm path) = some node) (file : node.isDir = false)
      (count : total + node.data.length = fs.total) :
      NodeEffect fs (.unlink path) (fs.nodes.erase (norm path)) total 0
  | rmdir (path : Path) (node : Node)
      (present : fs.nodes.lookup (norm path) = some node) (dir : node.isDir = true)
      (inner : norm path ≠ text "/tmp" ∧ norm path ≠ text "/dev/shm")
      (vacant : hasChildren fs.nodes (norm path) = false) :
      NodeEffect fs (.rmdir path) (fs.nodes.erase (norm path)) fs.total 0
  | rename (old new : Path) (src : Node) (total : Nat) (can : Renames fs old new src)
      (count : total + fs.lengthAt (norm new) = fs.total) :
      NodeEffect fs (.rename old new)
        (((fs.nodes.erase (norm new)).erase (norm old)).insert (norm new) src) total 0
  | clobber (old new : Path) (clobbers : Clobbers fs old new) :
      NodeEffect fs (.rename old new) (fs.nodes.erase (norm new)) fs.total einval

/-- The open table after a call, in which the nodes are as the last state has them. -/
inductive TableEffect (fs : State) : Call → State → Int → Prop where
  | same (c : Call) (fs' : State) (code : Int) (opens : fs'.opens = fs.opens)
      (next : fs'.nextFd = fs.nextFd) : TableEffect fs c fs' code
  | edit (c : Call) (fs' : State) (code fd : Int) (f : OpenFd → OpenFd)
      (keeps : ∀ o, (f o).fd = o.fd ∧ (f o).path = o.path ∧ (f o).isDir = o.isDir)
      (valid : 0 ≤ code) (opens : fs'.opens = editFirst fd f fs.opens)
      (next : fs'.nextFd = fs.nextFd) : TableEffect fs c fs' code
  | push (path : Path) (flags mode : Nat) (fs' : State) (o : OpenFd) (node : Node)
      (number : o.fd = fs.nextFd) (named : o.path = norm path)
      (there : fs'.nodes.lookup (norm path) = some node) (kind : node.isDir = o.isDir)
      (opens : fs'.opens = fs.opens ++ [o]) (next : fs'.nextFd = asI32 (fs.nextFd + 1)) :
      TableEffect fs (.open_ path flags mode) fs' fs.nextFd
  | close (fd : Int) (fs' : State) (opens : fs'.opens = fs.opens.eraseP fun o => o.fd = fd)
      (next : fs'.nextFd = fs.nextFd) : TableEffect fs (.close fd) fs' 0

/-- A call with its return value. One that fails changes nothing, unless it is an open that
    returns a negative number, or the rename that clobbers. -/
structure Effect (fs : State) (c : Call) (fs' : State) (code : Int) : Prop where
  nodes : NodeEffect fs c fs'.nodes fs'.total code
  table : TableEffect fs c fs' code
  failed : code < 0 → fs' = fs ∨
    (∃ path flags mode, c = .open_ path flags mode ∧ code = fs.nextFd ∧
      fs'.opens.length = fs.opens.length + 1) ∨
    ∃ old new, c = .rename old new ∧ Clobbers fs old new ∧ fs' = { fs with
      nodes := fs.nodes.erase (norm new) }

/-- What the calls other than open and close do to the table: nothing, or they move the position
    of one descriptor, or its place in the directory. -/
inductive TableStep (fs : State) : Call → State → Prop where
  | same (c : Call) (fs' : State) (opens : fs'.opens = fs.opens) : TableStep fs c fs'
  | moved (c : Call) (fs' : State) (fd : Int) (f : OpenFd → OpenFd)
      (position : ∀ o, ∃ pos, f o = { o with pos := pos })
      (opens : fs'.opens = editFirst fd f fs.opens) : TableStep fs c fs'
  | turned (fd : Int) (count : Nat) (fs' : State) (place : Nat)
      (opens : fs'.opens = editFirst fd (fun o => { o with dirPos := place }) fs.opens) :
      TableStep fs (.getdents64 fd count) fs'

def Call.movesRows : Call → Bool
  | .open_ .. | .close .. => true
  | _ => false

structure Outcome (fs : State) (c : Call) (fs' : State) (code : Int) : Prop where
  effect : Sound fs → Effect fs c fs' code
  table : c.movesRows = false → TableStep fs c fs'

def State.Resizes (fs : State) (path : Path) (len : Nat) : Prop :=
  ∃ node, fs.nodes.lookup path = some node ∧ node.isDir = false ∧
    (node.data.length < len → (fs.total + (len - node.data.length)) % 2 ^ 64 ≤ cap)

variable {node : Node} {path : Path} {b : Nat} {c : Call} {code : Int} {r : State × Int}

section Sound
variable {fs : State}

theorem size_length (dirs : node.isDir = true → node.data = []) :
    node.size = node.data.length := by
  unfold Node.size
  split
  · rename_i dir
    rw [dirs dir]
    rfl
  · rfl

theorem length_le_total (sound : Sound fs) (present : fs.nodes.lookup path = some node) :
    node.data.length ≤ fs.total := by
  rw [sound.total, ← size_length (sound.dirs path node present)]
  exact weight_le Node.size present

theorem wordSub_eq (less : b ≤ a) (small : a < 2 ^ 64) : wordSub a b = a - b := by
  unfold wordSub
  omega

theorem wordSub_total (sound : Sound fs) (less : b ≤ fs.total) :
    wordSub fs.total b + b = fs.total := by
  have capped := sound.capped
  unfold cap at capped
  rw [wordSub_eq less (by omega)]
  omega

theorem effect_idle (fs : State) (idle : Idle fs c code) :
    Effect fs c fs code :=
  ⟨.same c code idle, .same c fs code rfl rfl, fun _ => .inl rfl⟩

def Call.isRename : Call → Bool
  | .rename .. => true
  | _ => false

theorem idle_other (code : Int) (other : c.isRename = false) : Idle fs c code := by
  intro old new same
  rw [same] at other
  cases other

theorem effect_same (other : c.isRename = false) : Effect fs c fs code :=
  effect_idle fs (idle_other code other)

theorem outcome_same (other : c.isRename = false) : Outcome fs c fs code :=
  ⟨fun _ => effect_same other, fun _ => .same c fs rfl⟩

theorem outcome_refused (error : code < 0) (stays : ∀ src, ¬ Renames fs old new src) :
    Outcome fs (.rename old new) fs code := by
  refine ⟨fun _ => effect_idle fs ?_, fun _ => .same _ fs rfl⟩
  rintro _ _ ⟨⟩
  exact ⟨fun _ zero => absurd error (by omega), stays⟩

theorem outcome_edit (fs : State)
    (other : c.isRename = false) (position : ∀ o, ∃ pos, f o = { o with pos := pos })
    (valid : 0 ≤ code) : Outcome fs c (fs.edit fd f) code := by
  refine ⟨fun _ => ⟨.same c code (idle_other code other), .edit c _ code fd f ?_ valid rfl rfl,
    fun error => absurd error (Int.not_lt.mpr valid)⟩, fun _ => .moved c _ fd f position rfl⟩
  intro o
  obtain ⟨pos, moved⟩ := position o
  rw [moved]
  exact ⟨rfl, rfl, rfl⟩

theorem outcome_nodes (effect : Sound fs → NodeEffect fs c nodes total 0) :
    Outcome fs c { fs with nodes := nodes, total := total } 0 :=
  ⟨fun sound => ⟨effect sound, .same c _ 0 rfl rfl, fun error => absurd error (by decide)⟩,
    fun _ => .same c _ rfl⟩

end Sound

section Calls
variable {fs : State}

theorem push_effect (effect : NodeEffect fs (.open_ path flags mode) nodes total fs.nextFd)
    (there : nodes.lookup (norm path) = some node) (kind : node.isDir = isDir) :
    Effect fs (.open_ path flags mode)
      (State.push { fs with nodes := nodes, total := total } (norm path) pos append writable isDir).1
      (State.push { fs with nodes := nodes, total := total } (norm path) pos append writable isDir).2 := by
  refine ⟨effect, ?_, ?_⟩
  · exact .push path flags mode _ ⟨fs.nextFd, norm path, pos, append, writable, isDir, 0⟩ node rfl
      rfl there kind rfl rfl
  · intro _
    refine .inr (.inl ⟨path, flags, mode, rfl, rfl, ?_⟩)
    simp [State.push]

theorem open_effect (sound : Sound fs) (path : Path) (flags mode : Nat) :
    Effect fs (.open_ path flags mode) (fs.open_ path flags mode).1
      (fs.open_ path flags mode).2 := by
  rcases open_cases fs path flags mode with
    ⟨_, code, refused, _⟩ | ⟨_, _, pos, _, _, _, pushed, ready⟩
  · rw [refused]
    exact effect_same rfl
  rw [pushed]
  cases ready with
  | dir node present isDir => exact push_effect (.same _ _ (idle_other _ rfl)) present isDir
  | file node present isFile => exact push_effect (.same _ _ (idle_other _ rfl)) present isFile
  | emptied node present isFile =>
    have count := wordSub_total sound (length_le_total sound present)
    have capped := sound.capped
    refine push_effect (.rewrite _ (norm path) node [] _ _ rfl present isFile count ?_)
      (AList.lookup_insert _) isFile
    omega
  | created up perm absent creates above dir =>
    exact push_effect (.create path flags mode _ up _ absent above dir) (AList.lookup_insert _) rfl

theorem writeAt_outcome (sound : Sound fs) (path : Path) (pos : Nat) (buf : List UInt8) :
    ((fs.writeAt path pos buf).1 = fs ∧ (fs.writeAt path pos buf).2 ≤ 0) ∨
    ∃ node data total, fs.nodes.lookup path = some node ∧ node.isDir = false ∧
      total + node.data.length = fs.total + data.length ∧ total ≤ cap ∧
      (fs.writeAt path pos buf).1 = { fs with
        nodes := fs.nodes.insert path { node with data := data }, total := total } ∧
      0 < (fs.writeAt path pos buf).2 := by
  unfold State.writeAt
  split
  · exact .inl ⟨rfl, (by decide : enoent ≤ 0)⟩
  rename_i node present
  split
  · exact .inl ⟨rfl, (by decide : eisdir ≤ 0)⟩
  rename_i file
  split
  · exact .inl ⟨rfl, Int.le_refl 0⟩
  simp only
  split
  · exact .inl ⟨rfl, (by decide : enospc ≤ 0)⟩
  have inside := length_le_total sound present
  have capped := sound.capped
  generalize size : min buf.length (fs.maxN node.data.length pos) = n at *
  have reach : pos + n ≤ node.data.length + (cap - fs.total) := by
    unfold State.maxN at size
    simp only at size
    split at size <;> omega
  have newEnd : (pos + n) % 2 ^ 64 = pos + n := by
    unfold cap at *
    omega
  refine .inr ⟨node, _, _, present, Bool.eq_false_iff.mpr file, ?_, ?_, rfl, ?_⟩
  · simp only [newEnd, length_append, length_take, length_drop,
      length_replicate]
    split
    · have total : (fs.total + (pos + n - node.data.length)) % 2 ^ 64 =
          fs.total + (pos + n - node.data.length) := by
        unfold cap at *
        omega
      omega
    · omega
  · split
    · exact Nat.le_trans (Nat.mod_le _ _) (by omega)
    · exact capped
  · omega

theorem writes_other (writes : c.writes = true) : c.isRename = false := by
  cases c with
  | rename => cases writes
  | _ => rfl

theorem writeAt_effect (sound : Sound fs) (writes : c.writes = true) (path : Path) (pos : Nat)
    (buf : List UInt8) :
    Effect fs c (fs.writeAt path pos buf).1 (fs.writeAt path pos buf).2 := by
  rcases writeAt_outcome sound path pos buf with
    ⟨same, _⟩ | ⟨node, data, total, present, file, count, fits, wrote, positive⟩
  · rw [same]
    exact effect_same (writes_other writes)
  · rw [wrote]
    exact ⟨.rewrite c path node data total _ writes present file count fits, .same c _ _ rfl rfl,
      fun error => absurd error (by omega)⟩

theorem writeAt_table (fs : State) (path : Path) (pos : Nat) (buf : List UInt8) :
    (fs.writeAt path pos buf).1.opens = fs.opens ∧
      (fs.writeAt path pos buf).1.nextFd = fs.nextFd := by
  unfold State.writeAt
  split
  · exact ⟨rfl, rfl⟩
  split
  · exact ⟨rfl, rfl⟩
  split
  · exact ⟨rfl, rfl⟩
  simp only
  split <;> exact ⟨rfl, rfl⟩

theorem write_outcome (fs : State) (fd : Int) (buf : List UInt8) :
    Outcome fs (.write fd buf) (fs.write fd buf).1 (fs.write fd buf).2 := by
  unfold State.write
  split
  · exact outcome_same rfl
  rename_i o found
  split
  · exact outcome_same rfl
  simp only
  generalize (if o.append then fs.lengthAt o.path else o.pos) = pos
  obtain ⟨opens, next⟩ := writeAt_table fs o.path pos buf
  split
  · rename_i positive
    have edited := congrArg (editFirst fd fun o' =>
      { o' with pos := (pos + (fs.writeAt o.path pos buf).2.toNat) % 2 ^ 64 }) opens
    refine ⟨fun sound => ⟨(writeAt_effect sound rfl o.path pos buf).nodes, ?_,
      fun error => absurd error (by omega)⟩, fun _ => .moved _ _ fd _ (fun _ => ⟨_, rfl⟩) edited⟩
    refine .edit _ _ _ fd _ ?_ (Int.le_of_lt positive) edited next
    exact fun _ => ⟨rfl, rfl, rfl⟩
  · exact ⟨fun sound => writeAt_effect sound rfl o.path pos buf, fun _ => .same _ _ opens⟩

theorem pwrite_outcome (fs : State) (fd : Int) (buf : List UInt8) (offset : UInt64) :
    Outcome fs (.pwrite fd buf offset) (fs.pwrite fd buf offset.toNat).1
      (fs.pwrite fd buf offset.toNat).2 := by
  unfold State.pwrite
  split
  · exact outcome_same rfl
  split
  · exact outcome_same rfl
  · exact ⟨fun sound => writeAt_effect sound rfl _ _ buf,
      fun _ => .same _ _ (writeAt_table ..).1⟩

theorem read_outcome (fs : State) (fd : Int) (count : Nat) :
    Outcome fs (.read fd count) (fs.read fd count).1 (fs.read fd count).2.1 := by
  unfold State.read
  split
  · exact outcome_same rfl
  split
  · exact outcome_same rfl
  split
  · exact outcome_same rfl
  simp only
  split
  · exact outcome_edit fs rfl (fun _ => ⟨_, rfl⟩) (Int.natCast_nonneg _)
  · exact outcome_same rfl

theorem lseek_outcome (fs : State) (fd offset whence : Int) :
    Outcome fs (.lseek fd offset whence) (fs.lseek fd offset whence).1
      (fs.lseek fd offset whence).2 := by
  unfold State.lseek
  split
  · exact outcome_same rfl
  simp only
  split
  · exact outcome_same rfl
  split
  · exact outcome_same rfl
  · rename_i valid
    exact outcome_edit fs rfl (fun _ => ⟨_, rfl⟩) (Int.not_lt.mp valid)

theorem resizePath_cases (fs : State) (path : Path) (len : Nat) :
    (¬ fs.Resizes path len ∧ ∃ code, fs.resizePath path len = some (fs, code) ∧ code < 0) ∨
    ∃ node total, fs.nodes.lookup path = some node ∧ node.isDir = false ∧
      (if node.data.length < len then total ≤ cap ∧
          total = (fs.total + (len - node.data.length)) % 2 ^ 64
        else total = wordSub fs.total (node.data.length - len)) ∧
      fs.resizePath path len = if 2 ^ 63 ≤ len then none
        else some ({ fs with
          nodes := fs.nodes.insert path
            { node with data := node.data.take len ++ List.replicate (len - node.data.length) 0 }
          total := total }, 0) := by
  unfold State.resizePath State.Resizes
  cases present : fs.nodes.lookup path with
  | none => exact .inl ⟨by simp, enoent, rfl, by decide⟩
  | some node =>
    by_cases dir : node.isDir = true
    · exact .inl ⟨by simp [dir], eisdir, if_pos dir, by decide⟩
    have file : node.isDir = false := Bool.eq_false_iff.mpr dir
    simp only [if_neg dir]
    by_cases grows : node.data.length < len
    · simp only [if_pos grows]
      by_cases full : cap < (fs.total + (len - node.data.length)) % 2 ^ 64
      · exact .inl ⟨by simpa [file, grows] using full, enospc, if_pos full, by decide⟩
      · refine .inr ⟨node, _, rfl, file, ?_, if_neg full⟩
        rw [if_pos grows]
        exact ⟨Nat.not_lt.mp full, rfl⟩
    · simp only [if_neg grows]
      refine .inr ⟨node, _, rfl, file, ?_, rfl⟩
      rw [if_neg grows]

theorem resized_length (data : List UInt8) (len : Nat) :
    (data.take len ++ List.replicate (len - data.length) 0).length = len := by
  simp only [length_append, length_take, length_replicate]
  omega

theorem resizePath_outcome (writes : c.writes = true) (word : len < 2 ^ 64)
    (done : fs.resizePath path len = some r) : Outcome fs c r.1 r.2 := by
  rcases resizePath_cases fs path len with
    ⟨_, code, refused, _⟩ | ⟨node, total, present, file, fits, resized⟩
  · cases refused.symm.trans done
    exact outcome_same (writes_other writes)
  rw [resized] at done
  split at done
  · cases done
  cases done
  refine outcome_nodes fun sound => ?_
  have inside := length_le_total sound present
  have capped := sound.capped
  have counted : total + node.data.length = fs.total + len ∧ total ≤ cap := by
    split at fits
    · unfold cap at *
      omega
    · have less : node.data.length - len ≤ fs.total := by omega
      have count := wordSub_total sound less
      omega
  refine .rewrite c path node _ _ _ writes present file ?_ counted.2
  rw [resized_length]
  exact counted.1

theorem truncate_outcome (path : Path) (len : UInt64)
    (done : fs.truncate path len.toNat = some r) : Outcome fs (.truncate path len) r.1 r.2 := by
  unfold State.truncate at done
  split at done
  · cases done
    exact outcome_same rfl
  · exact resizePath_outcome rfl len.toNat_lt done

theorem ftruncate_outcome (fd : Int) (len : UInt64)
    (done : fs.ftruncate fd len.toNat = some r) : Outcome fs (.ftruncate fd len) r.1 r.2 := by
  unfold State.ftruncate at done
  split at done
  · cases done
    exact outcome_same rfl
  split at done
  · cases done
    exact outcome_same rfl
  · exact resizePath_outcome rfl len.toNat_lt done

theorem close_effect (fs : State) (fd : Int) :
    Effect fs (.close fd) (fs.close fd) (fs.closeCode fd) := by
  unfold State.closeCode State.isTmpfsFd State.close
  split
  · exact effect_same rfl
  split
  · exact ⟨.same _ _ (idle_other _ rfl), .close fd _ rfl rfl, fun error => absurd error (by decide)⟩
  rename_i unknown
  have same : (fs.opens.eraseP fun o => decide (o.fd = fd)) = fs.opens := by
    refine eraseP_of_forall_not ?_
    intro o member is
    exact unknown (any_eq_true.mpr ⟨o, member, is⟩)
  rw [same]
  exact effect_same rfl

theorem unlink_outcome (fs : State) (path : Path) :
    Outcome fs (.unlink path) (fs.unlink path).1 (fs.unlink path).2 := by
  unfold State.unlink
  simp only
  split
  · exact outcome_same rfl
  rename_i node present
  split
  · exact outcome_same rfl
  rename_i file
  exact outcome_nodes fun sound => .unlink path node _ present (Bool.eq_false_iff.mpr file)
    (wordSub_total sound (length_le_total sound present))

theorem mkdir_outcome (fs : State) (path : Path) (mode : Nat) :
    Outcome fs (.mkdir path mode) (fs.mkdir path mode).1 (fs.mkdir path mode).2 := by
  unfold State.mkdir
  simp only
  split
  · exact outcome_same rfl
  rename_i absent
  split
  · exact outcome_same rfl
  rename_i up above
  split
  · exact outcome_same rfl
  rename_i dir
  exact outcome_nodes fun _ => .mkdir path mode _ up (Option.not_isSome_iff_eq_none.mp absent) above
    (Decidable.not_not.mp dir)

theorem rmdir_outcome (fs : State) (path : Path) :
    Outcome fs (.rmdir path) (fs.rmdir path).1 (fs.rmdir path).2 := by
  unfold State.rmdir
  simp only
  split
  · exact outcome_same rfl
  rename_i inner
  split
  · exact outcome_same rfl
  rename_i node present
  split
  · exact outcome_same rfl
  rename_i dir
  split
  · exact outcome_same rfl
  rename_i vacant
  exact outcome_nodes fun _ => .rmdir path node present (Decidable.not_not.mp dir)
    (not_or.mp inner) (Bool.eq_false_iff.mpr vacant)

section Rename
variable {src dst : Node} {total : Nat} (apart : norm old ≠ norm new)
  (source : fs.nodes.lookup (norm old) = some src)
  (above : ∃ up, fs.nodes.lookup (parent (norm new)) = some up ∧ up.isDir = true)
include apart source above

theorem move_outcome
    (replaced : ∀ dst, fs.nodes.lookup (norm new) = some dst → dst.isDir = src.isDir ∧
      (dst.isDir = true → hasChildren fs.nodes (norm new) = false))
    (count : Sound fs → total + fs.lengthAt (norm new) = fs.total)
    (refused : src.isDir = true → hasChildren (fs.nodes.erase (norm new)) (norm old) = true →
      Outcome fs (.rename old new)
        { fs with nodes := fs.nodes.erase (norm new), total := total } einval) :
    let r := State.move { fs with nodes := fs.nodes.erase (norm new), total := total } (norm old)
      (norm new) src
    Outcome fs (.rename old new) r.1 r.2 := by
  unfold State.move
  dsimp only
  split
  · rename_i inhabited
    exact refused inhabited.1 inhabited.2
  · rename_i free
    have childless : src.isDir = true →
        hasChildren (fs.nodes.erase (norm new)) (norm old) = false :=
      fun inner => Bool.eq_false_iff.mpr fun inhabited => free ⟨inner, inhabited⟩
    exact outcome_nodes fun sound =>
      .rename old new src total ⟨apart, source, above, replaced, childless⟩ (count sound)

theorem move_new (absent : fs.nodes.lookup (norm new) = none) :
    Outcome fs (.rename old new) (fs.move (norm old) (norm new) src).1
      (fs.move (norm old) (norm new) src).2 := by
  have gone : { fs with nodes := fs.nodes.erase (norm new) } = fs := by rw [erase_absent absent]
  have nothing : fs.total + fs.lengthAt (norm new) = fs.total := by
    rw [State.lengthAt, absent]
    rfl
  have moved := move_outcome apart source above
    (fun dst there => by rw [absent] at there; cases there) (fun _ => nothing)
    fun inner inhabited => by
      rw [gone]
      refine outcome_refused (by decide : einval < 0) fun other can => ?_
      cases source.symm.trans can.source
      cases inhabited.symm.trans (can.childless inner)
  rwa [gone] at moved

theorem move_over (target : fs.nodes.lookup (norm new) = some dst) (alike : dst.isDir = src.isDir)
    (isDir : dst.isDir = true) (vacant : hasChildren fs.nodes (norm new) = false) :
    let r := State.move { fs with nodes := fs.nodes.erase (norm new) } (norm old) (norm new) src
    Outcome fs (.rename old new) r.1 r.2 := by
  refine move_outcome apart source above ?_ ?_ ?_
  · intro dst' there
    cases target.symm.trans there
    exact ⟨alike, fun _ => vacant⟩
  · intro sound
    rw [State.lengthAt, target]
    exact congrArg (fs.total + ·.length) (sound.dirs _ _ target isDir)
  · -- the destination is gone when the children of the source are found
    intro inner inhabited
    have clobbers : Clobbers fs old new :=
      ⟨apart, ⟨src, source, inner⟩, above, ⟨dst, target, isDir⟩, vacant, inhabited⟩
    exact ⟨fun _ => ⟨.clobber old new clobbers, .same _ _ _ rfl rfl,
      fun _ => .inr (.inr ⟨old, new, rfl, clobbers, rfl⟩)⟩, fun _ => .same _ _ rfl⟩

theorem move_file (target : fs.nodes.lookup (norm new) = some dst) (alike : dst.isDir = src.isDir)
    (file : dst.isDir = false) :
    let r := State.move { fs with
      nodes := fs.nodes.erase (norm new)
      total := wordSub fs.total dst.data.length } (norm old) (norm new) src
    Outcome fs (.rename old new) r.1 r.2 := by
  refine move_outcome apart source above ?_ ?_ ?_
  · intro dst' there
    cases target.symm.trans there
    exact ⟨alike, fun inner => by cases file.symm.trans inner⟩
  · intro sound
    rw [State.lengthAt, target]
    exact wordSub_total sound (length_le_total sound target)
  · intro inner
    cases (file.symm.trans alike).trans inner

end Rename

theorem rename_outcome (fs : State) (old new : Path) :
    Outcome fs (.rename old new) (fs.rename old new).1 (fs.rename old new).2 := by
  unfold State.rename
  simp only
  split
  · rename_i same
    refine ⟨fun _ => effect_idle fs ?_, fun _ => .same _ _ rfl⟩
    rintro _ _ ⟨⟩
    exact ⟨fun apart => absurd same apart, fun _ can => can.apart same⟩
  rename_i apart
  split
  · rename_i absent
    refine outcome_refused (by decide : enoent < 0) fun _ can => ?_
    cases absent.symm.trans can.source
  rename_i src source
  split
  · rename_i absent
    refine outcome_refused (by decide : enoent < 0) fun _ can => ?_
    obtain ⟨up, there, _⟩ := can.above
    cases absent.symm.trans there
  rename_i up above
  split
  · rename_i file
    refine outcome_refused (by decide : enotdir < 0) fun _ can => ?_
    obtain ⟨up', there, isDir⟩ := can.above
    cases above.symm.trans there
    exact file isDir
  rename_i dir
  have inDir : ∃ up, fs.nodes.lookup (parent (norm new)) = some up ∧ up.isDir = true :=
    ⟨up, above, Decidable.not_not.mp dir⟩
  split
  · rename_i absent
    exact move_new apart source inDir absent
  rename_i dst target
  split
  · rename_i differ
    have error : (if dst.isDir then eisdir else enotdir) < 0 := by split <;> decide
    refine outcome_refused error fun _ can => ?_
    cases source.symm.trans can.source
    exact differ (can.replaced dst target).1
  rename_i alike
  have kinds : dst.isDir = src.isDir := Decidable.not_not.mp alike
  split
  · rename_i inner
    split
    · rename_i occupied
      refine outcome_refused (by decide : enotempty < 0) fun _ can => ?_
      cases occupied.symm.trans ((can.replaced dst target).2 inner)
    · rename_i vacant
      exact move_over apart source inDir target kinds inner (Bool.eq_false_iff.mpr vacant)
  · rename_i file
    exact move_file apart source inDir target kinds (Bool.eq_false_iff.mpr file)

theorem getdents64_outcome (fs : State) (fd : Int) (count : Nat) :
    Outcome fs (.getdents64 fd count) (fs.getdents64 fd count).1 (fs.getdents64 fd count).2.1 := by
  unfold State.getdents64
  split
  · exact outcome_same rfl
  split
  · exact outcome_same rfl
  refine ⟨fun _ => ⟨.same _ _ (idle_other _ rfl), ?_, fun error => ?_⟩,
    fun _ => .turned fd count _ _ rfl⟩
  · refine .edit _ _ _ fd _ ?_ (Int.natCast_nonneg _) rfl rfl
    exact fun _ => ⟨rfl, rfl, rfl⟩
  · exact absurd error (Int.not_lt.mpr (Int.natCast_nonneg _))

theorem call_outcome {c : Call} {fs' : State} {r : Reply} (done : fs.call c = some (fs', r)) :
    Outcome fs c fs' r.code := by
  cases c with
  | open_ path flags mode =>
    cases done
    exact ⟨fun sound => open_effect sound path flags mode, by intro rows; cases rows⟩
  | write fd buf => cases done; exact write_outcome fs fd buf
  | pwrite fd buf offset => cases done; exact pwrite_outcome fs fd buf offset
  | read fd count => cases done; exact read_outcome fs fd count
  | pread => cases done; exact outcome_same rfl
  | lseek fd offset whence => cases done; exact lseek_outcome fs fd offset whence
  | truncate path len =>
    obtain ⟨r, returned, same⟩ := Option.map_eq_some_iff.mp done
    cases same
    exact truncate_outcome path len returned
  | ftruncate fd len =>
    obtain ⟨r, returned, same⟩ := Option.map_eq_some_iff.mp done
    cases same
    exact ftruncate_outcome fd len returned
  | close fd =>
    cases done
    exact ⟨fun _ => close_effect fs fd, by intro rows; cases rows⟩
  | unlink path => cases done; exact unlink_outcome fs path
  | rename old new => cases done; exact rename_outcome fs old new
  | mkdir path mode => cases done; exact mkdir_outcome fs path mode
  | rmdir path => cases done; exact rmdir_outcome fs path
  | getdents64 fd count => cases done; exact getdents64_outcome fs fd count

theorem call_effect (sound : Sound fs) {c : Call} {fs' : State} {r : Reply}
    (done : fs.call c = some (fs', r)) : Effect fs c fs' r.code := (call_outcome done).effect sound

end Calls

end TynKernel.Tmpfs
