import Mathlib.Data.List.AList
import TynKernel.Lib.Bytes
import TynKernel.Lib.Numbers

/-!
The writable file system at /tmp and /dev/shm: its nodes by path, and the table of open
descriptors, which have numbers from a counter of 32 bits.
-/
namespace TynKernel.Tmpfs
open Bytes Numbers

abbrev Path := List UInt8

def tmpfsFdBase : Int := 4000
def maxOpen : Nat := 256

def oWronly : Nat := 0o1
def oRdwr : Nat := 0o2
def oCreat : Nat := 0o100
def oExcl : Nat := 0o200
def oTrunc : Nat := 0o1000
def oAppend : Nat := 0o2000
def oDirectory : Nat := 0o200000

def enoent : Int := -2
def eexist : Int := -17
def enotdir : Int := -20
def eisdir : Int := -21
def emfile : Int := -24

structure Node where
  isDir : Bool
  data : List UInt8
  mode : Nat
  deriving DecidableEq, Repr

structure OpenFd where
  fd : Int
  path : Path
  pos : Nat
  append : Bool
  writable : Bool
  isDir : Bool
  dirPos : Nat
  deriving DecidableEq, Repr

structure State where
  nodes : AList fun _ : Path => Node
  total : Nat
  opens : List OpenFd
  nextFd : Int

def initial : State where
  nodes := ((∅ : AList fun _ : Path => Node).insert (text "/tmp") ⟨true, [], 0o777⟩).insert
    (text "/dev/shm") ⟨true, [], 0o777⟩
  total := 0
  opens := []
  nextFd := tmpfsFdBase

def wordSub (a b : Nat) : Nat := (a + 2 ^ 64 - b) % 2 ^ 64

def dropSlashes : Path → Path
  | [] => []
  | b :: rest =>
    match dropSlashes rest with
    | [] => if b = 47 then [] else [b]
    | kept => b :: kept

def norm (path : Path) : Path :=
  let p := if (text "./").isPrefixOf path then path.drop 1 else path
  let v := if (text "/").isPrefixOf p then p else text "/" ++ p
  match v with
  | [] => []
  | b :: rest => b :: dropSlashes rest

/-- The path up to its last slash, and the root if that is the first byte or there is none. -/
def parent (path : Path) : Path :=
  match (path.reverse.dropWhile (· ≠ 47)).drop 1 with
  | [] => text "/"
  | up => up.reverse

def ownsPath (path : Path) : Bool :=
  let n := norm path
  n == text "/tmp" || (text "/tmp/").isPrefixOf n || n == text "/dev/shm" ||
    (text "/dev/shm/").isPrefixOf n

namespace State

def isTmpfsFd (fs : State) (fd : Int) : Bool :=
  if fd < tmpfsFdBase then false else fs.opens.any fun o => o.fd = fd

def push (fs : State) (path : Path) (pos : Nat) (append writable isDir : Bool) : State × Int :=
  let fd := fs.nextFd
  ({ fs with
      nextFd := asI32 (fs.nextFd + 1)
      opens := fs.opens ++ [⟨fd, path, pos, append, writable, isDir, 0⟩] }, fd)

def stat (fs : State) (path : Path) : Option (Nat × Nat) :=
  (fs.nodes.lookup (norm path)).map fun node =>
    if node.isDir then (0o040000 ||| (node.mode &&& 0o7777), 4096)
    else (0o100000 ||| (node.mode &&& 0o7777), node.data.length)

def open_ (fs : State) (path : Path) (flags mode : Nat) : State × Int :=
  let n := norm path
  if maxOpen ≤ fs.opens.length then (fs, emfile)
  else
    let acc := flags &&& 0o3
    let writable : Bool := acc = oWronly || acc = oRdwr
    match fs.nodes.lookup n with
    | some node =>
      if flags &&& oCreat ≠ 0 ∧ flags &&& oExcl ≠ 0 then (fs, eexist)
      else if node.isDir then
        if writable then (fs, eisdir) else fs.push n 0 false false true
      else if flags &&& oDirectory ≠ 0 then (fs, enotdir)
      else
        let truncates := flags &&& oTrunc ≠ 0 ∧ writable
        let fs :=
          if truncates then
            { fs with
              total := wordSub fs.total node.data.length
              nodes := fs.nodes.insert n { node with data := [] } }
          else fs
        let append : Bool := flags &&& oAppend ≠ 0
        let pos := if append then (if truncates then 0 else node.data.length) else 0
        fs.push n pos append writable false
    | none =>
      if flags &&& oCreat = 0 then (fs, enoent)
      else if flags &&& oDirectory ≠ 0 then (fs, enoent)
      else
        match fs.nodes.lookup (parent n) with
        | some up =>
          if up.isDir then
            let perm := mode % 2 ^ 32 &&& 0o7777
            let perm := if perm = 0 then 0o644 else perm
            { fs with nodes := fs.nodes.insert n ⟨false, [], perm⟩ }.push n 0 false true false
          else (fs, enotdir)
        | none => (fs, enoent)

def close (fs : State) (fd : Int) : State :=
  if fd < tmpfsFdBase then fs
  else { fs with opens := fs.opens.eraseP fun o => o.fd = fd }

def descriptor (fs : State) (fd : Int) : Option OpenFd := fs.opens.find? fun o => o.fd = fd

def descriptors (fs : State) : List (Int × Path) := fs.opens.map fun o => (o.fd, o.path)

end State

/-- Whether open comes to its end: there is room in the table and the flags suit the node, or the
    directory of the new one. -/
def State.admits (fs : State) (path : Path) (flags : Nat) : Bool :=
  let acc := flags &&& 0o3
  let writable : Bool := acc = oWronly || acc = oRdwr
  decide (fs.opens.length < maxOpen) &&
    match fs.nodes.lookup (norm path) with
    | some node =>
      decide (¬ (flags &&& oCreat ≠ 0 ∧ flags &&& oExcl ≠ 0)) &&
        if node.isDir then !writable else decide (flags &&& oDirectory = 0)
    | none =>
      decide (flags &&& oCreat ≠ 0) && (decide (flags &&& oDirectory = 0) &&
        match fs.nodes.lookup (parent (norm path)) with
        | some up => up.isDir
        | none => false)

/-- The state before the descriptor is pushed, and the modes that it gets. -/
inductive Ready (fs : State) (path : Path) (flags : Nat) : State → Bool → Bool → Bool → Prop where
  | dir (node : Node) (present : fs.nodes.lookup (norm path) = some node)
      (isDir : node.isDir = true)
      (reads : (decide (flags &&& 0o3 = oWronly) || decide (flags &&& 0o3 = oRdwr)) = false) :
      Ready fs path flags fs false false true
  | file (node : Node) (present : fs.nodes.lookup (norm path) = some node)
      (isFile : node.isDir = false) :
      Ready fs path flags fs (flags &&& oAppend ≠ 0)
        (flags &&& 0o3 = oWronly || flags &&& 0o3 = oRdwr) false
  | emptied (node : Node) (present : fs.nodes.lookup (norm path) = some node)
      (isFile : node.isDir = false) (truncates : flags &&& oTrunc ≠ 0) :
      Ready fs path flags
        { fs with
          total := wordSub fs.total node.data.length
          nodes := fs.nodes.insert (norm path) { node with data := [] } }
        (flags &&& oAppend ≠ 0) (flags &&& 0o3 = oWronly || flags &&& 0o3 = oRdwr) false
  | created (up : Node) (perm : Nat) (absent : fs.nodes.lookup (norm path) = none)
      (creates : flags &&& oCreat ≠ 0)
      (above : fs.nodes.lookup (parent (norm path)) = some up) (dir : up.isDir = true) :
      Ready fs path flags { fs with nodes := fs.nodes.insert (norm path) ⟨false, [], perm⟩ }
        false true false

def Strays (fs : State) (path : Path) (flags : Nat) (code : Int) : Prop :=
  code = enoent ∨ code = enotdir → flags &&& oCreat = 0 ∨ flags &&& oDirectory ≠ 0 ∨
    ∀ up, fs.nodes.lookup (parent (norm path)) = some up → up.isDir = false

theorem open_cases (fs : State) (path : Path) (flags mode : Nat) :
    (fs.admits path flags = false ∧ ∃ code, fs.open_ path flags mode = (fs, code) ∧ code < 0 ∧
      Strays fs path flags code) ∨
    (fs.admits path flags = true ∧ ∃ fs₁ pos append writable isDir,
      fs.open_ path flags mode = fs₁.push (norm path) pos append writable isDir ∧
      Ready fs path flags fs₁ append writable isDir) := by
  unfold State.admits State.open_
  by_cases full : maxOpen ≤ fs.opens.length
  · exact .inl ⟨by simp [Nat.not_lt.mpr full], emfile, if_pos full, by decide,
      fun lost => absurd lost (by decide)⟩
  rw [if_neg full, decide_eq_true (Nat.not_le.mp full), Bool.true_and]
  cases found : fs.nodes.lookup (norm path) with
  | some node =>
    by_cases exclusive : flags &&& oCreat ≠ 0 ∧ flags &&& oExcl ≠ 0
    · exact .inl ⟨by simp [exclusive], eexist, if_pos exclusive, by decide,
        fun lost => absurd lost (by decide)⟩
    simp only [exclusive, if_false, not_false_eq_true, decide_true, Bool.true_and]
    by_cases dir : node.isDir = true
    · simp only [if_pos dir]
      cases writes : decide (flags &&& 0o3 = oWronly) || decide (flags &&& 0o3 = oRdwr) with
      | true => exact .inl ⟨rfl, eisdir, rfl, by decide, fun lost => absurd lost (by decide)⟩
      | false => exact .inr ⟨rfl, fs, 0, _, _, _, rfl, .dir node found dir writes⟩
    · simp only [if_neg dir]
      have isFile := Bool.eq_false_iff.mpr dir
      by_cases directory : flags &&& oDirectory = 0
      · refine .inr ⟨decide_eq_true directory, ?_⟩
        rw [if_neg (not_not_intro directory)]
        split
        · rename_i truncates
          exact ⟨_, _, _, _, _, rfl, .emptied node found isFile truncates.1⟩
        · exact ⟨_, _, _, _, _, rfl, .file node found isFile⟩
      · exact .inl ⟨decide_eq_false directory, enotdir, if_pos directory, by decide,
          fun _ => .inr (.inl directory)⟩
  | none =>
    by_cases creates : flags &&& oCreat = 0
    · exact .inl ⟨by simp [creates], enoent, if_pos creates, by decide, fun _ => .inl creates⟩
    simp only [creates, ne_eq, not_false_eq_true, if_false, decide_true, Bool.true_and]
    by_cases directory : flags &&& oDirectory = 0
    · simp only [directory, not_true_eq_false, if_false, decide_true, Bool.true_and]
      cases above : fs.nodes.lookup (parent (norm path)) with
      | none => exact .inl ⟨rfl, enoent, rfl, by decide, by simp [Strays, above]⟩
      | some up =>
        by_cases dir : up.isDir = true
        · simp only [if_pos dir]
          exact .inr ⟨dir, _, _, _, _, _, rfl, .created up _ found creates above dir⟩
        · exact .inl ⟨Bool.eq_false_iff.mpr dir, enotdir, if_neg dir, by decide,
            by simp [Strays, above, dir]⟩
    · exact .inl ⟨by simp [directory], enoent, if_pos directory, by decide,
        fun _ => .inr (.inl directory)⟩

theorem ready_push (ready : Ready fs path flags fs₁ append writable isDir) (pos : Nat) :
    (fs₁.push (norm path) pos append writable isDir).1.opens =
      fs.opens ++ [⟨fs.nextFd, norm path, pos, append, writable, isDir, 0⟩] ∧
    (fs₁.push (norm path) pos append writable isDir).1.nextFd = asI32 (fs.nextFd + 1) ∧
    (fs₁.push (norm path) pos append writable isDir).2 = fs.nextFd := by
  cases ready <;> exact ⟨rfl, rfl, rfl⟩

structure Numbered (fs : State) : Prop where
  issued : Issued tmpfsFdBase fs.nextFd (keys fs.descriptors)
  started : tmpfsFdBase ≤ fs.nextFd

theorem numbered_initial : Numbered initial := ⟨issued_nil .., Int.le_refl _⟩

structure Opened (fs : State) (path : Path) (result : State × Int) : Prop where
  number : 0 ≤ result.2 → result.2 = fs.nextFd ∧ result.1.nextFd = fs.nextFd + 1
  kept : result.2 < 0 → result.1.nextFd = fs.nextFd
  added : Added fs.descriptors path result.2 result.1.descriptors

theorem open_opened (path : Path) (flags mode : Nat) (numbered : Numbered fs)
    (room : fs.nextFd < 2 ^ 31 - 1) : Opened fs (norm path) (fs.open_ path flags mode) := by
  rcases open_cases fs path flags mode with
    ⟨_, code, refused, error, _⟩ | ⟨_, fs₁, pos, append, writable, isDir, pushed, ready⟩
  · rw [refused]
    exact ⟨fun valid => by omega, fun _ => rfl, .refused error rfl⟩
  obtain ⟨opens, next, number⟩ := ready_push ready pos
  have started := numbered.started
  rw [tmpfsFdBase] at started
  have counter : asI32 (fs.nextFd + 1) = fs.nextFd + 1 := asI32_of_lt (by omega) (by omega)
  rw [← pushed] at opens next number
  refine ⟨fun _ => ⟨number, next.trans counter⟩, fun error => by omega, .put (by omega) ?_⟩
  rw [number, State.descriptors, opens, List.map_append]
  exact List.perm_append_comm

section
variable (numbered : Numbered fs)
include numbered

theorem opened_numbered (opened : Opened fs path result) :
    Numbered result.1 := by
  by_cases valid : 0 ≤ result.2
  · obtain ⟨number, next⟩ := opened.number valid
    have started := numbered.started
    refine ⟨?_, by omega⟩
    rw [next]
    exact issued_added numbered.issued started opened.added fun _ => number
  · have error : result.2 < 0 := by omega
    have next := opened.kept error
    cases opened.added with
    | put valid' => exact absurd valid' valid
    | refused _ same =>
      refine ⟨?_, ?_⟩
      · rw [next, same]
        exact numbered.issued
      · rw [next]
        exact numbered.started

theorem close_taken (fd : Int) :
    Taken fs.descriptors fd (fs.close fd).descriptors := by
  unfold State.close
  split
  · refine .absent (fun member => ?_) (.refl _)
    have := numbered.issued.low fd member
    omega
  · exact taken_eraseP fs.opens OpenFd.fd OpenFd.path fd

theorem close_numbered (fd : Int) : Numbered (fs.close fd) := by
  have next : (fs.close fd).nextFd = fs.nextFd := by
    unfold State.close
    split <;> rfl
  refine ⟨?_, ?_⟩
  · rw [next]
    exact issued_taken numbered.issued (close_taken numbered fd)
  · rw [next]
    exact numbered.started

theorem descriptor_of_mem (member : (fd, path) ∈ fs.descriptors) :
    ∃ o, fs.descriptor fd = some o ∧ o.path = path := by
  have distinct := numbered.issued.distinct
  rw [State.descriptors, keys, List.map_map] at distinct
  exact find_entry distinct member

theorem isTmpfsFd_iff :
    fs.isTmpfsFd fd = true ↔ fd ∈ keys fs.descriptors := by
  have known : (fs.opens.any fun o => o.fd = fd) = true ↔ fd ∈ keys fs.descriptors := by
    simp [State.descriptors, keys]
  unfold State.isTmpfsFd
  split
  · constructor
    · intro no
      cases no
    · intro member
      have := numbered.issued.low fd member
      omega
  · exact known

end

example : norm (text "./tmp/x//") = text "/tmp/x" := by decide
example : parent (text "/tmp/a/b") = text "/tmp/a" := by decide

end TynKernel.Tmpfs
