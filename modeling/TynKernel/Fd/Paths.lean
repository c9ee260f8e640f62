import TynKernel.Fd.Syscalls
import TynKernel.Tmpfs.Access
import TynKernel.Tmpfs.Identity

/-!
The system calls that take a path. All of them copy the path into a buffer of 256 bytes, and
go on with the first 255 bytes if it is longer.
-/
namespace TynKernel.Fd
open Bytes List Tmpfs Weights

def access (fs : Tmpfs.State) (path : Tmpfs.Path) : Int :=
  if (fs.nodes.lookup (norm path)).isSome then 0 else enoent

/-- The calls with a path, each with the user string. The variants with a directory descriptor,
    which they ignore, are the same. -/
inductive PathCall where
  | open_ (user : List UInt8) (flags mode : Nat)
  | stat (user : List UInt8)
  | access (user : List UInt8)
  | truncate (user : List UInt8) (len : UInt64)
  | rename (old new : List UInt8)
  | mkdir (user : List UInt8) (mode : Nat)
  | rmdir (user : List UInt8)
  | unlink (user : List UInt8)
  | unlinkat (user : List UInt8) (flags : Nat)
  deriving DecidableEq, Repr

def owned (t : Tables) (path : Tmpfs.Path) (refusal : Int) (act : Tmpfs.State → Tmpfs.State × Int) :
    Option (Tables × Int) :=
  if ownsPath path then some ({ t with tmpfs := (act t.tmpfs).1 }, (act t.tmpfs).2)
  else some (t, refusal)

def eacces : Int := -13
def exdev : Int := -18

def atRemovedir : Nat := 0x200

def pathCall (t : Tables) : PathCall → Option (Tables × Int)
  | .open_ user flags mode => sysOpen t user flags mode
  | .stat user => (sysStat t user).map fun r => (r.1, r.2.1)
  | .access user => owned t (copyPath user) enoent fun fs => (fs, access fs (copyPath user))
  | .truncate user len =>
    if ownsPath (copyPath user) then
      (t.tmpfs.truncate (copyPath user) len.toNat).map fun r => ({ t with tmpfs := r.1 }, r.2)
    else some (t, eacces)
  | .rename old new =>
    if ownsPath (copyPath old) ∧ ownsPath (copyPath new) then
      some ({ t with tmpfs := (t.tmpfs.rename (copyPath old) (copyPath new)).1 },
        (t.tmpfs.rename (copyPath old) (copyPath new)).2)
    else some (t, exdev)
  | .mkdir user mode => owned t (copyPath user) eacces fun fs => fs.mkdir (copyPath user) mode
  | .rmdir user => owned t (copyPath user) eacces fun fs => fs.rmdir (copyPath user)
  | .unlink user => owned t (copyPath user) eacces fun fs => fs.unlink (copyPath user)
  | .unlinkat user flags =>
    owned t (copyPath user) eacces fun fs =>
      if flags &&& atRemovedir ≠ 0 then fs.rmdir (copyPath user) else fs.unlink (copyPath user)

def whole (user : List UInt8) : List UInt8 := user.takeWhile (· ≠ 0)

def PathCall.strings : PathCall → List (List UInt8)
  | .open_ user _ _ | .stat user | .access user | .truncate user _ | .mkdir user _ | .rmdir user
  | .unlink user | .unlinkat user _ => [user]
  | .rename old new => [old, new]

def PathCall.used (c : PathCall) : List Tmpfs.Path := c.strings.map fun user => norm (copyPath user)

def PathCall.named (c : PathCall) : List Tmpfs.Path := c.strings.map fun user => norm (whole user)

def PathCall.Uncut (c : PathCall) : Prop :=
  ∀ user ∈ c.strings, ∀ b ∈ (whole user).drop 255, b = 47

/-- The call works on the nodes that its strings name, or fails and changes nothing. -/
def Honest (t : Tables) (c : PathCall) : Prop :=
  c.used = c.named ∨ ∃ code, pathCall t c = some (t, code) ∧ code < 0

variable {o nw : Tmpfs.Path} {r : Tmpfs.State × Int} {refusal code : Int} {user : List UInt8}
  {c : PathCall}

theorem used_eq_named (c : PathCall) : c.used = c.named ↔ c.Uncut := by
  have each (user : List UInt8) :
      norm (copyPath user) = norm (whole user) ↔ ∀ b ∈ (whole user).drop 255, b = 47 := by
    by_cases long : 255 ≤ (whole user).length
    · have front : 2 ≤ ((whole user).take 255).length := by
        rw [length_take]
        omega
      have cut := norm_append front ((whole user).drop 255)
      rw [take_append_drop] at cut
      exact cut
    · have short : (whole user).length ≤ 255 := by omega
      have same : copyPath user = whole user := take_of_length_le short
      simp [same, drop_eq_nil_of_le short]
  unfold PathCall.used PathCall.named PathCall.Uncut
  rw [map_inj_left]
  exact forall₂_congr fun user _ => each user

def Refused (fs : Tmpfs.State) (r : Tmpfs.State × Int) : Prop := r.1 = fs ∧ r.2 < 0

/-- An exclusive open of a file that is there, one of a directory for writing, or one of a file as
    a directory; and for a path without a node, one that does not make a file or has no directory
    to make it in. -/
def OpenMisses (fs : Tmpfs.State) (name : Tmpfs.Path) (flags : Nat) : Prop :=
  maxOpen ≤ fs.opens.length ∨
    match fs.kind name with
    | some true => (flags &&& oCreat ≠ 0 ∧ flags &&& oExcl ≠ 0) ∨
      flags &&& 0o3 = oWronly ∨ flags &&& 0o3 = oRdwr
    | some false => (flags &&& oCreat ≠ 0 ∧ flags &&& oExcl ≠ 0) ∨ flags &&& oDirectory ≠ 0
    | none => flags &&& oCreat = 0 ∨ flags &&& oDirectory ≠ 0 ∨
      fs.kind (Tmpfs.parent name) ≠ some true

/-- The source is not there, or the directory of the destination, or the destination is of another
    kind or a directory in use; or there is no destination, and the source is a directory in use. -/
def RenameMisses (fs : Tmpfs.State) (o nw : Tmpfs.Path) : Prop :=
  o ≠ nw ∧ (fs.kind o = none ∨ fs.kind (Tmpfs.parent nw) ≠ some true ∨
    (fs.kind nw ≠ none ∧ fs.kind nw ≠ fs.kind o) ∨
    (fs.kind nw = some true ∧ hasChildren fs.nodes nw = true) ∨
    (fs.kind nw = none ∧ fs.kind o = some true ∧ hasChildren fs.nodes o = true))

def RmdirMisses (fs : Tmpfs.State) (name : Tmpfs.Path) : Prop :=
  (name = text "/tmp" ∨ name = text "/dev/shm") ∨ fs.kind name ≠ some true ∨
    hasChildren fs.nodes name = true

section Refusals
variable (fs : Tmpfs.State) (path : Tmpfs.Path)

theorem unlink_refused : Refused fs (fs.unlink path) ↔ fs.kind (norm path) ≠ some false := by
  unfold Refused State.unlink State.kind
  cases found : fs.nodes.lookup (norm path) with
  | none => simp [found, enoent]
  | some node => cases dir : node.isDir <;> simp [found, dir, eisdir]

theorem rmdir_refused : Refused fs (fs.rmdir path) ↔ RmdirMisses fs (norm path) := by
  unfold Refused RmdirMisses State.rmdir State.kind
  by_cases mount : norm path = text "/tmp" ∨ norm path = text "/dev/shm"
  · simp [mount, eperm]
  simp only [mount, if_false, false_or]
  cases found : fs.nodes.lookup (norm path) with
  | none => simp [enoent]
  | some node =>
    cases dir : node.isDir <;> cases busy : hasChildren fs.nodes (norm path) <;>
      simp [dir, enotdir, enotempty]

theorem mkdir_refused (mode : Nat) : Refused fs (fs.mkdir path mode) ↔
    fs.kind (norm path) ≠ none ∨ fs.kind (Tmpfs.parent (norm path)) ≠ some true := by
  unfold Refused State.mkdir State.kind
  cases found : fs.nodes.lookup (norm path) with
  | some => simp [found, eexist]
  | none =>
    cases above : fs.nodes.lookup (Tmpfs.parent (norm path)) with
    | none => simp [found, above, enoent]
    | some up => cases dir : up.isDir <;> simp [found, above, dir, enotdir]

theorem access_refused : access fs path < 0 ↔ fs.kind (norm path) = none := by
  unfold access State.kind
  cases fs.nodes.lookup (norm path) <;> simp [enoent]

theorem truncate_refused (len : Nat) :
    (∃ code, fs.truncate path len = some (fs, code) ∧ code < 0) ↔ ¬ fs.Resizes (norm path) len := by
  have passed : fs.truncate path len = fs.resizePath (norm path) len := by
    unfold State.truncate State.resizePath
    cases fs.nodes.lookup (norm path) <;> rfl
  rw [passed]
  rcases resizePath_fails fs (norm path) len with ⟨refused, beyond⟩ | ⟨returns, fits⟩
  · exact ⟨fun _ => beyond, fun _ => refused⟩
  constructor
  · rintro ⟨code, done, error⟩
    have zero : code = 0 := returns _ done
    omega
  · intro refused
    exact absurd fits refused

theorem open_refused (flags mode : Nat) :
    Refused fs (fs.open_ path flags mode) ↔ OpenMisses fs (norm path) flags := by
  have misses : OpenMisses fs (norm path) flags ↔ fs.admits path flags = false := by
    unfold OpenMisses State.admits State.kind
    cases fs.nodes.lookup (norm path) with
    | some node => cases dir : node.isDir <;> simp [dir, imp_iff_not_or]
    | none =>
      cases fs.nodes.lookup (Tmpfs.parent (norm path)) <;> simp [imp_iff_not_or]
  rw [misses]
  rcases open_cases fs path flags mode with
    ⟨closed, code, refused, error, _⟩ | ⟨admitted, _, pos, _, _, _, pushed, ready⟩
  · rw [refused]
    exact ⟨fun _ => closed, fun _ => ⟨rfl, error⟩⟩
  rw [pushed, admitted]
  refine ⟨fun refused => ?_, fun closed => by cases closed⟩
  have opens := (ready_push ready pos).1
  rw [refused.1] at opens
  exact absurd (congrArg List.length opens) (by simp)

theorem erased_kept {fs : Tmpfs.State} {src dst : Node} {total : Nat}
    (target : fs.nodes.lookup nw = some dst) :
    ¬ Refused fs (State.move { fs with nodes := fs.nodes.erase nw, total := total } o nw src) := by
  unfold State.move
  split
  · rintro ⟨same, _⟩
    have gone := congrArg (fun s : Tmpfs.State => s.nodes.lookup nw) same
    simp only [AList.lookup_erase, target] at gone
    cases gone
  · rintro ⟨_, error⟩
    exact Int.lt_irrefl 0 error

theorem rename_refused (new : Tmpfs.Path) :
    Refused fs (fs.rename path new) ↔ RenameMisses fs (norm path) (norm new) := by
  have refusal {code : Int} (error : code < 0) : Refused fs (fs, code) := ⟨rfl, error⟩
  unfold State.rename RenameMisses
  by_cases same : norm path = norm new
  · simp [same, Refused]
  simp only [ne_eq, same, not_false_eq_true, if_false, true_and]
  cases source : fs.nodes.lookup (norm path) with
  | none =>
    have absent : fs.kind (norm path) = none := by rw [State.kind, source]; rfl
    exact ⟨fun _ => .inl absent, fun _ => refusal (by decide)⟩
  | some src =>
    have kindSrc : fs.kind (norm path) = some src.isDir := by rw [State.kind, source]; rfl
    simp only [kindSrc, reduceCtorEq, false_or]
    cases above : fs.nodes.lookup (Tmpfs.parent (norm new)) with
    | none =>
      have absent : fs.kind (Tmpfs.parent (norm new)) = none := by rw [State.kind, above]; rfl
      simpa [absent] using refusal (by decide : enoent < 0)
    | some up =>
      have kindUp : fs.kind (Tmpfs.parent (norm new)) = some up.isDir := by
        rw [State.kind, above]
        rfl
      cases dir : up.isDir with
      | false => simpa [kindUp, dir] using refusal (by decide : enotdir < 0)
      | true =>
        simp only [kindUp, dir, not_true_eq_false, if_false, false_or]
        cases target : fs.nodes.lookup (norm new) with
        | none =>
          have kindDst : fs.kind (norm new) = none := by rw [State.kind, target]; rfl
          simp only [kindDst]
          unfold State.move
          split
          · rename_i busy
            simpa [busy.1, busy.2] using refusal (by decide : einval < 0)
          · rename_i free
            simpa [Refused] using free
        | some dst =>
          have kindDst : fs.kind (norm new) = some dst.isDir := by rw [State.kind, target]; rfl
          simp only [kindDst, Option.some.injEq, reduceCtorEq, not_false_eq_true, true_and,
            false_and, or_false]
          by_cases alike : dst.isDir = src.isDir
          · simp only [alike, not_true_eq_false, if_false, false_or]
            cases inner : src.isDir with
            | true =>
              simp only [if_true, true_and]
              split
              · rename_i busy
                exact ⟨fun _ => busy, fun _ => refusal (by decide)⟩
              · rename_i vacant
                refine ⟨fun refused => ?_, fun busy => absurd busy vacant⟩
                exact absurd refused (erased_kept target)
            | false =>
              simp only [Bool.false_eq_true, if_false, false_and, iff_false]
              exact erased_kept target
          · simp only [alike, not_false_eq_true, if_true, true_or, iff_true]
            exact refusal (by split <;> decide)

end Refusals

def ArchiveMisses (v : Vfs.State) (path : Tmpfs.Path) (slot : Prop) : Prop :=
  Vfs.cpioLookup v.archive path = some none ∧
    (Vfs.isDirPrefix v.archive path = some false ∨
      (Vfs.isDirPrefix v.archive path = some true ∧ slot))

def Misses (t : Tables) : PathCall → Prop
  | .open_ user flags _ =>
    let path := copyPath user
    ¬ isSpecial path ∧ isSynthFile path = false ∧ isSynthDir path = false ∧
      if ownsPath path then OpenMisses t.tmpfs (norm path) flags
      else ArchiveMisses t.vfs path (∀ slot ∈ t.vfs.dirSlots.cells, slot.fd ≠ -1)
  | .stat user =>
    let path := copyPath user
    if ownsPath path then t.tmpfs.kind (norm path) = none
    else ¬ isSpecial path ∧ isSynthDir path = false ∧ ArchiveMisses t.vfs path False
  | .access user => ownsPath (copyPath user) = false ∨ t.tmpfs.kind (norm (copyPath user)) = none
  | .truncate user len =>
    ownsPath (copyPath user) = false ∨ ¬ t.tmpfs.Resizes (norm (copyPath user)) len.toNat
  | .rename old new => ¬ (ownsPath (copyPath old) ∧ ownsPath (copyPath new)) ∨
    RenameMisses t.tmpfs (norm (copyPath old)) (norm (copyPath new))
  | .mkdir user _ => ownsPath (copyPath user) = false ∨
    t.tmpfs.kind (norm (copyPath user)) ≠ none ∨
      t.tmpfs.kind (Tmpfs.parent (norm (copyPath user))) ≠ some true
  | .rmdir user => ownsPath (copyPath user) = false ∨ RmdirMisses t.tmpfs (norm (copyPath user))
  | .unlink user => ownsPath (copyPath user) = false ∨
    t.tmpfs.kind (norm (copyPath user)) ≠ some false
  | .unlinkat user flags => ownsPath (copyPath user) = false ∨
    if flags &&& atRemovedir ≠ 0 then RmdirMisses t.tmpfs (norm (copyPath user))
    else t.tmpfs.kind (norm (copyPath user)) ≠ some false

section Archive
variable {t : Tables}

def Fails (t : Tables) (r : Option (Tables × Int)) : Prop := ∃ code, r = some (t, code) ∧ code < 0

theorem tmpfs_fails :
    Fails t (some ({ t with tmpfs := r.1 }, r.2)) ↔ Refused t.tmpfs r := by
  constructor
  · rintro ⟨code, same, error⟩
    obtain ⟨tables, number⟩ := Prod.mk.inj (Option.some.inj same)
    exact ⟨congrArg Tables.tmpfs tables, number ▸ error⟩
  · rintro ⟨same, error⟩
    exact ⟨r.2, by rw [same], error⟩

theorem owned_fails (error : refusal < 0) (act : Tmpfs.State → Tmpfs.State × Int) :
    Fails t (owned t path refusal act) ↔
      ownsPath path = false ∨ Refused t.tmpfs (act t.tmpfs) := by
  unfold owned
  cases owns : ownsPath path with
  | true =>
    simp only [if_true, Bool.true_eq_false, false_or]
    exact tmpfs_fails
  | false =>
    simp only [Bool.false_eq_true, if_false, true_or, iff_true]
    exact ⟨refusal, rfl, error⟩

theorem install_spends (v : Vfs.State) (dataOffset dataLen pos : Nat) :
    (v.install dataOffset dataLen pos).1.nextVfsFd ≠ v.nextVfsFd := by
  rw [(Vfs.install_rest v dataOffset dataLen pos).2.2]
  omega

theorem openDir_next (v : Vfs.State) (path : Tmpfs.Path) :
    (v.openDir path).1.nextVfsFd = v.nextVfsFd := by
  unfold Vfs.State.openDir
  split <;> rfl

theorem spent_not_fails (spent : v.nextVfsFd ≠ t.vfs.nextVfsFd) :
    ¬ Fails t (some ({ t with vfs := v }, code)) := by
  rintro ⟨_, same, _⟩
  obtain ⟨tables, _⟩ := Prod.mk.inj (Option.some.inj same)
  exact spent (congrArg (fun t : Tables => t.vfs.nextVfsFd) tables)

theorem openDir_fails (t : Tables) (path : Tmpfs.Path) :
    Fails t (some ({ t with vfs := (t.vfs.openDir path).1 }, (t.vfs.openDir path).2)) ↔
      ∀ slot ∈ t.vfs.dirSlots.cells, slot.fd ≠ -1 := by
  unfold Vfs.State.openDir
  cases free : t.vfs.dirSlots.cells.findIdx? fun slot => slot.fd = -1 with
  | none =>
    have used := findIdx?_eq_none_iff.mp free
    simp only [decide_eq_false_iff_not] at used
    exact ⟨fun _ => used, fun _ => ⟨-24, rfl, by decide⟩⟩
  | some i =>
    constructor
    · rintro ⟨code, same, error⟩
      obtain ⟨_, number⟩ := Prod.mk.inj (Option.some.inj same)
      have base : code = Vfs.dirFdBase + (i : Int) := number.symm
      rw [base, Vfs.dirFdBase] at error
      omega
    · intro used
      obtain ⟨inside, test, _⟩ := findIdx?_eq_some_iff_getElem.mp free
      exact absurd (of_decide_eq_true test) (used _ (getElem_mem inside))

theorem answered_iff (valid : 0 ≤ code) (there : ¬ P) : Fails t (some (t, code)) ↔ P := by
  refine ⟨?_, fun misses => absurd misses there⟩
  rintro ⟨code', same, error⟩
  obtain ⟨_, number⟩ := Prod.mk.inj (Option.some.inj same)
  omega

theorem open_fails (t : Tables) (user : List UInt8) (flags mode : Nat) :
    Fails t (sysOpen t user flags mode) ↔ Misses t (.open_ user flags mode) := by
  unfold sysOpen
  simp only [Misses]
  generalize copyPath user = path
  by_cases null : path = text "/dev/null"
  · rw [if_pos null]
    exact answered_iff (by decide) fun misses => misses.1 (.inl null)
  rw [if_neg null]
  by_cases random : path = text "/dev/urandom" ∨ path = text "/dev/random"
  · rw [if_pos random]
    exact answered_iff (by decide) fun misses => misses.1 (.inr (.inl random))
  rw [if_neg random]
  by_cases resolv : path = text "/tyn/resolv.conf"
  · rw [if_pos resolv]
    exact answered_iff (by decide) fun misses => misses.1 (.inr (.inr resolv))
  rw [if_neg resolv]
  have plain : ¬ isSpecial path := by simp [isSpecial, null, random, resolv]
  cases file : isSynthFile path with
  | true =>
    exact answered_iff (by decide) fun misses => absurd misses.2.1 (by decide)
  | false =>
    cases dir : isSynthDir path with
    | true =>
      exact answered_iff (by decide) fun misses => absurd misses.2.2.1 (by decide)
    | false =>
      simp only [plain, not_false_eq_true, Bool.false_eq_true, if_false, true_and]
      cases owns : ownsPath path with
      | true =>
        simp only [if_true]
        rw [tmpfs_fails, open_refused]
      | false =>
        simp only [Bool.false_eq_true, if_false, ArchiveMisses, openArchive, Vfs.State.open_]
        cases look : Vfs.cpioLookup t.vfs.archive path with
        | none =>
          simp only [Option.map_none, reduceCtorEq, false_and, iff_false]
          rintro ⟨_, stopped, _⟩
          cases stopped
        | some found =>
          cases found with
          | none =>
            simp only [Option.map_some, true_and]
            cases below : Vfs.isDirPrefix t.vfs.archive path with
            | none =>
              simp only [reduceCtorEq, false_and, or_self, iff_false]
              rintro ⟨_, stopped, _⟩
              cases stopped
            | some isDir =>
              cases isDir with
              | true =>
                simp only [Option.some.injEq, Bool.true_eq_false, true_and, false_or]
                exact openDir_fails t path
              | false =>
                simp only [true_or, iff_true]
                exact ⟨-2, rfl, by decide⟩
          | some place =>
            have spends := install_spends t.vfs place.1 place.2 0
            simp only [Option.map_some, Option.some.injEq, reduceCtorEq, false_and, iff_false]
            split
            · exact spent_not_fails spends
            split
            · rintro ⟨_, stopped, _⟩
              cases stopped
            · apply spent_not_fails
              rw [openDir_next]
              exact spends
            · exact spent_not_fails spends

theorem stat_fails (t : Tables) (user : List UInt8) :
    Fails t ((sysStat t user).map fun r => (r.1, r.2.1)) ↔ Misses t (.stat user) := by
  unfold sysStat
  simp only [Misses]
  generalize copyPath user = path
  cases owns : ownsPath path with
  | true =>
    simp only [if_true, State.stat, State.kind]
    cases t.tmpfs.nodes.lookup (norm path) with
    | none => exact ⟨fun _ => rfl, fun _ => ⟨-2, rfl, by decide⟩⟩
    | some => exact answered_iff (Int.le_refl 0) (by simp)
  | false =>
    simp only [Bool.false_eq_true, if_false]
    by_cases device : path = text "/dev/urandom" ∨ path = text "/dev/random" ∨
        path = text "/dev/null"
    · rw [if_pos device]
      refine answered_iff (Int.le_refl 0) fun misses => misses.1 ?_
      rcases device with same | same | same
      · exact .inr (.inl (.inl same))
      · exact .inr (.inl (.inr same))
      · exact .inl same
    rw [if_neg device]
    by_cases resolv : path = text "/tyn/resolv.conf"
    · rw [if_pos resolv]
      exact answered_iff (Int.le_refl 0) fun misses => misses.1 (.inr (.inr resolv))
    rw [if_neg resolv]
    have plain : ¬ isSpecial path := by
      rintro (same | (same | same) | same)
      · exact device (.inr (.inr same))
      · exact device (.inl same)
      · exact device (.inr (.inl same))
      · exact resolv same
    simp only [plain, not_false_eq_true, true_and, ArchiveMisses, statArchive, Vfs.State.open_,
      and_false, or_false]
    cases look : Vfs.cpioLookup t.vfs.archive path with
    | none =>
      simp only [Option.map_none, reduceCtorEq, false_and, and_false, iff_false]
      rintro ⟨_, stopped, _⟩
      cases stopped
    | some found =>
      cases found with
      | none =>
        simp only [Option.map_some, true_and]
        cases below : Vfs.isDirPrefix t.vfs.archive path with
        | none =>
          simp only [reduceCtorEq, and_false, iff_false]
          rintro ⟨_, stopped, _⟩
          cases stopped
        | some isDir =>
          cases isDir with
          | true => exact answered_iff (Int.le_refl 0) (by simp)
          | false =>
            cases dir : isSynthDir path with
            | true => exact answered_iff (Int.le_refl 0) (by simp)
            | false => exact ⟨fun _ => ⟨rfl, rfl⟩, fun _ => ⟨-2, rfl, by decide⟩⟩
      | some place =>
        have spends := install_spends t.vfs place.1 place.2 0
        simp only [Option.map_some, Option.some.injEq, reduceCtorEq, false_and, and_false,
          iff_false]
        split
        · apply spent_not_fails
          rw [(Vfs.close_rest _ _).2.2]
          exact spends
        · split
          · rintro ⟨_, stopped, _⟩
            cases stopped
          · split
            · exact spent_not_fails spends
            · exact spent_not_fails spends

theorem truncate_fails (t : Tables) (user : List UInt8) (len : UInt64) :
    Fails t (pathCall t (.truncate user len)) ↔ Misses t (.truncate user len) := by
  simp only [pathCall, Misses]
  cases owns : ownsPath (copyPath user) with
  | false =>
    simp only [Bool.false_eq_true, if_false, true_or, iff_true]
    exact ⟨eacces, rfl, by decide⟩
  | true =>
    simp only [if_true, Bool.true_eq_false, false_or]
    rw [← truncate_refused]
    constructor
    · rintro ⟨code, done, error⟩
      obtain ⟨r, returned, same⟩ := Option.map_eq_some_iff.mp done
      obtain ⟨tables, number⟩ := Prod.mk.inj same
      have kept : r.1 = t.tmpfs := congrArg Tables.tmpfs tables
      refine ⟨code, ?_, error⟩
      rw [returned, ← kept, ← number]
    · rintro ⟨code, done, error⟩
      exact ⟨code, by rw [done]; rfl, error⟩

theorem fails_iff_misses (t : Tables) (c : PathCall) : Fails t (pathCall t c) ↔ Misses t c := by
  cases c with
  | open_ user flags mode => exact open_fails t user flags mode
  | stat user => exact stat_fails t user
  | access =>
    rw [pathCall, owned_fails (by decide), Misses, ← access_refused]
    simp [Refused]
  | truncate user len => exact truncate_fails t user len
  | rename old new =>
    simp only [pathCall, Misses]
    by_cases owns : ownsPath (copyPath old) = true ∧ ownsPath (copyPath new) = true
    · simp only [owns, and_self, if_true, not_true_eq_false, false_or]
      rw [tmpfs_fails, rename_refused]
    · simp only [owns, if_false, not_false_eq_true, true_or, iff_true]
      exact ⟨exdev, rfl, by decide⟩
  | mkdir => rw [pathCall, owned_fails (by decide), mkdir_refused, Misses]
  | rmdir => rw [pathCall, owned_fails (by decide), rmdir_refused, Misses]
  | unlink => rw [pathCall, owned_fails (by decide), unlink_refused, Misses]
  | unlinkat =>
    rw [pathCall, owned_fails (by decide), Misses]
    split
    · rw [rmdir_refused]
    · rw [unlink_refused]

end Archive

section Frame
variable (fs : Tmpfs.State) (path : Tmpfs.Path) {p : Tmpfs.Path}

theorem open_frame (flags mode : Nat) (other : p ≠ norm path) :
    (fs.open_ path flags mode).1.nodes.lookup p = fs.nodes.lookup p := by
  rcases open_cases fs path flags mode with
    ⟨_, code, refused, _⟩ | ⟨_, _, pos, _, _, _, pushed, ready⟩
  · rw [refused]
  · rw [pushed]
    cases ready with
    | dir | file => rfl
    | emptied | created => exact AList.lookup_insert_ne other

theorem truncate_frame (done : fs.truncate path len = some r) (other : p ≠ norm path) :
    r.1.nodes.lookup p = fs.nodes.lookup p := by
  unfold State.truncate at done
  split at done
  · cases done
    rfl
  rcases resizePath_cases fs (norm path) len with
    ⟨_, _, refused, _⟩ | ⟨_, _, _, _, _, resized⟩
  · cases refused.symm.trans done
    rfl
  rw [resized] at done
  split at done
  · cases done
  · cases done
    exact AList.lookup_insert_ne other

theorem move_frame (src : Node) (notOld : p ≠ o) (notNew : p ≠ nw) :
    (fs.move o nw src).1.nodes.lookup p = fs.nodes.lookup p := by
  unfold State.move
  split
  · rfl
  · rw [AList.lookup_insert_ne notNew, AList.lookup_erase_ne notOld]

theorem rename_frame (new : Tmpfs.Path) (notOld : p ≠ norm path) (notNew : p ≠ norm new) :
    (fs.rename path new).1.nodes.lookup p = fs.nodes.lookup p := by
  unfold State.rename
  simp only
  split
  · rfl
  split
  · rfl
  split
  · rfl
  split
  · rfl
  split
  · exact move_frame fs _ notOld notNew
  split
  · rfl
  split
  · split
    · rfl
    · rw [move_frame _ _ notOld notNew]
      exact AList.lookup_erase_ne notNew
  · rw [move_frame _ _ notOld notNew]
    exact AList.lookup_erase_ne notNew

theorem mkdir_frame (mode : Nat) (other : p ≠ norm path) :
    (fs.mkdir path mode).1.nodes.lookup p = fs.nodes.lookup p := by
  unfold State.mkdir
  simp only
  split
  · rfl
  split
  · rfl
  split
  · rfl
  · exact AList.lookup_insert_ne other

theorem rmdir_frame (other : p ≠ norm path) :
    (fs.rmdir path).1.nodes.lookup p = fs.nodes.lookup p := by
  unfold State.rmdir
  simp only
  split
  · rfl
  split
  · rfl
  split
  · rfl
  split
  · rfl
  · exact AList.lookup_erase_ne other

theorem unlink_frame (other : p ≠ norm path) :
    (fs.unlink path).1.nodes.lookup p = fs.nodes.lookup p := by
  unfold State.unlink
  simp only
  split
  · rfl
  split
  · rfl
  · exact AList.lookup_erase_ne other

end Frame

section Calls
variable {t t' : Tables} {p : Tmpfs.Path}

theorem owned_frame (done : owned t path refusal act = some (t', code))
    (frame : (act t.tmpfs).1.nodes.lookup p = t.tmpfs.nodes.lookup p) :
    t'.tmpfs.nodes.lookup p = t.tmpfs.nodes.lookup p := by
  unfold owned at done
  split at done
  · cases done
    exact frame
  · cases done
    rfl

theorem sysOpen_frame (done : sysOpen t user flags mode = some (t', code))
    (other : p ≠ norm (copyPath user)) : t'.tmpfs.nodes.lookup p = t.tmpfs.nodes.lookup p := by
  unfold sysOpen at done
  simp only at done
  split at done
  · cases done
    rfl
  split at done
  · cases done
    rfl
  split at done
  · cases done
    rfl
  split at done
  · cases done
    rfl
  split at done
  · cases done
    rfl
  split at done
  · cases done
    exact open_frame t.tmpfs _ flags mode other
  unfold openArchive at done
  split at done
  · cases done
  split at done
  · cases done
    rfl
  split at done
  · cases done
  · cases done
    rfl
  · cases done
    rfl

theorem sysStat_frame {r : Tables × Int × Option Stat} (done : sysStat t user = some r) :
    r.1.tmpfs = t.tmpfs := by
  unfold sysStat at done
  simp only at done
  split at done
  · split at done
    · cases done
      rfl
    · cases done
      rfl
  split at done
  · cases done
    rfl
  split at done
  · cases done
    rfl
  unfold statArchive at done
  split at done
  · cases done
  split at done
  · cases done
    rfl
  split at done
  · cases done
  split at done
  · cases done
    rfl
  · cases done
    rfl

theorem used_one (one : c.strings = [user]) (other : p ∉ c.used) : p ≠ norm (copyPath user) := by
  simpa [PathCall.used, one] using other

theorem pathCall_frame (done : pathCall t c = some (t', code)) (other : p ∉ c.used) :
    t'.tmpfs.nodes.lookup p = t.tmpfs.nodes.lookup p := by
  cases c with
  | open_ => exact sysOpen_frame done (used_one rfl other)
  | stat =>
    obtain ⟨r, returned, same⟩ := Option.map_eq_some_iff.mp done
    cases same
    rw [sysStat_frame returned]
  | access =>
    rw [pathCall] at done
    exact owned_frame done rfl
  | truncate =>
    simp only [pathCall] at done
    split at done
    · obtain ⟨r, returned, same⟩ := Option.map_eq_some_iff.mp done
      cases same
      exact truncate_frame t.tmpfs _ returned (used_one rfl other)
    · cases done
      rfl
  | rename =>
    simp only [PathCall.used, PathCall.strings, map_cons, map_nil, mem_cons,
      not_mem_nil, or_false, not_or] at other
    simp only [pathCall] at done
    split at done
    · cases done
      exact rename_frame t.tmpfs _ _ other.1 other.2
    · cases done
      rfl
  | mkdir user mode =>
    rw [pathCall] at done
    exact owned_frame done (mkdir_frame t.tmpfs _ mode (used_one rfl other))
  | rmdir =>
    rw [pathCall] at done
    exact owned_frame done (rmdir_frame t.tmpfs _ (used_one rfl other))
  | unlink =>
    rw [pathCall] at done
    exact owned_frame done (unlink_frame t.tmpfs _ (used_one rfl other))
  | unlinkat =>
    rw [pathCall] at done
    refine owned_frame done ?_
    split
    · exact rmdir_frame t.tmpfs _ (used_one rfl other)
    · exact unlink_frame t.tmpfs _ (used_one rfl other)

end Calls

/-- A call leaves every node of the writable file system that it does not work on. It works on the
    nodes that its strings name, or fails and changes nothing, exactly if nothing but slashes is
    cut off from them, or the nodes it works on are not such that it can act. -/
theorem path_calls_honest_iff (t : Tables) (c : PathCall) :
    (∀ t' code, pathCall t c = some (t', code) → ∀ p, p ∉ c.used →
      t'.tmpfs.nodes.lookup p = t.tmpfs.nodes.lookup p) ∧
    (Honest t c ↔ c.Uncut ∨ Misses t c) := by
  refine ⟨fun t' code done p other => pathCall_frame done other, ?_⟩
  exact or_congr (used_eq_named c) (fails_iff_misses t c)

def longPath : List UInt8 := text "/tmp/" ++ List.replicate 250 97

/-- Two paths of 256 bytes with names of their own remove one file, which has neither name. -/
theorem two_paths_one_file : ∃ t, pathCall (boot [] [] false) (.open_ longPath oCreat 0) =
      some (t, 4000) ∧ t.tmpfs.kind longPath = some false ∧
    ∀ b ∈ [98, 99], Tmpfs.norm (longPath ++ [b]) ≠ longPath ∧
      t.tmpfs.kind (Tmpfs.norm (longPath ++ [b])) = none ∧
      (pathCall t (.unlink (longPath ++ [b]))).map
        (fun r => (r.1.tmpfs.kind longPath, r.2)) = some (none, 0) := by
  have test : (pathCall (boot [] [] false) (.open_ longPath oCreat 0)).any (fun r =>
      decide (r.2 = 4000) && decide (r.1.tmpfs.kind longPath = some false ∧
        ∀ b ∈ [98, 99], Tmpfs.norm (longPath ++ [b]) ≠ longPath ∧
          r.1.tmpfs.kind (Tmpfs.norm (longPath ++ [b])) = none ∧
          (pathCall r.1 (.unlink (longPath ++ [b]))).map
            (fun r => (r.1.tmpfs.kind longPath, r.2)) = some (none, 0))) = true := by decide +kernel
  obtain ⟨⟨t, code⟩, opened, holds⟩ := (Option.any_eq_true _ _).mp test
  simp only [Bool.and_eq_true, decide_eq_true_eq] at holds
  exact ⟨t, by rw [opened, holds.1], holds.2⟩

end TynKernel.Fd
