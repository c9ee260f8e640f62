import Mathlib.Data.List.Sort
import TynKernel.Lib.Dirents
import TynKernel.Lib.Runs
import TynKernel.Tmpfs.Files

/-!
Reading, writing, resizing and renaming in the writable file system. Every call holds its lock
from beginning to end and is one step. A vector cannot have 2^63 bytes; resizing it to that
stops the kernel, which is the result none.
-/
namespace TynKernel.Tmpfs
open Bytes Dirents Numbers Runs

def cap : Nat := 4 * 1024 * 1024

def eperm : Int := -1
def ebadf : Int := -9
def einval : Int := -22
def enospc : Int := -28
def enotempty : Int := -39

def editFirst (fd : Int) (f : OpenFd → OpenFd) : List OpenFd → List OpenFd
  | [] => []
  | o :: rest => if o.fd = fd then f o :: rest else o :: editFirst fd f rest

def keyLe : Path → Path → Bool
  | [], _ => true
  | _ :: _, [] => false
  | a :: as, b :: bs => if a = b then keyLe as bs else decide (a.toNat < b.toNat)

namespace State

def edit (fs : State) (fd : Int) (f : OpenFd → OpenFd) : State :=
  { fs with opens := editFirst fd f fs.opens }

def lengthAt (fs : State) (path : Path) : Nat :=
  ((fs.nodes.lookup path).map fun node => node.data.length).getD 0

/-- The most bytes that may be written at an offset into a file of a length: a gap behind the end
    counts as growth, and what lies before the end is free. -/
def maxN (fs : State) (len pos : Nat) : Nat :=
  let allowedGrow := cap - fs.total
  if len ≤ pos then allowedGrow - (pos - len) else (len - pos) + allowedGrow

def writeAt (fs : State) (path : Path) (pos : Nat) (buf : List UInt8) : State × Int :=
  match fs.nodes.lookup path with
  | none => (fs, enoent)
  | some node =>
    if node.isDir then (fs, eisdir)
    else if buf.length = 0 then (fs, 0)
    else
      let len := node.data.length
      let n := min buf.length (fs.maxN len pos)
      if n = 0 then (fs, enospc)
      else
        let newEnd := (pos + n) % 2 ^ 64
        let grow := newEnd - len
        -- the gap and the tail are zeros before the bytes are copied
        let room := node.data ++ List.replicate grow 0
        ({ fs with
            nodes := fs.nodes.insert path
              { node with data := room.take pos ++ (buf.take n ++ room.drop newEnd) }
            total := if len < newEnd then (fs.total + grow) % 2 ^ 64 else fs.total }, n)

def write (fs : State) (fd : Int) (buf : List UInt8) : State × Int :=
  match fs.descriptor fd with
  | none => (fs, ebadf)
  | some o =>
    if ¬ o.writable ∨ o.isDir then (fs, ebadf)
    else
      let pos := if o.append then fs.lengthAt o.path else o.pos
      let r := fs.writeAt o.path pos buf
      if 0 < r.2 then
        (r.1.edit fd fun o => { o with pos := (pos + r.2.toNat) % 2 ^ 64 }, r.2)
      else r

def pwrite (fs : State) (fd : Int) (buf : List UInt8) (offset : Nat) : State × Int :=
  match fs.descriptor fd with
  | none => (fs, ebadf)
  | some o => if ¬ o.writable ∨ o.isDir then (fs, ebadf) else fs.writeAt o.path offset buf

def readAt (node : Node) (pos count : Nat) : List UInt8 :=
  if node.data.length ≤ pos then [] else (node.data.drop pos).take count

def read (fs : State) (fd : Int) (count : Nat) : State × Int × List UInt8 :=
  match fs.descriptor fd with
  | none => (fs, ebadf, [])
  | some o =>
    if o.isDir then (fs, eisdir, [])
    else
      match fs.nodes.lookup o.path with
      | none => (fs, ebadf, [])
      | some node =>
        let bytes := readAt node o.pos count
        if 0 < bytes.length then
          (fs.edit fd fun o => { o with pos := (o.pos + bytes.length) % 2 ^ 64 },
            bytes.length, bytes)
        else (fs, 0, [])

def pread (fs : State) (fd : Int) (count offset : Nat) : Int × List UInt8 :=
  match fs.descriptor fd with
  | none => (ebadf, [])
  | some o =>
    if o.isDir then (eisdir, [])
    else
      match fs.nodes.lookup o.path with
      | none => (ebadf, [])
      | some node => ((readAt node offset count).length, readAt node offset count)

def lseek (fs : State) (fd offset whence : Int) : State × Int :=
  match fs.descriptor fd with
  | none => (fs, ebadf)
  | some o =>
    let base? : Option Int :=
      if whence = 0 then some 0
      else if whence = 1 then some (asI64 o.pos)
      else if whence = 2 then some (fs.lengthAt o.path)
      else none
    match base? with
    | none => (fs, einval)
    | some base =>
      let np := asI64 (base + offset)
      if np < 0 then (fs, einval)
      else (fs.edit fd fun o => { o with pos := np.toNat }, np)

def resizePath (fs : State) (path : Path) (len : Nat) : Option (State × Int) :=
  match fs.nodes.lookup path with
  | none => some (fs, enoent)
  | some node =>
    if node.isDir then some (fs, eisdir)
    else
      let cur := node.data.length
      let resized (total : Nat) : Option (State × Int) :=
        if 2 ^ 63 ≤ len then none
        else
          some ({ fs with
            nodes := fs.nodes.insert path
              { node with data := node.data.take len ++ List.replicate (len - cur) 0 }
            total := total }, 0)
      if cur < len then
        let grow := len - cur
        if cap < (fs.total + grow) % 2 ^ 64 then some (fs, enospc)
        else resized ((fs.total + grow) % 2 ^ 64)
      else resized (wordSub fs.total (cur - len))

def truncate (fs : State) (path : Path) (len : Nat) : Option (State × Int) :=
  if (fs.nodes.lookup (norm path)).isNone then some (fs, enoent)
  else fs.resizePath (norm path) len

def ftruncate (fs : State) (fd : Int) (len : Nat) : Option (State × Int) :=
  match fs.descriptor fd with
  | none => some (fs, ebadf)
  | some o => if o.isDir then some (fs, eisdir) else fs.resizePath o.path len

def closeCode (fs : State) (fd : Int) : Int := if fs.isTmpfsFd fd then 0 else ebadf

def unlink (fs : State) (path : Path) : State × Int :=
  let n := norm path
  match fs.nodes.lookup n with
  | none => (fs, enoent)
  | some node =>
    if node.isDir then (fs, eisdir)
    else
      ({ fs with
          nodes := fs.nodes.erase n
          total := wordSub fs.total node.data.length }, 0)

end State

def hasChildren (nodes : AList fun _ : Path => Node) (dir : Path) : Bool :=
  nodes.keys.any fun k => (dir ++ text "/").isPrefixOf k

namespace State

def move (fs : State) (o nw : Path) (src : Node) : State × Int :=
  if src.isDir ∧ hasChildren fs.nodes o then (fs, einval)
  else ({ fs with nodes := (fs.nodes.erase o).insert nw src }, 0)

def rename (fs : State) (old new : Path) : State × Int :=
  let o := norm old
  let nw := norm new
  if o = nw then (fs, 0)
  else
    match fs.nodes.lookup o with
    | none => (fs, enoent)
    | some src =>
      match fs.nodes.lookup (parent nw) with
      | none => (fs, enoent)
      | some up =>
        if ¬ up.isDir then (fs, enotdir)
        else
          match fs.nodes.lookup nw with
          | none => fs.move o nw src
          | some dst =>
            if dst.isDir ≠ src.isDir then (fs, if dst.isDir then eisdir else enotdir)
            else if dst.isDir then
              if hasChildren fs.nodes nw then (fs, enotempty)
              else { fs with nodes := fs.nodes.erase nw }.move o nw src
            else
              { fs with
                nodes := fs.nodes.erase nw
                total := wordSub fs.total dst.data.length }.move o nw src

def mkdir (fs : State) (path : Path) (mode : Nat) : State × Int :=
  let n := norm path
  if (fs.nodes.lookup n).isSome then (fs, eexist)
  else
    match fs.nodes.lookup (parent n) with
    | none => (fs, enoent)
    | some up =>
      if ¬ up.isDir then (fs, enotdir)
      else
        let perm := mode % 2 ^ 32 &&& 0o7777
        let perm := if perm = 0 then 0o755 else perm
        ({ fs with nodes := fs.nodes.insert n ⟨true, [], perm⟩ }, 0)

def rmdir (fs : State) (path : Path) : State × Int :=
  let n := norm path
  if n = text "/tmp" ∨ n = text "/dev/shm" then (fs, eperm)
  else
    match fs.nodes.lookup n with
    | none => (fs, enoent)
    | some node =>
      if ¬ node.isDir then (fs, enotdir)
      else if hasChildren fs.nodes n then (fs, enotempty)
      else ({ fs with nodes := fs.nodes.erase n }, 0)

def stemOf (dir : Path) : Path := if dir = text "/" then dir else dir ++ text "/"

def childNames (fs : State) (dir : Path) : List Path :=
  (fs.nodes.keys.insertionSort fun a b => keyLe a b = true).filterMap fun k =>
    if (stemOf dir).length < k.length ∧ (stemOf dir).isPrefixOf k ∧
        ¬ 47 ∈ k.drop (stemOf dir).length then
      some (k.drop (stemOf dir).length)
    else none

/-- The loop of getdents64: records of the names from one on, as long as they fit, and the number
    of names that are out. -/
def emit (fs : State) (stem : Path) (count : Nat) :
    List Path → (emitted : Nat) → (out : List UInt8) → List UInt8 × Nat
  | [], emitted, out => (out, emitted)
  | name :: rest, emitted, out =>
    if count < out.length + recordLen name then (out, emitted)
    else
      let isDir := ((fs.nodes.lookup (stem ++ name)).map Node.isDir).getD false
      let d : Dirent := ⟨emitted + 1, emitted + 1, if isDir then 4 else 8, name⟩
      emit fs stem count rest (emitted + 1) (out ++ d.bytes)

def getdents64 (fs : State) (fd : Int) (count : Nat) : State × Int × List UInt8 :=
  match fs.descriptor fd with
  | none => (fs, ebadf, [])
  | some o =>
    if ¬ o.isDir then (fs, enotdir, [])
    else
      let out := fs.emit (stemOf o.path) count ((fs.childNames o.path).drop o.dirPos) o.dirPos []
      (fs.edit fd fun o => { o with dirPos := out.2 }, out.1.length, out.1)

end State

inductive Call where
  | open_ (path : Path) (flags mode : Nat)
  | write (fd : Int) (buf : List UInt8)
  | pwrite (fd : Int) (buf : List UInt8) (offset : UInt64)
  | read (fd : Int) (count : Nat)
  | pread (fd : Int) (count : Nat) (offset : UInt64)
  | lseek (fd offset whence : Int)
  | truncate (path : Path) (len : UInt64)
  | ftruncate (fd : Int) (len : UInt64)
  | close (fd : Int)
  | unlink (path : Path)
  | rename (old new : Path)
  | mkdir (path : Path) (mode : Nat)
  | rmdir (path : Path)
  | getdents64 (fd : Int) (count : Nat)
  deriving DecidableEq, Repr

structure Reply where
  code : Int
  bytes : List UInt8
  deriving DecidableEq, Repr

def Reply.of (code : Int) : Reply := ⟨code, []⟩

def State.call (fs : State) : Call → Option (State × Reply)
  | .open_ path flags mode =>
    some ((fs.open_ path flags mode).1, .of (fs.open_ path flags mode).2)
  | .write fd buf => some ((fs.write fd buf).1, .of (fs.write fd buf).2)
  | .pwrite fd buf offset =>
    some ((fs.pwrite fd buf offset.toNat).1, .of (fs.pwrite fd buf offset.toNat).2)
  | .read fd count => some ((fs.read fd count).1, ⟨(fs.read fd count).2.1, (fs.read fd count).2.2⟩)
  | .pread fd count offset =>
    some (fs, ⟨(fs.pread fd count offset.toNat).1, (fs.pread fd count offset.toNat).2⟩)
  | .lseek fd offset whence =>
    some ((fs.lseek fd offset whence).1, .of (fs.lseek fd offset whence).2)
  | .truncate path len => (fs.truncate path len.toNat).map fun r => (r.1, .of r.2)
  | .ftruncate fd len => (fs.ftruncate fd len.toNat).map fun r => (r.1, .of r.2)
  | .close fd => some (fs.close fd, .of (fs.closeCode fd))
  | .unlink path => some ((fs.unlink path).1, .of (fs.unlink path).2)
  | .rename old new => some ((fs.rename old new).1, .of (fs.rename old new).2)
  | .mkdir path mode => some ((fs.mkdir path mode).1, .of (fs.mkdir path mode).2)
  | .rmdir path => some ((fs.rmdir path).1, .of (fs.rmdir path).2)
  | .getdents64 fd count =>
    some ((fs.getdents64 fd count).1, ⟨(fs.getdents64 fd count).2.1, (fs.getdents64 fd count).2.2⟩)

def step (fs : State) (c : Call) : Option State := (fs.call c).map Prod.fst

end TynKernel.Tmpfs
