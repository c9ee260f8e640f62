import TynKernel.Net.Sockets
import TynKernel.Pipes.Ends
import TynKernel.Tmpfs.Files
import TynKernel.Vfs.Files

/-!
The system calls that hand out and close descriptor numbers, and the way a read or a write
finds what its number stands for.
-/
namespace TynKernel.Fd
open Bytes

structure Tables where
  tmpfs : Tmpfs.State
  vfs : Vfs.State
  pipes : Pipes.State
  sockets : Sockets.State
  resolvConf : List UInt8

def boot (archive resolvConf : List UInt8) (network : Bool) : Tables where
  tmpfs := Tmpfs.initial
  vfs := Vfs.initial archive
  pipes := Pipes.initial
  sockets := Sockets.initial network
  resolvConf := resolvConf

def fdDevnull : Int := 100
def fdSynthZero : Int := 101
def fdSynthDir : Int := 102
def fdDevRandom : Int := 103
def fdResolvConf : Int := 104
def fdTimer : Int := 51
def fdEpoll : Int := 50

def reserved : List Int :=
  [0, 1, 2, fdEpoll, fdTimer, fdDevnull, fdSynthZero, fdSynthDir, fdDevRandom, fdResolvConf]

def copyPath (user : List UInt8) : List UInt8 := (user.takeWhile (· ≠ 0)).take 255

def isSynthFile (path : List UInt8) : Bool :=
  (text "/sys/devices/system/cpu/cpu").isPrefixOf path &&
    ((text "/topology/physical_package_id").isSuffixOf path ||
      (text "/topology/core_id").isSuffixOf path ||
      (text "/topology/thread_siblings_list").isSuffixOf path ||
      (text "/topology/core_siblings_list").isSuffixOf path)

def isSynthDir (path : List UInt8) : Bool :=
  path == text "/sys/devices/system/node" || path == text "/sys/devices/system/cpu" ||
    (text "/sys/devices/system/node/node").isPrefixOf path ||
    (text "/sys/devices/system/cpu/cpu").isPrefixOf path

def isSpecial (path : List UInt8) : Prop :=
  path = text "/dev/null" ∨ (path = text "/dev/urandom" ∨ path = text "/dev/random") ∨
    path = text "/tyn/resolv.conf"

instance (path : List UInt8) : Decidable (isSpecial path) :=
  inferInstanceAs (Decidable (_ ∨ _))

/-- open of a path that is left to the archive. The result none is a stopped kernel. -/
def openArchive (t : Tables) (path : List UInt8) : Option (Tables × Int) :=
  match t.vfs.open_ path with
  | none => none
  | some (vfs, fd) =>
    if 0 ≤ fd then some ({ t with vfs := vfs }, fd)
    else
      match Vfs.isDirPrefix vfs.archive path with
      | none => none
      | some true =>
        let opened := vfs.openDir path
        some ({ t with vfs := opened.1 }, opened.2)
      | some false => some ({ t with vfs := vfs }, -2)

/-- open and openat, which ignores its directory. -/
def sysOpen (t : Tables) (user : List UInt8) (flags mode : Nat) : Option (Tables × Int) :=
  let path := copyPath user
  if path = text "/dev/null" then some (t, fdDevnull)
  else if path = text "/dev/urandom" ∨ path = text "/dev/random" then some (t, fdDevRandom)
  else if path = text "/tyn/resolv.conf" then some (t, fdResolvConf)
  else if isSynthFile path then some (t, fdSynthZero)
  else if isSynthDir path then some (t, fdSynthDir)
  else if Tmpfs.ownsPath path then
    let opened := t.tmpfs.open_ path flags mode
    some ({ t with tmpfs := opened.1 }, opened.2)
  else openArchive t path

abbrev Stat := Nat × Nat

def statArchive (t : Tables) (path : List UInt8) : Option (Tables × Int × Option Stat) :=
  match t.vfs.open_ path with
  | none => none
  | some (vfs, fd) =>
    if 0 ≤ fd then
      some ({ t with vfs := vfs.close fd }, 0, some (0o100644, (vfs.fstatSize fd).getD 0))
    else
      match Vfs.isDirPrefix vfs.archive path with
      | none => none
      | some known =>
        if known || isSynthDir path then some ({ t with vfs := vfs }, 0, some (0o40755, 0))
        else some ({ t with vfs := vfs }, -2, none)

def sysStat (t : Tables) (user : List UInt8) : Option (Tables × Int × Option Stat) :=
  let path := copyPath user
  if Tmpfs.ownsPath path then
    match t.tmpfs.stat path with
    | some info => some (t, 0, some info)
    | none => some (t, -2, none)
  else if path = text "/dev/urandom" ∨ path = text "/dev/random" ∨ path = text "/dev/null" then
    some (t, 0, some (0o020666, 0))
  else if path = text "/tyn/resolv.conf" then some (t, 0, some (0o100644, t.resolvConf.length))
  else statArchive t path

def sysDup (t : Tables) (fd : Int) : Tables × Int :=
  if t.vfs.isVfsFd fd then
    let dup := t.vfs.dup fd
    ({ t with vfs := dup.1 }, dup.2)
  else (t, -9)

def sysPipe (t : Tables) (null : Bool) : Tables × Int × Option (Int × Int) :=
  if null then (t, -22, none)
  else
    let created := t.pipes.create
    ({ t with pipes := created.1 }, 0, some created.2)

def sysClose (t : Tables) (fd : Int) : Tables :=
  { t with
    tmpfs := t.tmpfs.close fd
    vfs := (t.vfs.close fd).closeDir fd
    pipes := t.pipes.close fd
    sockets := t.sockets.close fd }

inductive Call where
  | open_ (path : List UInt8) (flags mode : Nat)
  | stat (path : List UInt8)
  | dup (fd : Int)
  | pipe (null : Bool)
  | socket (domain : Int) (sockType : Nat)
  | listen (fd : Int) (listens : Bool)
  | accept (fd : Int) (flags : Nat) (established : Bool)
  | close (fd : Int)
  deriving DecidableEq, Repr

structure Reply where
  code : Int
  pair : Option (Int × Int)
  stat : Option Stat
  deriving DecidableEq, Repr

def Reply.of (code : Int) : Reply := ⟨code, none, none⟩

def dispatch (t : Tables) : Call → Option (Tables × Reply)
  | .open_ path flags mode => (sysOpen t path flags mode).map fun r => (r.1, .of r.2)
  | .stat path => (sysStat t path).map fun r => (r.1, ⟨r.2.1, none, r.2.2⟩)
  | .dup fd => some ((sysDup t fd).1, .of (sysDup t fd).2)
  | .pipe null => some ((sysPipe t null).1, ⟨(sysPipe t null).2.1, (sysPipe t null).2.2, none⟩)
  | .socket domain sockType =>
    let opened := t.sockets.sysSocket domain sockType
    some ({ t with sockets := opened.1 }, .of opened.2)
  | .listen fd listens =>
    (t.sockets.sysListen fd listens).map fun r => ({ t with sockets := r.1 }, .of r.2)
  | .accept fd flags established =>
    (t.sockets.sysAccept fd flags established).map fun r => ({ t with sockets := r.1 }, .of r.2)
  | .close fd => some (sysClose t fd, .of 0)

def step (t : Tables) (call : Call) : Option Tables := (dispatch t call).map Prod.fst

inductive Target where
  | stdin | console | null | random | resolvConf | zero | timer
  | tmpfs (path : List UInt8)
  | file (place : Nat × Nat)
  | pipe (slot : Nat)
  | socket (fd : Int)
  | nothing (code : Int)
  deriving DecidableEq, Repr

def readTarget (t : Tables) (fd : Int) : Target :=
  if fd = 0 then .stdin
  else if t.tmpfs.isTmpfsFd fd then
    match t.tmpfs.descriptor fd with
    | some o => .tmpfs o.path
    | none => .nothing (-9)
  else if t.vfs.isVfsFd fd then
    match t.vfs.file fd with
    | some f => .file (f.dataOffset, f.dataLen)
    | none => .nothing (-9)
  else if t.pipes.isPipeFd fd then
    match t.pipes.readSlot fd with
    | some slot => .pipe slot
    | none => .nothing (-9)
  else if fd = fdDevRandom then .random
  else if fd = fdResolvConf then .resolvConf
  else if fd = fdSynthZero then .zero
  else if fd = fdTimer then .timer
  else if t.sockets.isSocketFd fd then .socket fd
  else .nothing 0

def writeTarget (t : Tables) (fd : Int) : Target :=
  if t.tmpfs.isTmpfsFd fd then
    match t.tmpfs.descriptor fd with
    | some o => .tmpfs o.path
    | none => .nothing (-9)
  else if fd = 1 ∨ fd = 2 then .console
  else if fd = fdDevnull then .null
  else if t.pipes.isPipeFd fd then
    match t.pipes.writeSlot fd with
    | some slot => .pipe slot
    | none => .nothing (-9)
  else if t.sockets.isSocketFd fd then .socket fd
  else .nothing (-9)

end TynKernel.Fd
