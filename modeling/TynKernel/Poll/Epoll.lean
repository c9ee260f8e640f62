import TynKernel.Lib.Keyed
import TynKernel.Poll.Scans

/-!
The table of epoll. An entry is free if its number is -1. epoll_ctl writes over the entry of
its number or into a free one, and succeeds silently if there is none.
-/
namespace TynKernel.Poll
open Keyed List Numbers Rows Runs

def epollMax : Nat := 1024

def emptyEntry : EpollEntry := ⟨-1, 0, 0⟩

abbrev Table := Row epollMax EpollEntry

def initial : Table := Row.replicate epollMax emptyEntry

def epollDropFd (t : Table) (fd : Int) : Table :=
  t.map fun e => if e.fd = fd then emptyEntry else e

def eventOf (fd : Int) (event : Option (BitVec 32 × BitVec 64)) : EpollEntry :=
  ⟨fd, (event.map Prod.snd).getD 0, (event.map Prod.fst).getD 0⟩

/-- Operation 2 is to delete, and any other one to add or to modify. -/
def sysEpollCtl (t : Table) (op fd : Int) (event : Option (BitVec 32 × BitVec 64)) : Table :=
  if op = 2 then t.map fun e => if e.fd = fd then emptyEntry else e
  else
    match t.cells.findIdx? fun e => e.fd = fd with
    | some i => t.set i (eventOf fd event)
    | none =>
      match t.cells.findIdx? fun e => e.fd = -1 with
      | some i => t.set i (eventOf fd event)
      | none => t

inductive Call where
  | ctl (op fd : Int) (event : Option (BitVec 32 × BitVec 64))
  | close (fd : Int)
  deriving DecidableEq, Repr

def Call.fd : Call → Int
  | .ctl _ fd _ => fd
  | .close fd => fd

def step (t : Table) : Call → Option Table
  | .ctl op fd event => some (sysEpollCtl t op fd event)
  | .close fd => some (epollDropFd t fd)

def Call.entry : Call → Option EpollEntry
  | .ctl op fd event => if op = 2 then none else some (eventOf fd event)
  | .close _ => none

/-- The entry that the latest call on a number has left: one if that call was to add or modify, and
    then with its events and data, and none if it was to delete or close. -/
def registered (past : List (Table × Call)) (fd : Int) : Option EpollEntry :=
  (past.find? fun e => e.2.fd = fd).bind fun e => e.2.entry

def live (past : List (Table × Call)) : Finset Int :=
  (past.map fun e => e.2.fd).toFinset.filter fun fd => fd ≠ -1 ∧ (registered past fd).isSome

section History
variable {past : List (Table × Call)} {fd : Int}

theorem mem_live : fd ∈ live past ↔ fd ≠ -1 ∧ (registered past fd).isSome := by
  rw [live, Finset.mem_filter, and_iff_right_iff_imp]
  rintro ⟨_, there⟩
  obtain ⟨e, found, _⟩ := Option.bind_eq_some_iff.mp (Option.isSome_iff_exists.mp there).choose_spec
  rw [mem_toFinset, mem_map]
  exact ⟨e, mem_of_find?_eq_some found, by simpa using find?_some found⟩

end History

section Steps
variable {past : List (Table × Call)} {t t' : Table} {c : Call}

end Steps

def Reports (k : Kernel) (past : List (Table × Call)) (fd : Int) : Prop :=
  ∃ e, registered past fd = some e ∧ k.revents fd e.events ≠ 0#32

end TynKernel.Poll
