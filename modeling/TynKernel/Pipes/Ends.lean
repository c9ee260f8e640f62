import TynKernel.Lib.Numbers
import TynKernel.Lib.Rows

/-!
Pipes. A slot is free if its read end is closed. The write end is never closed: it stays in the
slot until a new pipe takes the slot over.
-/
namespace TynKernel.Pipes
open List Numbers Rows

def pipeBufSize : Nat := 4096
def maxPipes : Nat := 16

structure Pipe where
  buf : List UInt8
  head : Nat
  tail : Nat
  readFd : Int
  writeFd : Int
  nonblock : Bool
  deriving DecidableEq, Repr

def empty : Pipe := ⟨List.replicate pipeBufSize 0, 0, 0, -1, -1, false⟩

structure State where
  nextPipeFd : Nat
  pipes : Row maxPipes Pipe

def initial : State := ⟨200, Row.replicate maxPipes empty⟩

namespace State

def create (s : State) : State × (Int × Int) :=
  let readFd := asI32 s.nextPipeFd
  let writeFd := asI32 (s.nextPipeFd + 1)
  let s := { s with nextPipeFd := (s.nextPipeFd + 2) % 2 ^ 64 }
  match s.pipes.cells.findIdx? fun pipe => pipe.readFd = -1 with
  | some i =>
    ({ s with pipes := s.pipes.set i { empty with readFd := readFd, writeFd := writeFd } },
      (readFd, writeFd))
  | none => (s, (readFd, writeFd))

def isPipeFd (s : State) (fd : Int) : Bool :=
  s.pipes.cells.any fun pipe => pipe.readFd = fd || pipe.writeFd = fd

def close (s : State) (fd : Int) : State :=
  { s with
    pipes := s.pipes.map fun pipe =>
      if pipe.readFd = fd then
        if pipe.writeFd = -1 then empty else { pipe with readFd := -1 }
      else pipe }

def readSlot (s : State) (fd : Int) : Option Nat :=
  s.pipes.cells.findIdx? fun pipe => pipe.readFd = fd

def writeSlot (s : State) (fd : Int) : Option Nat :=
  s.pipes.cells.findIdx? fun pipe => pipe.writeFd = fd

end State

structure End where
  slot : Nat
  writes : Bool
  deriving DecidableEq, Repr

def endEntry (pipe : Pipe) (i : Nat) : List (Int × End) :=
  (if pipe.readFd = -1 then [] else [(pipe.readFd, ⟨i, false⟩)]) ++
    (if pipe.writeFd = -1 then [] else [(pipe.writeFd, ⟨i, true⟩)])

def State.ends (s : State) : List (Int × End) := entries endEntry s.pipes.cells

structure Numbered (s : State) : Prop where
  issued : Issued 200 s.nextPipeFd (keys s.ends)
  started : 200 ≤ s.nextPipeFd

variable {s' : State} {fd : Int} {i : Nat} {e : End}

theorem ends_initial : initial.ends = [] := entries_replicate maxPipes fun _ => rfl

theorem numbered_initial : Numbered initial := by
  refine ⟨?_, Nat.le_refl _⟩
  exact issued_nil ..

theorem create_outcome {s : State} (small : s.nextPipeFd + 1 < 500)
    (done : s.create = (s', (readFd, writeFd))) :
    readFd = s.nextPipeFd ∧ writeFd = s.nextPipeFd + 1 ∧ s'.nextPipeFd = s.nextPipeFd + 2 ∧
      ((∃ i lost rest, (∀ e ∈ lost, e.2.writes = true) ∧ s.ends.Perm (lost ++ rest) ∧
        s'.ends.Perm ((readFd, ⟨i, false⟩) :: (writeFd, ⟨i, true⟩) :: rest)) ∨
      s'.ends = s.ends) := by
  have first : asI32 s.nextPipeFd = s.nextPipeFd := asI32_of_lt (by omega) (by omega)
  have second : asI32 (s.nextPipeFd + 1) = s.nextPipeFd + 1 := asI32_of_lt (by omega) (by omega)
  have counter : (s.nextPipeFd + 2) % 2 ^ 64 = s.nextPipeFd + 2 := Nat.mod_eq_of_lt (by omega)
  simp only [State.create, first, second, counter] at done
  split at done
  · rename_i i found
    obtain ⟨rfl, numbers⟩ := Prod.mk.inj done
    obtain ⟨rfl, rfl⟩ := Prod.mk.inj numbers
    obtain ⟨old, rest, free, _, before, after⟩ := entries_set endEntry found
    have isFree : old.readFd = -1 := of_decide_eq_true free
    refine ⟨rfl, rfl, rfl, .inl ⟨i, endEntry old i, rest, ?_, before, ?_⟩⟩
    · intro e member
      rw [endEntry, if_pos isFree, nil_append] at member
      split at member
      · cases member
      · rw [mem_singleton.mp member]
    · have new := after { empty with readFd := s.nextPipeFd, writeFd := s.nextPipeFd + 1 }
      have readUsed : (s.nextPipeFd : Int) ≠ -1 := by omega
      have writeUsed : (s.nextPipeFd : Int) + 1 ≠ -1 := by omega
      exact new
  · obtain ⟨rfl, numbers⟩ := Prod.mk.inj done
    obtain ⟨rfl, rfl⟩ := Prod.mk.inj numbers
    exact ⟨rfl, rfl, rfl, .inr rfl⟩

theorem create_numbered (numbered : Numbered s) (small : s.nextPipeFd + 1 < 500)
    (done : s.create = (s', (readFd, writeFd))) : Numbered s' := by
  obtain ⟨first, second, next, change⟩ := create_outcome small done
  have started := numbered.started
  have room : (200 : Int) ≤ s.nextPipeFd := by omega
  refine ⟨?_, by omega⟩
  rw [next]
  rcases change with ⟨i, lost, rest, _, before, after⟩ | same
  · have old : Issued 200 s.nextPipeFd (keys rest) := by
      have perm : (keys s.ends).Perm (keys lost ++ keys rest) := by
        rw [← Numbers.keys_append]
        exact before.map Prod.fst
      exact issued_sublist (issued_perm numbered.issued perm.symm) (sublist_append_right _ _)
    have perm : (keys s'.ends).Perm (readFd :: writeFd :: keys rest) := after.map Prod.fst
    have new := issued_next (issued_next old room) (by omega)
    refine issued_perm new (perm.trans ?_)
    rw [first, second]
    exact List.Perm.swap ..
  · rw [same]
    have new := issued_next (issued_next numbered.issued room) (by omega)
    exact issued_sublist new ((sublist_cons_self _ _).trans (sublist_cons_self _ _))

theorem endEntry_close (pipe : Pipe) (fd : Int) (i : Nat) :
    endEntry (if pipe.readFd = fd then
        if pipe.writeFd = -1 then empty else { pipe with readFd := -1 } else pipe) i =
      (endEntry pipe i).filter fun e => !(e.1 = fd && !e.2.writes) := by
  by_cases here : pipe.readFd = fd
  · by_cases noWrite : pipe.writeFd = -1
    · by_cases free : pipe.readFd = -1 <;> simp [endEntry, here, noWrite, empty]
    · by_cases free : fd = -1 <;> simp [endEntry, here, noWrite, free]
  · rw [if_neg here]
    by_cases noWrite : pipe.writeFd = -1 <;> by_cases free : pipe.readFd = -1 <;>
      simp [endEntry, here, noWrite, free]

theorem close_ends (s : State) (fd : Int) :
    (s.close fd).ends = s.ends.filter fun e => !(e.1 = fd && !e.2.writes) :=
  entries_map _ fun pipe i => endEntry_close pipe fd i

theorem close_numbered (numbered : Numbered s) (fd : Int) : Numbered (s.close fd) := by
  refine ⟨?_, numbered.started⟩
  rw [close_ends]
  exact issued_sublist numbered.issued (filter_sublist.map _)

theorem mem_ends_of_read {s : State} (used : fd ≠ -1) (found : s.readSlot fd = some i) :
    (fd, ⟨i, false⟩) ∈ s.ends := by
  obtain ⟨bound, test, _⟩ := findIdx?_eq_some_iff_getElem.mp found
  have number : s.pipes.cells[i].readFd = fd := of_decide_eq_true test
  refine mem_entries.mpr ⟨i, s.pipes.cells[i], getElem?_eq_getElem bound, ?_⟩
  simp [endEntry, number, used]

theorem mem_ends_of_write {s : State} (used : fd ≠ -1) (found : s.writeSlot fd = some i) :
    (fd, ⟨i, true⟩) ∈ s.ends := by
  obtain ⟨bound, test, _⟩ := findIdx?_eq_some_iff_getElem.mp found
  have number : s.pipes.cells[i].writeFd = fd := of_decide_eq_true test
  refine mem_entries.mpr ⟨i, s.pipes.cells[i], getElem?_eq_getElem bound, ?_⟩
  simp [endEntry, number, used]

theorem numbered_used (numbered : Numbered s) (member : (fd, e) ∈ s.ends) : fd ≠ -1 := by
  have := numbered.issued.low fd (mem_keys.mpr ⟨e, member⟩)
  omega

theorem end_in_slot {s : State} (member : (fd, e) ∈ s.ends) :
    ∃ pipe, s.pipes.cells[e.slot]? = some pipe ∧
      (if e.writes then pipe.writeFd = fd else pipe.readFd = fd) := by
  obtain ⟨i, pipe, get, inside⟩ := mem_entries.mp member
  rw [endEntry, mem_append] at inside
  rcases inside with read | write
  · split at read
    · cases read
    · obtain ⟨rfl, rfl⟩ := Prod.mk.inj (mem_singleton.mp read)
      exact ⟨pipe, get, by simp⟩
  · split at write
    · cases write
    · obtain ⟨rfl, rfl⟩ := Prod.mk.inj (mem_singleton.mp write)
      exact ⟨pipe, get, by simp⟩

theorem isPipeFd_iff {s : State} (used : fd ≠ -1) :
    s.isPipeFd fd = true ↔ fd ∈ keys s.ends := by
  rw [Numbers.mem_keys]
  simp only [State.isPipeFd, any_eq_true, Bool.or_eq_true, decide_eq_true_eq]
  constructor
  · rintro ⟨pipe, inside, read | write⟩
    · obtain ⟨i, get⟩ := mem_iff_getElem?.mp inside
      exact ⟨⟨i, false⟩, mem_entries.mpr ⟨i, pipe, get, by simp [endEntry, read, used]⟩⟩
    · obtain ⟨i, get⟩ := mem_iff_getElem?.mp inside
      exact ⟨⟨i, true⟩, mem_entries.mpr ⟨i, pipe, get, by simp [endEntry, write, used]⟩⟩
  · rintro ⟨e, member⟩
    obtain ⟨pipe, get, number⟩ := end_in_slot member
    refine ⟨pipe, mem_of_getElem? get, ?_⟩
    split at number
    · exact .inr number
    · exact .inl number

theorem readSlot_of_mem {s : State} (numbered : Numbered s) (member : (fd, e) ∈ s.ends) :
    s.readSlot fd = if e.writes then none else some e.slot := by
  have used := numbered_used numbered member
  cases found : s.readSlot fd with
  | some =>
    have same := entry_unique numbered.issued.distinct member (mem_ends_of_read used found)
    rw [same]
    rfl
  | none =>
    obtain ⟨pipe, get, number⟩ := end_in_slot member
    split at number
    · rename_i writes
      rw [if_pos writes]
    · have absent := findIdx?_eq_none_iff.mp found pipe (mem_of_getElem? get)
      simp [number] at absent

theorem writeSlot_of_mem {s : State} (numbered : Numbered s) (member : (fd, e) ∈ s.ends) :
    s.writeSlot fd = if e.writes then some e.slot else none := by
  have used := numbered_used numbered member
  cases found : s.writeSlot fd with
  | some =>
    have same := entry_unique numbered.issued.distinct member (mem_ends_of_write used found)
    rw [same]
    rfl
  | none =>
    obtain ⟨pipe, get, number⟩ := end_in_slot member
    split at number
    · have absent := findIdx?_eq_none_iff.mp found pipe (mem_of_getElem? get)
      simp [number] at absent
    · rename_i reads
      rw [if_neg reads]

end TynKernel.Pipes
