import TynKernel.Pipes.Ring

/-!
The life of a pipe. create makes a pipe in the first slot whose read end is closed, and the
pipe lasts until its read end is closed. The history of a run tells the bytes that it took in
and gave out since.
-/
namespace TynKernel.Pipes
open Numbers Rings Rows Runs

def State.freeSlot (s : State) : Option Nat :=
  s.pipes.cells.findIdx? fun pipe => pipe.readFd = -1

def Call.makes (i : Nat) (s : State) : Call → Bool
  | .create => s.freeSlot = some i
  | _ => false

def Call.accepted (i : Nat) (s : State) : Call → List UInt8
  | .write fd data => if s.writeSlot fd = some i then data.take (s.write fd data).2.toNat else []
  | _ => []

def Call.returned (i : Nat) (s : State) : Call → List UInt8
  | .read fd count => if s.readSlot fd = some i then (s.read fd count).2.2 else []
  | _ => []

def accepted (i : Nat) : List (State × Call) → List UInt8
  | [] => []
  | (s, c) :: past => if c.makes i s then [] else accepted i past ++ c.accepted i s

def returned (i : Nat) : List (State × Call) → List UInt8
  | [] => []
  | (s, c) :: past => if c.makes i s then [] else returned i past ++ c.returned i s

def Call.Names (p : Pipe) : Call → Prop
  | .create => False
  | .write fd _ => fd = p.writeFd
  | .read fd _ => fd = p.readFd
  | .setNonblock fd _ => fd = p.readFd ∨ fd = p.writeFd
  | .close fd => fd = p.readFd

variable {q : Pipe} {fd : Int} {s' : State} {c : Call}

section
variable {s : State} {i : Nat} {p : Pipe}

theorem put_own (here : s.pipes.cells[i]? = some p) (q : Pipe) :
    (s.put i q).pipes.cells[i]? = some q :=
  List.getElem?_set_self (List.getElem?_eq_some_iff.mp here).1

theorem put_other (other : j ≠ i) (q : Pipe) : (s.put j q).pipes.cells[i]? = s.pipes.cells[i]? :=
  List.getElem?_set_ne other

theorem put_self (here : s.pipes.cells[i]? = some p) : s.put i p = s := by
  obtain ⟨bound, same⟩ := List.getElem?_eq_some_iff.mp here
  have cells : s.pipes.set i p = s.pipes := by
    rw [Row.mk.injEq, ← same]
    exact List.set_getElem_self bound
  rw [State.put, cells]

theorem put_readSlot (here : s.pipes.cells[i]? = some p) (same : q.readFd = p.readFd) (fd : Int) :
    (s.put i q).readSlot fd = s.readSlot fd :=
  findIdx_write_same here (by rw [same])

theorem put_writeSlot (here : s.pipes.cells[i]? = some p)
    (same : q.writeFd = p.writeFd) (fd : Int) : (s.put i q).writeSlot fd = s.writeSlot fd :=
  findIdx_write_same here (by rw [same])

theorem at_slot (here : s.pipes.cells[i]? = some p) : s.at_ (some i) = some (i, p) := by
  simp [State.at_, here]

theorem number_of_writeSlot (here : s.pipes.cells[i]? = some p) (found : s.writeSlot fd = some i) :
    p.writeFd = fd := by
  obtain ⟨q, get, test, _⟩ := findIdx_iff.mp found
  rw [here, Option.some.injEq] at get
  exact get ▸ of_decide_eq_true test

theorem number_of_readSlot (here : s.pipes.cells[i]? = some p) (found : s.readSlot fd = some i) :
    p.readFd = fd := by
  obtain ⟨q, get, test, _⟩ := findIdx_iff.mp found
  rw [here, Option.some.injEq] at get
  exact get ▸ of_decide_eq_true test

theorem writeSlot_isPipeFd (found : s.writeSlot fd = some i) :
    s.isPipeFd fd = true := by
  obtain ⟨p, get, test, _⟩ := findIdx_iff.mp found
  refine List.any_eq_true.mpr ⟨p, List.mem_of_getElem? get, ?_⟩
  rw [test, Bool.or_true]

theorem readSlot_isPipeFd (found : s.readSlot fd = some i) : s.isPipeFd fd = true := by
  obtain ⟨p, get, test, _⟩ := findIdx_iff.mp found
  refine List.any_eq_true.mpr ⟨p, List.mem_of_getElem? get, ?_⟩
  rw [test, Bool.true_or]

theorem write_own (here : s.pipes.cells[i]? = some p) (found : s.writeSlot fd = some i)
    (data : List UInt8) :
    s.write fd data = (s.put i (p.write data).pipe, ((p.write data).written : Int)) := by
  apply write_found
  rw [State.writer, found, at_slot here]

theorem write_elsewhere (missed : s.writeSlot fd ≠ some i) (data : List UInt8) :
    (s.write fd data).1.pipes.cells[i]? = s.pipes.cells[i]? := by
  unfold State.write
  split
  · rename_i j q found
    apply put_other
    intro same
    exact missed (same ▸ (at_get found).1)
  · rfl

theorem read_empty (none_ : p.isEmpty = true) (count : Nat) : p.read count = (p, []) := by
  cases count with
  | zero => rfl
  | succ => rw [Pipe.read, if_pos (of_decide_eq_true none_)]

theorem read_numbers (p : Pipe) (count : Nat) :
    (p.read count).1.readFd = p.readFd ∧ (p.read count).1.writeFd = p.writeFd := by
  induction count generalizing p with
  | zero => exact ⟨rfl, rfl⟩
  | succ count ih =>
    rw [Pipe.read]
    split
    · exact ⟨rfl, rfl⟩
    · exact ih { p with head := (p.head + 1) % pipeBufSize }

theorem read_own (here : s.pipes.cells[i]? = some p)
    (found : s.readSlot fd = some i) (count : Nat) :
    (s.read fd count).1 = s.put i (p.read count).1 ∧
      (s.read fd count).2.2 = (p.read count).2 ∧
      (p.isEmpty = false → (s.read fd count).2.1 = ((p.read count).2.length : Int)) := by
  simp only [State.read, found, at_slot here]
  cases none_ : p.isEmpty with
  | false => exact ⟨rfl, rfl, fun _ => rfl⟩
  | true =>
    rw [read_empty none_, put_self here]
    simp only [Bool.not_true, Bool.false_eq_true, if_false]
    refine ⟨?_, ?_, by simp⟩
    · split
      · rfl
      · split <;> rfl
    · split
      · rfl
      · split <;> rfl

theorem read_full (here : s.pipes.cells[i]? = some p) (found : s.readSlot fd = some i)
    (sound : Sound p) (some_ : p.contents ≠ []) (count : Nat) :
    (s.read fd count).2 = (((min count p.contents.length : Nat) : Int), p.contents.take count) := by
  have took := read_took sound count
  obtain ⟨_, bytes, code⟩ := read_own here found count
  have filled : p.isEmpty = false := by
    cases none_ : p.isEmpty with
    | false => rfl
    | true =>
      have same : p.head = p.tail := of_decide_eq_true none_
      have zero : p.used = 0 := (used_zero sound.head sound.tail).mpr same
      exact absurd (List.length_eq_zero_iff.mp ((contents_length p).trans zero)) some_
  apply Prod.ext
  · rw [code filled, took.bytes, List.length_take]
  · rw [bytes, took.bytes]

theorem read_elsewhere (missed : s.readSlot fd ≠ some i) (count : Nat) :
    (s.read fd count).1.pipes.cells[i]? = s.pipes.cells[i]? := by
  unfold State.read
  split
  · rename_i j q found
    split
    · apply put_other
      intro same
      exact missed (same ▸ (at_get found).1)
    · split
      · rfl
      · split <;> rfl
  · rfl

theorem setNonblock_slot (here : s.pipes.cells[i]? = some p) (fd : Int) (nonblock : Bool) :
    (s.setNonblock fd nonblock).pipes.cells[i]? = some p ∨
      ((p.readFd = fd ∨ p.writeFd = fd) ∧
        (s.setNonblock fd nonblock).pipes.cells[i]? = some { p with nonblock := nonblock }) := by
  unfold State.setNonblock
  split
  · rename_i j q found
    by_cases same : j = i
    · subst same
      obtain ⟨slot, get⟩ := at_get found
      rw [here, Option.some.injEq] at get
      subst get
      obtain ⟨q, get, test, _⟩ := findIdx_iff.mp slot
      rw [here, Option.some.injEq] at get
      rw [← get, Bool.or_eq_true, decide_eq_true_eq, decide_eq_true_eq] at test
      exact .inr ⟨test, put_own here _⟩
    · exact .inl ((put_other same _).trans here)
  · exact .inl here

theorem close_slot (here : s.pipes.cells[i]? = some p) (fd : Int) :
    (s.close fd).pipes.cells[i]? = some (if p.readFd = fd then
      if p.writeFd = -1 then empty else { p with readFd := -1 } else p) := by
  simp [State.close, Row.map, here]

theorem close_alive (here : s.pipes.cells[i]? = some p)
    (after : (s.close fd).pipes.cells[i]? = some q) (alive : q.readFd ≠ -1) :
    p = q ∧ q.readFd ≠ fd := by
  have same := Option.some.inj ((close_slot here fd).symm.trans after)
  split at same
  · split at same
    · exact absurd (by rw [← same]; rfl) alive
    · exact absurd (by rw [← same]) alive
  · rename_i other
    exact ⟨same, same ▸ other⟩

theorem close_readSlot (other : number ≠ fd) (used : number ≠ -1) :
    (s.close fd).readSlot number = s.readSlot number := by
  apply findIdx_map
  intro pipe
  split
  · rename_i own
    have before : ¬ pipe.readFd = number := fun same => other (same.symm.trans own)
    have after : ¬ (-1 : Int) = number := fun same => used same.symm
    split
    · exact (decide_eq_false after).trans (decide_eq_false before).symm
    · exact (decide_eq_false after).trans (decide_eq_false before).symm
  · rfl

theorem close_writeSlot (fd number : Int) : (s.close fd).writeSlot number = s.writeSlot number := by
  apply findIdx_map
  intro pipe
  split
  · split
    · rename_i none_
      rw [none_]
      rfl
    · rfl
  · rfl

theorem create_some (free : s.freeSlot = some i) :
    s.create = (⟨(s.nextPipeFd + 2) % 2 ^ 64, s.pipes.set i
        { empty with readFd := asI32 s.nextPipeFd, writeFd := asI32 (s.nextPipeFd + 1) }⟩,
      (asI32 s.nextPipeFd, asI32 (s.nextPipeFd + 1))) := by
  unfold State.freeSlot at free
  simp [State.create, free]

theorem create_numbers (s : State) :
    s.create.2 = (asI32 s.nextPipeFd, asI32 (s.nextPipeFd + 1)) := by
  simp only [State.create]
  split
  · rfl
  · rfl

theorem create_made (free : s.freeSlot = some i) :
    s.create.1.pipes.cells[i]? =
      some { empty with readFd := asI32 s.nextPipeFd, writeFd := asI32 (s.nextPipeFd + 1) } := by
  rw [create_some free]
  exact List.getElem?_set_self (List.findIdx?_eq_some_iff_getElem.mp free).1

theorem contents_new (readFd writeFd : Int) :
    Pipe.contents { empty with readFd := readFd, writeFd := writeFd } = [] := by
  have sound := sound_empty readFd writeFd
  have zero : Pipe.used { empty with readFd := readFd, writeFd := writeFd } = 0 :=
    (used_zero sound.head sound.tail).mpr rfl
  exact List.length_eq_zero_iff.mp ((contents_length _).trans zero)

theorem create_elsewhere (other : s.freeSlot ≠ some i) :
    s.create.1.pipes.cells[i]? = s.pipes.cells[i]? := by
  simp only [State.create]
  split
  · rename_i j found
    apply List.getElem?_set_ne
    intro same
    exact other (same ▸ found)
  · rfl

theorem freeSlot_closed (here : s.pipes.cells[i]? = some p) (free : s.freeSlot = some i) :
    p.readFd = -1 := by
  obtain ⟨q, get, test, _⟩ := findIdx_iff.mp free
  rw [here, Option.some.injEq] at get
  exact get ▸ of_decide_eq_true test

theorem step_frame (here : s.pipes.cells[i]? = some p) (alive : p.readFd ≠ -1)
    (taken : step s c = some s') (other : ¬ c.Names p) :
    s'.pipes.cells[i]? = some p := by
  cases c with
  | create =>
    obtain rfl := Option.some.inj taken
    rw [create_elsewhere fun free => alive (freeSlot_closed here free), here]
  | write =>
    obtain rfl := Option.some.inj taken
    rw [write_elsewhere fun found => other (number_of_writeSlot here found).symm, here]
  | read =>
    obtain rfl := Option.some.inj taken
    rw [read_elsewhere fun found => other (number_of_readSlot here found).symm, here]
  | setNonblock fd nonblock =>
    obtain rfl := Option.some.inj taken
    rcases setNonblock_slot here fd nonblock with same | ⟨own, _⟩
    · exact same
    · exact absurd (own.imp Eq.symm Eq.symm) other
  | close =>
    obtain rfl := Option.some.inj taken
    rw [close_slot here, if_neg fun own => other own.symm]

end

/-- The queue of an open pipe after a call: the pipe is new and empty, or it was open before and
    the call took bytes from the front and put bytes at the end. -/
theorem step_queue (all : AllSound s) (taken : step s c = some s')
    (after : s'.pipes.cells[i]? = some p') (alive : p'.readFd ≠ -1) :
    (c.makes i s = true ∧ p'.contents = []) ∨
      (c.makes i s = false ∧ ∃ p, s.pipes.cells[i]? = some p ∧ p.readFd ≠ -1 ∧
        c.returned i s ++ p'.contents = p.contents ++ c.accepted i s) := by
  have length : s'.pipes.cells.length = s.pipes.cells.length :=
    s'.pipes.size.trans s.pipes.size.symm
  have bound : i < s.pipes.cells.length := length ▸ (List.getElem?_eq_some_iff.mp after).1
  obtain ⟨p, here⟩ : ∃ p, s.pipes.cells[i]? = some p := ⟨_, List.getElem?_eq_getElem bound⟩
  have kept : ∀ q : Pipe, s'.pipes.cells[i]? = some q → p' = q := by
    intro q same
    exact Option.some.inj (after.symm.trans same)
  cases c with
  | create =>
    obtain rfl := Option.some.inj taken
    by_cases free : s.freeSlot = some i
    · left
      refine ⟨decide_eq_true free, ?_⟩
      rw [kept _ (create_made free)]
      exact contents_new _ _
    · right
      refine ⟨decide_eq_false free, p, here, ?_⟩
      rw [kept p ((create_elsewhere free).trans here)] at alive ⊢
      exact ⟨alive, (List.append_nil _).symm⟩
  | write fd data =>
    obtain rfl := Option.some.inj taken
    right
    refine ⟨rfl, p, here, ?_⟩
    by_cases found : s.writeSlot fd = some i
    · have wrote := write_wrote (all i p here) data
      have own := write_own here found data
      have now := kept _ (by rw [own]; exact put_own here _)
      rw [now] at alive ⊢
      refine ⟨wrote.readFd ▸ alive, ?_⟩
      simp only [Call.returned, Call.accepted, if_pos found, own, Int.toNat_natCast,
        List.nil_append]
      exact wrote.contents
    · rw [kept p ((write_elsewhere found data).trans here)] at alive ⊢
      simp only [Call.returned, Call.accepted, if_neg found, List.nil_append, List.append_nil]
      exact ⟨alive, trivial⟩
  | read fd count =>
    obtain rfl := Option.some.inj taken
    right
    refine ⟨rfl, p, here, ?_⟩
    by_cases found : s.readSlot fd = some i
    · have took := read_took (all i p here) count
      obtain ⟨put, bytes, _⟩ := read_own here found count
      rw [kept _ (by rw [put]; exact put_own here _)] at alive ⊢
      simp only [Call.returned, Call.accepted, if_pos found, bytes, took.bytes, took.contents,
        List.take_append_drop, List.append_nil]
      exact ⟨(read_numbers p count).1 ▸ alive, trivial⟩
    · rw [kept p ((read_elsewhere found count).trans here)] at alive ⊢
      simp only [Call.returned, Call.accepted, if_neg found, List.nil_append, List.append_nil]
      exact ⟨alive, trivial⟩
  | setNonblock fd nonblock =>
    obtain rfl := Option.some.inj taken
    right
    refine ⟨rfl, p, here, ?_⟩
    rcases setNonblock_slot here fd nonblock with same | ⟨_, same⟩
    · rw [kept _ same] at alive ⊢
      exact ⟨alive, (List.append_nil _).symm⟩
    · rw [kept _ same] at alive ⊢
      exact ⟨alive, (List.append_nil _).symm⟩
  | close =>
    obtain rfl := Option.some.inj taken
    right
    obtain ⟨rfl, _⟩ := close_alive here after alive
    exact ⟨rfl, p, here, alive, (List.append_nil _).symm⟩

/-- What a pipe gave out and what it holds is, in order, what it took in. -/
theorem run_queue (run : Run step initial past s) (here : s.pipes.cells[i]? = some p)
    (alive : p.readFd ≠ -1) : returned i past ++ p.contents = accepted i past := by
  induction run generalizing p with
  | nil =>
    have empty_ : p = empty := List.eq_of_mem_replicate (List.mem_of_getElem? here)
    exact absurd (by rw [empty_]; rfl) alive
  | @snoc past s s' c before taken ih =>
    simp only [returned, accepted]
    rcases step_queue (run_sound before) taken here alive with
      ⟨made, none_⟩ | ⟨kept, q, old, open_, moved⟩
    · rw [if_pos made, if_pos made, none_, List.nil_append]
    · rw [kept, if_neg (by simp), if_neg (by simp), List.append_assoc, moved, ← List.append_assoc,
        ih old open_]

/-- A pipe is a first-in first-out queue of 4095 bytes from the call that made it to the close of
    its read end. -/
theorem pipe_is_fifo {past : List (State × Call)} {s : State} {i : Nat} {p : Pipe}
    (run : Run step initial past s) (here : s.pipes.cells[i]? = some p) (alive : p.readFd ≠ -1) :
    returned i past ++ p.contents = accepted i past ∧ p.contents.length ≤ 4095 ∧
      p.buf.length = 4096 ∧ p.head < 4096 ∧ p.tail < 4096 ∧
      (∀ fd data, s.writeSlot fd = some i →
        (s.write fd data).2 = (min data.length (4095 - p.contents.length) : Nat) ∧
          Call.accepted i s (.write fd data) =
            data.take (min data.length (4095 - p.contents.length))) ∧
      (∀ fd count, s.readSlot fd = some i → p.contents ≠ [] →
        (s.read fd count).2 = (((min count p.contents.length : Nat) : Int), p.contents.take count)) ∧
      ∀ c s', step s c = some s' → ¬ c.Names p → s'.pipes.cells[i]? = some p := by
  have sound := run_sound run i p here
  have room : p.room = 4095 - p.contents.length := by
    rw [contents_length]
    rfl
  have part : p.contents.length ≤ 4095 := by
    have less : p.used < pipeBufSize := used_lt sound.head sound.tail
    rw [contents_length]
    exact Nat.le_of_lt_succ less
  refine ⟨run_queue run here alive, part, sound.cells, sound.head, sound.tail, ?_, ?_, ?_⟩
  · intro fd data found
    have own := write_own here found data
    have wrote := write_wrote sound data
    simp only [Call.accepted, if_pos found, own, Int.toNat_natCast, wrote.written, room, and_self]
  · intro fd count found some_
    exact read_full here found sound some_ count
  · intro c s' taken other
    exact step_frame here alive taken other

theorem pipe_is_fifo_two_of_three :
    ∃ past s p, Run step initial past s ∧ s.pipes.cells[0]? = some p ∧
      returned 0 past = [1, 2] ∧ accepted 0 past = [1, 2, 3] ∧ p.contents = [3] := by
  have first : Run step initial _ _ := Run.snoc (a := .create) Run.nil rfl
  have second := Run.snoc (a := .write 201 [1, 2, 3]) first rfl
  have third := Run.snoc (a := .read 200 2) second rfl
  obtain ⟨past, s, run, gave, took, p, here, alive⟩ : ∃ past s, Run step initial past s ∧
      returned 0 past = [1, 2] ∧ accepted 0 past = [1, 2, 3] ∧
      ∃ p, s.pipes.cells[0]? = some p ∧ p.readFd ≠ -1 :=
    ⟨_, _, third, by decide, by decide, _, rfl, by decide⟩
  have queue := (pipe_is_fifo run here alive).1
  rw [gave, took] at queue
  exact ⟨past, s, p, run, here, gave, took, by simpa using queue⟩

/-- A slot with a read end has a write end: close leaves that one alone. -/
def Paired (s : State) : Prop :=
  ∀ (i : Nat) (p : Pipe), s.pipes.cells[i]? = some p → p.readFd ≠ -1 → p.writeFd ≠ -1

theorem put_paired (paired : Paired s) (here : s.pipes.cells[i]? = some p) {q : Pipe}
    (same : q.readFd = p.readFd ∧ q.writeFd = p.writeFd) : Paired (s.put i q) :=
  Row.forall_set paired (by rw [same.1, same.2]; exact paired i p here)

theorem step_paired (all : AllSound s) (paired : Paired s) (small : s.nextPipeFd + 1 < 2 ^ 31)
    (taken : step s call = some s') : Paired s' := by
  cases call with
  | create =>
    cases taken
    unfold State.create
    simp only
    split
    · have number : asI32 (s.nextPipeFd + 1) ≠ -1 := by
        rw [asI32_of_lt (by omega) (by omega)]
        omega
      refine Row.forall_set paired fun _ => ?_
      simpa only using number
    · exact paired
  | write fd data =>
    cases taken
    unfold State.write
    split
    · rename_i i p found
      have wrote := write_wrote (all i p (at_get found).2) data
      exact put_paired paired (at_get found).2 ⟨wrote.readFd, wrote.writeFd⟩
    · exact paired
  | read fd count =>
    cases taken
    unfold State.read
    split
    · rename_i i p found
      split
      · exact put_paired paired (at_get found).2 (read_numbers p count)
      · split
        · exact paired
        · split <;> exact paired
    · exact paired
  | setNonblock fd nonblock =>
    cases taken
    unfold State.setNonblock
    split
    · rename_i i p found
      exact put_paired paired (at_get found).2 ⟨rfl, rfl⟩
    · exact paired
  | close fd =>
    cases taken
    intro i p get
    obtain ⟨q, old, same⟩ := Option.map_eq_some_iff.mp (List.getElem?_map ▸ get)
    subst same
    split
    · split <;> exact fun open_ => absurd rfl open_
    · exact paired i q old

theorem run_paired (run : Run step initial past s)
    (small : ∀ e ∈ past, e.1.nextPipeFd + 1 < 2 ^ 31) : Paired s := by
  refine (run_invariant_of (fun s _ => s.nextPipeFd + 1 < 2 ^ 31) (fun s => AllSound s ∧ Paired s)
    ⟨sound_initial, ?_⟩ ?_ run small).2
  · intro i p get open_
    rw [List.eq_of_mem_replicate (List.mem_of_getElem? get)] at open_
    exact absurd rfl open_
  · intro s call s' both ok taken
    exact ⟨step_sound both.1 taken, step_paired both.1 both.2 ok taken⟩

/-- While the counter is a positive word every slot with a read end keeps its write number, and no
    read from a read end reports the end of the stream, whatever was closed: it returns bytes, or
    asks to try again (-11), or is interrupted (-4). -/
theorem pipe_never_ends {past : List (State × Call)} (run : Run step initial past s)
    (small : ∀ e ∈ past, e.1.nextPipeFd + 1 < 2 ^ 31) :
    Paired s ∧ ∀ fd i count, fd ≠ -1 → s.readSlot fd = some i →
      0 < (s.read fd (count + 1)).2.1 ∨
        (s.read fd (count + 1)).2.1 = -11 ∨ (s.read fd (count + 1)).2.1 = -4 := by
  have paired := run_paired run small
  refine ⟨paired, fun fd i count used found => ?_⟩
  obtain ⟨p, get, test, _⟩ := findIdx_iff.mp found
  have number : p.readFd = fd := of_decide_eq_true test
  have writer := paired i p get (number ▸ used)
  simp only [State.read, found, at_slot get, writer, if_false]
  split
  · rename_i filled
    have some_ : p.head ≠ p.tail := by simpa [Pipe.isEmpty] using filled
    simp [Pipe.read, some_]
  · split <;> simp

theorem closed_writer_unnoticed : ∃ past s, Run step initial past s ∧
    (∃ e ∈ past, e.2 = .close 201) ∧ (s.read 200 1).2.1 ≠ 0 := by
  have created : Run step initial _ _ := Run.snoc (a := .create) Run.nil rfl
  have closed := Run.snoc (a := .close 201) created rfl
  have answer := (pipe_never_ends closed (by decide)).2 200 0 0 (by decide) rfl
  rw [Nat.zero_add] at answer
  exact ⟨_, _, closed, ⟨_, List.mem_cons_self, rfl⟩, by omega⟩

end TynKernel.Pipes
