import Mathlib.Order.Bounds.Defs
import TynKernel.Tmpfs.Accounting

/-!
Writes into a file. A write takes as many bytes of the buffer as the cap allows, and puts
exactly these into the file.
-/
namespace TynKernel.Tmpfs
open Bytes List Runs Weights

def State.withData (fs : State) (path : Path) (node : Node) (data : List UInt8) :
    AList fun _ : Path => Node :=
  fs.nodes.insert path { node with data := data }

def State.Holds (fs : State) (path : Path) (node : Node) (pos : Nat) (bytes : List UInt8) : Prop :=
  weight Node.size (fs.withData path node (overwrite node.data pos bytes)) ≤ cap

/-- The greatest part of the buffer for which the files are within the cap, and zero if the gap
    alone is too much. -/
def State.Most (fs : State) (path : Path) (node : Node) (pos : Nat) (buf : List UInt8)
    (n : Nat) : Prop :=
  IsGreatest { m | m ≤ buf.length ∧ (m = 0 ∨ fs.Holds path node pos (buf.take m)) } n

def State.Reads (fs : State) (path : Path) (data : List UInt8) : Prop :=
  ∀ fd o, fs.descriptor fd = some o → o.path = path → o.isDir = false →
    ∀ count, ∀ offset : UInt64, fs.call (.pread fd count offset) =
      some (fs, ⟨((data.drop offset.toNat).take count).length, (data.drop offset.toNat).take count⟩)

/-- The call has put the first bytes of the buffer into the file, and nothing else into any node. -/
structure Wrote (fs : State) (path : Path) (node : Node) (pos : Nat) (bytes : List UInt8)
    (fs' : State) (code : Int) : Prop where
  code : code = bytes.length
  content : fs'.nodes.lookup path =
    some { node with data := overwrite node.data pos bytes }
  others : ∀ p, p ≠ path → fs'.nodes.lookup p = fs.nodes.lookup p
  reads : fs'.Reads path (overwrite node.data pos bytes)

section Sound
variable {fs : State} {path : Path} {node : Node}

theorem holds_iff (sound : Sound fs) (present : fs.nodes.lookup path = some node)
    (file : node.isDir = false) (pos : Nat) (bytes : List UInt8) :
    fs.Holds path node pos bytes ↔
      fs.total + (pos + bytes.length - node.data.length) ≤ cap := by
  have size (data : List UInt8) : Node.size { node with data := data } = data.length := by
    simp [Node.size, file]
  have exchange := weight_insert_over Node.size
    { node with data := overwrite node.data pos bytes } present
  rw [size (overwrite node.data pos bytes), overwrite_length, size node.data, ← State.fileBytes,
    ← sound.total] at exchange
  unfold State.Holds State.withData
  omega

theorem most_maxN (sound : Sound fs) (present : fs.nodes.lookup path = some node)
    (file : node.isDir = false) (pos : Nat) (buf : List UInt8) :
    fs.Most path node pos buf (min buf.length (fs.maxN node.data.length pos)) := by
  have capped := sound.capped
  constructor
  · refine ⟨Nat.min_le_left _ _, ?_⟩
    rw [holds_iff sound present file, length_take]
    unfold State.maxN
    simp only
    split <;> omega
  · rintro m ⟨taken, allowed⟩
    rcases allowed with zero | holds
    · omega
    · rw [holds_iff sound present file, length_take] at holds
      unfold State.maxN
      simp only
      split <;> omega

theorem reads_content (present : fs.nodes.lookup path = some node) : fs.Reads path node.data := by
  intro fd o found named plain count offset
  subst named
  have slice : State.readAt node offset.toNat count =
      (node.data.drop offset.toNat).take count := by
    unfold State.readAt
    split
    · rename_i beyond
      rw [drop_eq_nil_of_le beyond, take_nil]
    · rfl
  have answer : fs.pread fd count offset.toNat =
      (((State.readAt node offset.toNat count).length : Int),
        State.readAt node offset.toNat count) := by
    simp [State.pread, found, plain, present]
  rw [State.call, answer, slice]

theorem writeAt_wrote (sound : Sound fs) (present : fs.nodes.lookup path = some node)
    (file : node.isDir = false) (pos : Nat) (given : buf ≠ []) :
    ∃ n, fs.Most path node pos buf n ∧ (n = 0 → fs.writeAt path pos buf = (fs, enospc)) ∧
      (n ≠ 0 → pos + n ≤ cap ∧ Wrote fs path node pos (buf.take n) (fs.writeAt path pos buf).1
        (fs.writeAt path pos buf).2) := by
  have most := most_maxN sound present file pos buf
  have inside := length_le_total sound present
  have capped := sound.capped
  have filled : ¬ buf.length = 0 := fun empty => given (length_eq_zero_iff.mp empty)
  generalize size : min buf.length (fs.maxN node.data.length pos) = n at most
  refine ⟨n, most, ?_, ?_⟩
  · intro zero
    simp [State.writeAt, present, file, filled, size, zero]
  intro some_
  have taken : (buf.take n).length = n := by
    rw [length_take]
    omega
  have reach : pos + n ≤ cap := by
    unfold State.maxN at size
    simp only at size
    split at size <;> omega
  have newEnd : (pos + n) % 2 ^ 64 = pos + n := by
    unfold cap at reach
    omega
  have padded := overwrite_padded node.data pos (buf.take n)
  simp only [taken] at padded
  have wrote : fs.writeAt path pos buf = ({ fs with
      nodes := fs.withData path node (overwrite node.data pos (buf.take n))
      total := if node.data.length < pos + n then
        (fs.total + (pos + n - node.data.length)) % 2 ^ 64 else fs.total }, (n : Int)) := by
    simp only [State.writeAt, present, file, filled, size, some_, newEnd, padded,
      Bool.false_eq_true, if_false, State.withData]
  have content : (fs.writeAt path pos buf).1.nodes.lookup path =
      some { node with data := overwrite node.data pos (buf.take n) } := by
    rw [wrote]
    exact AList.lookup_insert _
  refine ⟨reach, by rw [wrote, taken], content, ?_, reads_content content⟩
  intro p other
  rw [wrote]
  exact AList.lookup_insert_ne other

end Sound

theorem descriptor_edit (fs : State) (fd g : Int) (keeps : ∀ o, (f o).fd = o.fd) :
    (fs.edit fd f).descriptor g =
      if g = fd then (fs.descriptor fd).map f else fs.descriptor g := by
  unfold State.edit State.descriptor
  induction fs.opens with
  | nil => simp [editFirst]
  | cons first rest ih =>
    rw [editFirst]
    by_cases here : first.fd = fd
    · by_cases same : g = fd
      · simp [here, same, keeps]
      · have apart : ¬ fd = g := fun eq => same eq.symm
        simp [here, same, keeps, apart]
    · rw [if_neg here]
      by_cases there : first.fd = g
      · have apart : ¬ g = fd := fun eq => here (there.trans eq)
        simp [there, apart]
      · simp [find?_cons_of_neg, there, here, decide_false, ih]

/-- The greatest part of the buffer that fits is written, at the offset. If that is nothing, the
    call fails and nothing changes; otherwise the descriptors are as told for the number of
    bytes. -/
def WritesMost (fs : State) (path : Path) (node : Node) (pos : Nat) (buf : List UInt8)
    (table : Nat → Int → Option OpenFd) (fs' : State) (code : Int) : Prop :=
  ∃ n, fs.Most path node pos buf n ∧ (n = 0 → fs' = fs ∧ code = enospc) ∧
    (n ≠ 0 → Wrote fs path node pos (buf.take n) fs' code ∧ fs'.descriptor = table n)

section Calls
variable {fs : State} {path : Path} {node : Node}

theorem wrote_edit
    (wrote : Wrote fs path node pos bytes fs' code) (fd : Int) (f : OpenFd → OpenFd) :
    Wrote fs path node pos bytes (fs'.edit fd f) code := by
  have content : (fs'.edit fd f).nodes.lookup path =
      some { node with data := overwrite node.data pos bytes } := wrote.content
  exact ⟨wrote.code, content, wrote.others, reads_content content⟩

theorem writeAt_descriptor (fs : State) (path : Path) (pos : Nat) (buf : List UInt8) :
    (fs.writeAt path pos buf).1.descriptor = fs.descriptor := by
  unfold State.descriptor
  rw [(writeAt_table fs path pos buf).1]

theorem writeAt_most (sound : Sound fs) (present : fs.nodes.lookup path = some node)
    (file : node.isDir = false) (pos : Nat) (given : buf ≠ []) :
    WritesMost fs path node pos buf (fun _ => fs.descriptor) (fs.writeAt path pos buf).1
      (fs.writeAt path pos buf).2 := by
  obtain ⟨n, most, full, wrote⟩ := writeAt_wrote sound present file pos given
  refine ⟨n, most, ?_, ?_⟩
  · intro zero
    rw [full zero]
    exact ⟨rfl, rfl⟩
  · intro some_
    exact ⟨(wrote some_).2, writeAt_descriptor fs path pos buf⟩

theorem write_eq (found : fs.descriptor fd = some o) (plain : o.isDir = false)
    (writable : o.writable = true) (buf : List UInt8) :
    let pos := if o.append then fs.lengthAt o.path else o.pos
    fs.write fd buf =
      if 0 < (fs.writeAt o.path pos buf).2 then
        ((fs.writeAt o.path pos buf).1.edit fd fun o' =>
          { o' with pos := (pos + (fs.writeAt o.path pos buf).2.toNat) % 2 ^ 64 },
          (fs.writeAt o.path pos buf).2)
      else fs.writeAt o.path pos buf := by
  simp [State.write, found, plain, writable, or_self]

theorem write_most (sound : Sound fs) (present : fs.nodes.lookup path = some node)
    (file : node.isDir = false) (found : fs.descriptor fd = some o) (named : o.path = path)
    (plain : o.isDir = false) (writable : o.writable = true) (given : buf ≠ []) :
    let pos := if o.append then node.data.length else o.pos
    WritesMost fs path node pos buf
      (fun n g => if g = fd then some { o with pos := pos + n } else fs.descriptor g)
      (fs.write fd buf).1 (fs.write fd buf).2 := by
  intro pos
  subst named
  have length : fs.lengthAt o.path = node.data.length := by
    rw [State.lengthAt, present]
    rfl
  have answer := write_eq found plain writable buf
  have offset : (if o.append then fs.lengthAt o.path else o.pos) = pos := by rw [length]
  simp only [offset] at answer
  obtain ⟨n, most, full, wrote⟩ := writeAt_wrote sound present file pos given
  refine ⟨n, most, ?_, ?_⟩
  · intro zero
    rw [answer, full zero]
    exact ⟨rfl, rfl⟩
  intro some_
  obtain ⟨reach, done⟩ := wrote some_
  have taken : n ≤ buf.length := most.1.1
  have count : (fs.writeAt o.path pos buf).2 = n := by
    rw [done.code, length_take, Nat.min_eq_left taken]
  have positive : 0 < (fs.writeAt o.path pos buf).2 := by omega
  have newEnd : (pos + n) % 2 ^ 64 = pos + n := by
    unfold cap at reach
    omega
  rw [answer, if_pos positive]
  simp only [count, Int.toNat_natCast, newEnd] at done ⊢
  refine ⟨wrote_edit done _ _, ?_⟩
  funext g
  rw [descriptor_edit _ _ _ (f := fun o' => { o' with pos := pos + n }) (fun _ => rfl),
    writeAt_descriptor, found]
  rfl

end Calls

/-- In every reachable state, a write of a buffer at an offset of a file writes the greatest part
    of it that fits: directly, through pwrite at any offset, and through write at the position of
    the descriptor or, if it appends, at the end of the file. -/
theorem write_exact_and_maximal (past : List (State × Call)) (s : State)
    (run : Run step initial past s) (path : Path) (node : Node)
    (present : s.nodes.lookup path = some node) (file : node.isDir = false) (buf : List UInt8)
    (given : buf ≠ []) :
    (∀ pos : UInt64, WritesMost s path node pos.toNat buf (fun _ => s.descriptor)
      (s.writeAt path pos.toNat buf).1 (s.writeAt path pos.toNat buf).2) ∧
    ∀ fd o, s.descriptor fd = some o → o.path = path → o.isDir = false → o.writable = true →
      (∀ pos : UInt64, ∃ s' code, s.call (.pwrite fd buf pos) = some (s', .of code) ∧
        WritesMost s path node pos.toNat buf (fun _ => s.descriptor) s' code) ∧
      ∃ s' code, s.call (.write fd buf) = some (s', .of code) ∧
        WritesMost s path node (if o.append then node.data.length else o.pos) buf
          (fun n g => if g = fd then
            some { o with pos := (if o.append then node.data.length else o.pos) + n }
            else s.descriptor g) s' code := by
  have sound := run_sound run
  refine ⟨fun pos => writeAt_most sound present file pos.toNat given, ?_⟩
  intro fd o found named plain writable
  constructor
  · intro pos
    refine ⟨_, _, rfl, ?_⟩
    have passed : s.pwrite fd buf pos.toNat = s.writeAt path pos.toNat buf := by
      simp [State.pwrite, found, plain, writable, named, or_self]
    rw [passed]
    exact writeAt_most sound present file pos.toNat given
  · exact ⟨_, _, rfl, write_most sound present file found named plain writable given⟩

theorem one_byte_behind_gap : ∃ past s node, Run step initial past s ∧
    s.nodes.lookup (text "/tmp/a") = some node ∧ node.isDir = false ∧
    WritesMost s (text "/tmp/a") node (5 : UInt64).toNat [7] (fun _ => s.descriptor)
      (s.writeAt (text "/tmp/a") (5 : UInt64).toNat [7]).1
      (s.writeAt (text "/tmp/a") (5 : UInt64).toNat [7]).2 := by
  obtain ⟨past, s, run, _, test⟩ := run_of_exec (fun _ _ => true) step initial fourBytes
    (fun s => (s.nodes.lookup (text "/tmp/a")).any fun node => !node.isDir) (by decide)
  obtain ⟨node, present, plain⟩ := (Option.any_eq_true _ _).mp test
  have file : node.isDir = false := by simpa using plain
  exact ⟨past, s, node, run, present, file,
    (write_exact_and_maximal past s run _ node present file [7] (by decide)).1 5⟩

end TynKernel.Tmpfs
