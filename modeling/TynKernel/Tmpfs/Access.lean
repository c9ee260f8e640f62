import TynKernel.Tmpfs.Modes

/-!
Which descriptors keep to the flags they were opened with: those that are to write at the end,
and those without write access.
-/
namespace TynKernel.Tmpfs
open Bytes List Option Runs

def State.Takes (fs : State) (path : Path) (pos : Nat) (buf : List UInt8) : Prop :=
  ∃ node, fs.nodes.lookup path = some node ∧ node.isDir = false ∧
    0 < min buf.length (fs.maxN node.data.length pos)

variable {c : Call} {p : Path} {fs' : State}

section Writing
variable {fs : State} {fd : Int} {o : OpenFd} {buf : List UInt8}

theorem writeAt_takes (fs : State) (path : Path) (pos : Nat) (buf : List UInt8) :
    0 < (fs.writeAt path pos buf).2 ↔ fs.Takes path pos buf := by
  unfold State.writeAt State.Takes
  split
  · rename_i absent
    simp [absent, enoent]
  rename_i node present
  simp only [present, Option.some.injEq, exists_eq_left']
  split
  · rename_i dir
    simp [dir, eisdir]
  rename_i file
  simp only [Bool.eq_false_iff.mpr file, true_and]
  split
  · rename_i empty
    simp [empty]
  split
  · rename_i full
    simp [full, enospc]
  rename_i some_
  constructor
  · intro _
    exact Nat.pos_of_ne_zero some_
  · intro positive
    exact Int.natCast_pos.mpr positive

theorem write_code (found : fs.descriptor fd = some o) (plain : o.isDir = false)
    (writable : o.writable = true) (buf : List UInt8) :
    (fs.write fd buf).2 =
      (fs.writeAt o.path (if o.append then fs.lengthAt o.path else o.pos) buf).2 := by
  rw [write_eq found plain writable buf]
  generalize (if o.append then fs.lengthAt o.path else o.pos) = pos
  split <;> rfl

theorem write_takes (found : fs.descriptor fd = some o) (plain : o.isDir = false)
    (writable : o.writable = true) (buf : List UInt8) :
    0 < (fs.write fd buf).2 ↔
      fs.Takes o.path (if o.append then fs.lengthAt o.path else o.pos) buf := by
  rw [← writeAt_takes, write_code found plain writable buf]

theorem write_content (sound : Sound fs) (found : fs.descriptor fd = some o)
    (plain : o.isDir = false) (writable : o.writable = true) (positive : 0 < (fs.write fd buf).2) :
    ∃ node, fs.nodes.lookup o.path = some node ∧
      (buf.take (fs.write fd buf).2.toNat).length = (fs.write fd buf).2.toNat ∧
      (fs.write fd buf).1.nodes.lookup o.path = some { node with
        data := overwrite node.data (if o.append then node.data.length else o.pos)
          (buf.take (fs.write fd buf).2.toNat) } := by
  obtain ⟨node, present, file, fits⟩ := (write_takes found plain writable buf).mp positive
  have given : buf ≠ [] := by
    intro empty
    rw [empty, length_nil, Nat.zero_min] at fits
    exact Nat.lt_irrefl 0 fits
  obtain ⟨n, most, full, wrote⟩ :=
    write_most sound present file found rfl plain writable given
  have some_ : n ≠ 0 := by
    intro zero
    rw [(full zero).2] at positive
    exact absurd positive (by decide)
  obtain ⟨done, _⟩ := wrote some_
  have length : (buf.take n).length = n := by
    rw [length_take, Nat.min_eq_left most.1.1]
  have code : (fs.write fd buf).2.toNat = n := by
    rw [done.code, length]
    rfl
  rw [code]
  exact ⟨node, present, length, done.content⟩

end Writing

namespace Logged

def appender (t : Logged) (p : Path) : Call → Bool
  | .write fd _ => (t.entry fd).any fun e => e.1.path = p && e.2.appends && e.2.writes
  | _ => false

/-- A write through a descriptor that was opened to write at the end, if it writes a byte, puts
    its bytes behind those that the file had. -/
def Appends (t : Logged) : Call → Prop
  | .write fd buf => ∀ o, t.fs.descriptor fd = some o →
    t.appender o.path (.write fd buf) = true → 0 < (t.fs.write fd buf).2 →
    ∃ node, t.fs.nodes.lookup o.path = some node ∧
      (t.fs.write fd buf).1.nodes.lookup o.path =
        some { node with data := node.data ++ buf.take (t.fs.write fd buf).2.toNat }
  | _ => True

/-- A write through a descriptor whose open made the file although it was to write at the end
    finds the position at the end, or takes no byte. -/
def AtEnd (t : Logged) : Call → Prop
  | .write fd buf => ∀ o g, t.entry fd = some (o, g) → g.appends = true → g.writes = true →
    g.created = true → t.fs.Takes o.path o.pos buf → o.pos = t.fs.lengthAt o.path
  | _ => True

def written (t : Logged) (p : Path) : Call → List UInt8
  | .write fd buf =>
    if t.appender p (.write fd buf) then buf.take (t.fs.write fd buf).2.toNat else []
  | _ => []

def Tame (t : Logged) (p : Path) (c : Call) : Prop :=
  t.appender p c = true ∨ ∀ t', log t c = some t' → t'.fs.nodes.lookup p = t.fs.nodes.lookup p

end Logged

def writtenTo (p : Path) : List (Logged × Call) → List UInt8
  | [] => []
  | (t, c) :: earlier => writtenTo p earlier ++ t.written p c

/-- If the file is changed by writers at its end only, their bytes stand in it one after the
    other, behind those it had. -/
def Concatenates (p : Path) (t₀ : Logged) (later : List (Logged × Call)) (t : Logged) : Prop :=
  ∀ node, t₀.fs.nodes.lookup p = some node → (∀ e ∈ later, e.1.Tame p e.2) →
    t.fs.nodes.lookup p = some { node with data := node.data ++ writtenTo p later }

section Appending
variable {t : Logged} {fd : Int} {o : OpenFd} {g : Origin}

theorem recorded_writer (recorded : Recorded o g) (writes : g.writes = true) :
    o.isDir = false ∧ o.writable = true ∧ o.append = (g.appends && !g.created) := by
  cases recorded with
  | dir isDir created append writable access =>
    rw [access] at writes
    cases writes
  | fresh isDir created append writable => simp [isDir, created, append, writable]
  | file isDir created append writable => simp [isDir, created, append, writable, writes]

theorem overwrite_appends (some_ : bytes ≠ []) :
    overwrite old offset bytes = old ++ bytes ↔ offset = old.length := by
  constructor
  · intro same
    have length := congrArg List.length same
    rw [overwrite_length, length_append] at length
    have positive := length_pos_of_ne_nil some_
    omega
  · intro end_
    rw [end_, overwrite_end]

theorem appends_iff (sound : Sound t.fs) (held : List.Forall₂ Recorded t.fs.opens t.origins)
    (c : Call) : t.Appends c ↔ t.AtEnd c := by
  cases c with
  | write fd buf =>
    constructor
    · intro appends o g entry appending writes created takes
      obtain ⟨found, recorded⟩ := entry_recorded held entry
      obtain ⟨plain, writable, append⟩ := recorded_writer recorded writes
      rw [created, Bool.not_true, Bool.and_false] at append
      have positive : 0 < (t.fs.write fd buf).2 := by
        rw [write_takes found plain writable, append]
        exact takes
      have appender : t.appender o.path (.write fd buf) = true := by
        simp [Logged.appender, entry, appending, writes]
      obtain ⟨node, present, length, content⟩ :=
        write_content sound found plain writable positive
      obtain ⟨node', present', content'⟩ := appends o found appender positive
      rw [present] at present'
      cases present'
      rw [content] at content'
      have same := congrArg Node.data (Option.some.inj content')
      simp only [append, Bool.false_eq_true, if_false] at same
      have some_ : buf.take (t.fs.write fd buf).2.toNat ≠ [] := by
        intro empty
        rw [empty, length_nil] at length
        omega
      rw [(overwrite_appends some_).mp same, State.lengthAt, present]
      rfl
    · intro atEnd o found appender positive
      obtain ⟨⟨o', g⟩, entry, mode⟩ := (any_eq_true _ _).mp appender
      obtain ⟨found', recorded⟩ := entry_recorded held entry
      rw [found] at found'
      cases found'
      simp only [decide_true, Bool.true_and, Bool.and_eq_true] at mode
      obtain ⟨plain, writable, append⟩ := recorded_writer recorded mode.2
      obtain ⟨node, present, length, content⟩ :=
        write_content sound found plain writable positive
      have length : t.fs.lengthAt o.path = node.data.length := by
        rw [State.lengthAt, present]
        rfl
      refine ⟨node, present, ?_⟩
      rw [content]
      cases created : g.created with
      | false =>
        rw [created, mode.1] at append
        rw [append, if_pos (by rfl), overwrite_end]
      | true =>
        rw [created, Bool.not_true, Bool.and_false] at append
        have takes := (write_takes found plain writable buf).mp positive
        rw [append] at takes
        have position := atEnd o g entry mode.1 mode.2 created takes
        rw [append, position, length, if_neg (by decide), overwrite_end]
  | _ => exact Iff.rfl

theorem write_idle (sound : Sound fs) (idle : ¬ 0 < (fs.write fd buf).2) :
    (fs.write fd buf).1.nodes = fs.nodes := by
  unfold State.write at idle ⊢
  split
  · rfl
  rename_i o found
  simp only [found] at idle
  split
  · rfl
  rename_i allowed
  simp only [if_neg allowed] at idle ⊢
  generalize (if o.append then fs.lengthAt o.path else o.pos) = pos at idle ⊢
  split
  · rename_i positive
    rw [if_pos positive] at idle
    exact absurd positive idle
  · rename_i none_
    rcases writeAt_outcome sound o.path pos buf with ⟨same, _⟩ | ⟨_, _, _, _, _, _, _, _, positive⟩
    · rw [same]
    · exact absurd positive none_

theorem written_other (other : t.appender p c = false) :
    t.written p c = [] := by
  cases c with
  | write => simp [Logged.written, other]
  | _ => rfl

theorem tame_step (sound : Sound t.fs) (held : List.Forall₂ Recorded t.fs.opens t.origins)
    (appends : t.Appends c) (tame : t.Tame p c) (taken : log t c = some t')
    (present : t.fs.nodes.lookup p = some node) :
    t'.fs.nodes.lookup p = some { node with data := node.data ++ t.written p c } := by
  cases appender : t.appender p c with
  | false =>
    rcases tame with true_ | same
    · rw [appender] at true_
      cases true_
    · rw [written_other appender, append_nil, same t' taken, present]
  | true =>
    cases c with
    | write fd buf =>
      obtain ⟨r, done, _⟩ := log_call taken
      have after : t'.fs = (t.fs.write fd buf).1 := (congrArg Prod.fst (Option.some.inj done)).symm
      obtain ⟨⟨o, g⟩, entry, mode⟩ := (any_eq_true _ _).mp appender
      obtain ⟨found, _⟩ := entry_recorded held entry
      have path : o.path = p := by
        simp only [Bool.and_eq_true, decide_eq_true_eq] at mode
        exact mode.1.1
      subst path
      rw [after, Logged.written, if_pos appender]
      by_cases positive : 0 < (t.fs.write fd buf).2
      · obtain ⟨node', present', content⟩ := appends o found appender positive
        rw [present] at present'
        cases present'
        exact content
      · have none_ : (t.fs.write fd buf).2.toNat = 0 := by omega
        rw [write_idle sound positive, none_, take_zero, append_nil, present]
    | _ => cases appender

theorem concatenates (before : Run log unopened earlier t₀) (run : Run log t₀ later t)
    (appends : ∀ e ∈ later, e.1.Appends e.2) (p : Path) : Concatenates p t₀ later t := by
  intro node present tame
  induction run with
  | nil => rw [writtenTo, append_nil, present]
  | @snoc past s s' c run taken ih =>
    have here : (s, c) ∈ (s, c) :: past := mem_cons_self
    have whole := run_append before run
    have now := ih (fun e member => appends e (mem_cons_of_mem _ member))
      (fun e member => tame e (mem_cons_of_mem _ member))
    rw [tame_step (logged_sound whole) (run_recorded whole) (appends _ here) (tame _ here) taken
      now]
    simp [writtenTo]

end Appending

/-- In every run from a reachable state: the writes through descriptors that were opened to write
    at the end do so, and a file that is changed by such writes only has their bytes one after
    the other, exactly if a descriptor whose open made the file finds its position at the end
    whenever it writes a byte. -/
theorem append_writes_iff {earlier later : List (Logged × Call)} {t₀ t : Logged}
    (before : Run log unopened earlier t₀) (run : Run log t₀ later t) :
    ((∀ e ∈ later, e.1.Appends e.2) ∧ ∀ p, Concatenates p t₀ later t) ↔
      ∀ e ∈ later, e.1.AtEnd e.2 := by
  have each : ∀ e ∈ later, e.1.Appends e.2 ↔ e.1.AtEnd e.2 := by
    intro e member
    obtain ⟨middle, reached⟩ := run_reaches run member
    have whole := run_append before reached
    exact appends_iff (logged_sound whole) (run_recorded whole) e.2
  constructor
  · rintro ⟨appends, _⟩ e member
    exact (each e member).mp (appends e member)
  · intro atEnd
    have appends : ∀ e ∈ later, e.1.Appends e.2 :=
      fun e member => (each e member).mpr (atEnd e member)
    exact ⟨appends, concatenates before run appends⟩

def secondWriter : List Call :=
  [.open_ (text "/tmp/a") (oCreat ||| oWronly) 0, .write 4000 [1],
    .open_ (text "/tmp/a") (oWronly ||| oAppend) 0]

theorem second_writer_appends : ∃ earlier t₀ t, Run log unopened earlier t₀ ∧
    Run log t₀ [(t₀, .write 4001 [2])] t ∧ t₀.appender (text "/tmp/a") (.write 4001 [2]) = true ∧
    t₀.Appends (.write 4001 [2]) := by
  obtain ⟨earlier, t₀, before, _, test⟩ := run_of_exec (fun _ _ => true) log unopened secondWriter
    (fun t => t.appender (text "/tmp/a") (.write 4001 [2]) &&
      decide ((t.entry 4001).map (fun e => e.2.created) = some false) &&
      (log t (.write 4001 [2])).isSome) (by decide)
  simp only [Bool.and_eq_true, decide_eq_true_eq] at test
  obtain ⟨⟨appender, existed⟩, returns⟩ := test
  obtain ⟨t, taken⟩ := isSome_iff_exists.mp returns
  have run : Run log t₀ [(t₀, .write 4001 [2])] t := .snoc .nil taken
  have atEnd : t₀.AtEnd (.write 4001 [2]) := by
    intro o g entry _ _ created
    rw [entry] at existed
    exact absurd (created.symm.trans (Option.some.inj existed)) (by decide)
  have all := (append_writes_iff before run).mpr (by simpa using atEnd)
  exact ⟨earlier, t₀, t, before, run, appender, all.1 (t₀, .write 4001 [2]) (by simp)⟩

def twoWriters : List Call :=
  [.open_ (text "/tmp/a") (oCreat ||| oWronly ||| oAppend) 0,
    .open_ (text "/tmp/a") (oCreat ||| oWronly ||| oAppend) 0, .write 4000 [1], .write 4001 [2]]

/-- The next byte of the first writer lies over the byte of the second. -/
theorem creator_overwrites : ∃ past t t', Run log unopened past t ∧
    log t (.write 4000 [3]) = some t' ∧
    t.appender (text "/tmp/a") (.write 4000 [3]) = true ∧ (t.fs.write 4000 [3]).2 = 1 ∧
    (t.fs.nodes.lookup (text "/tmp/a")).map Node.data = some [1, 2] ∧
    (t'.fs.nodes.lookup (text "/tmp/a")).map Node.data = some [1, 3] := by
  obtain ⟨past, t, run, _, test⟩ := run_of_exec (fun _ _ => true) log unopened twoWriters
    (fun t => t.appender (text "/tmp/a") (.write 4000 [3]) &&
      decide ((t.fs.write 4000 [3]).2 = 1) &&
      decide ((t.fs.nodes.lookup (text "/tmp/a")).map Node.data = some [1, 2]) &&
      (log t (.write 4000 [3])).any fun t' : Logged =>
        decide ((t'.fs.nodes.lookup (text "/tmp/a")).map Node.data = some [1, 3]))
    (by decide)
  simp only [Bool.and_eq_true, decide_eq_true_eq] at test
  obtain ⟨⟨⟨appender, code⟩, content⟩, after⟩ := test
  obtain ⟨t', taken, content'⟩ := (any_eq_true _ _).mp after
  exact ⟨past, t, t', run, taken, appender, code, content, of_decide_eq_true content'⟩

def Call.via : Call → Option Int
  | .write fd _ | .pwrite fd _ _ | .read fd _ | .pread fd _ _ | .lseek fd _ _ | .ftruncate fd _
  | .close fd | .getdents64 fd _ => some fd
  | _ => none

def Call.mutates : Call → Bool
  | .write .. | .pwrite .. | .ftruncate .. => true
  | _ => false

def State.dataAt (fs : State) (p : Path) : Option (List UInt8) :=
  (fs.nodes.lookup p).map Node.data

/-- The call returns, the data of every node are what they were, and it fails if it was to change
    them. -/
def Harmless (fs : State) (c : Call) : Prop :=
  ∃ fs' r, fs.call c = some (fs', r) ∧ (∀ p, fs'.dataAt p = fs.dataAt p) ∧
    (c.mutates = true → r.code < 0)

def State.Accepts (fs : State) (path : Path) (pos : Nat) (buf : List UInt8) : Prop :=
  ∃ node, fs.nodes.lookup path = some node ∧ node.isDir = false ∧
    (buf = [] ∨ 0 < fs.maxN node.data.length pos)

/-- What stands between the call and the file when the descriptor is not for writing: its open did
    not make the file, or the file system has no place for the bytes. -/
def Stopped (fs : State) (o : OpenFd) (g : Origin) : Call → Prop
  | .write _ buf => g.created = false ∨ ¬ fs.Accepts o.path o.pos buf
  | .pwrite _ buf offset => g.created = false ∨ ¬ fs.Accepts o.path offset.toNat buf
  | .ftruncate _ len => o.isDir = true ∨ ¬ fs.Resizes o.path len.toNat
  | _ => True

section ReadOnly
variable {fs : State} {fd : Int} {o : OpenFd} {g : Origin}

theorem harmless_iff_fails (done : fs.call c = some (fs', .of code)) (mutates : c.mutates = true)
    (idle : code < 0 → fs'.nodes = fs.nodes) : Harmless fs c ↔ code < 0 := by
  constructor
  · rintro ⟨fs'', r, done', _, fails⟩
    rw [done] at done'
    cases done'
    exact fails mutates
  · intro error
    refine ⟨fs', .of code, done, ?_, fun _ => error⟩
    intro p
    rw [State.dataAt, idle error, State.dataAt]

theorem writeAt_accepts (fs : State) (path : Path) (pos : Nat) (buf : List UInt8) :
    (fs.writeAt path pos buf).2 < 0 ↔ ¬ fs.Accepts path pos buf := by
  unfold State.writeAt State.Accepts
  split
  · rename_i absent
    simp [absent, enoent]
  rename_i node present
  simp only [present, Option.some.injEq, exists_eq_left']
  split
  · rename_i dir
    simp [dir, eisdir]
  rename_i file
  simp only [Bool.eq_false_iff.mpr file, true_and]
  split
  · rename_i empty
    simp [length_eq_zero_iff.mp empty]
  rename_i filled
  have given : ¬ buf = [] := fun empty => filled (by rw [empty]; rfl)
  simp only [given, false_or]
  split
  · have none_ : ¬ 0 < fs.maxN node.data.length pos := by omega
    simp [none_, enospc]
  · have room : 0 < fs.maxN node.data.length pos := by omega
    omega

theorem resizePath_fails (fs : State) (path : Path) (len : Nat) :
    (∃ code, fs.resizePath path len = some (fs, code) ∧ code < 0) ∧ ¬ fs.Resizes path len ∨
      (∀ r, fs.resizePath path len = some r → r.2 = 0) ∧ fs.Resizes path len := by
  rcases resizePath_cases fs path len with
    ⟨beyond, refused⟩ | ⟨node, total, present, file, fits, resized⟩
  · exact .inl ⟨refused, beyond⟩
  refine .inr ⟨?_, node, present, file, fun grows => ?_⟩
  · intro r done
    rw [resized] at done
    split at done
    · cases done
    · cases done
      rfl
  · rw [if_pos grows] at fits
    exact fits.2 ▸ fits.1

theorem ftruncate_harmless (found : fs.descriptor fd = some o) (len : UInt64) :
    Harmless fs (.ftruncate fd len) ↔ o.isDir = true ∨ ¬ fs.Resizes o.path len.toNat := by
  cases dir : o.isDir with
  | true =>
    have done : fs.call (.ftruncate fd len) = some (fs, .of eisdir) := by
      simp [State.call, State.ftruncate, found, dir]
    rw [harmless_iff_fails done rfl fun _ => rfl]
    simp [eisdir]
  | false =>
    have passed : fs.ftruncate fd len.toNat = fs.resizePath o.path len.toNat := by
      simp [State.ftruncate, found, dir]
    simp only [Bool.false_eq_true, false_or]
    rcases resizePath_fails fs o.path len.toNat with
      ⟨⟨code, refused, error⟩, beyond⟩ | ⟨returns, fits⟩
    · have done : fs.call (.ftruncate fd len) = some (fs, .of code) := by
        simp [State.call, passed, refused]
      rw [harmless_iff_fails done rfl fun _ => rfl]
      exact ⟨fun _ => beyond, fun _ => error⟩
    · constructor
      · rintro ⟨fs', r, done, _, fails⟩
        simp only [State.call, passed] at done
        obtain ⟨r', returned, same⟩ := map_eq_some_iff.mp done
        cases same
        have zero := returns r' returned
        have error := fails rfl
        simp only [Reply.of, zero] at error
        exact absurd error (by decide)
      · intro refused
        exact absurd fits refused

theorem via_nodes (sound : Sound fs) (via : c.via = some fd) (passive : c.mutates = false)
    (done : fs.call c = some (fs', r)) : fs'.nodes = fs.nodes := by
  have effect := (call_effect sound done).nodes
  generalize fs'.nodes = nodes, fs'.total = total, r.code = code at effect ⊢
  cases effect with
  | same => rfl
  | rewrite c path node data total code writes =>
    cases c with
    | open_ path flags mode | truncate path len => cases via
    | write fd buf | pwrite fd buf offset | ftruncate fd len => cases passive
    | _ => cases writes
  | _ => cases via

theorem passive_harmless (sound : Sound fs) (via : c.via = some fd) (passive : c.mutates = false) :
    Harmless fs c := by
  have short : c.Short := by
    cases c with
    | truncate => cases via
    | ftruncate => cases passive
    | _ => exact trivial
  obtain ⟨⟨fs', r⟩, done⟩ := call_returns fs short
  refine ⟨fs', r, done, ?_, ?_⟩
  · intro p
    rw [State.dataAt, via_nodes sound via passive done, State.dataAt]
  · intro mutates
    rw [passive] at mutates
    cases mutates

theorem harmless_iff_stopped (sound : Sound fs) (found : fs.descriptor fd = some o)
    (recorded : Recorded o g) (readOnly : g.writes = false) (via : c.via = some fd) :
    Harmless fs c ↔ Stopped fs o g c := by
  have closed : g.created = false → o.writable = false := by
    intro existed
    cases recorded with
    | dir isDir created append writable => exact writable
    | fresh isDir created =>
      rw [created] at existed
      cases existed
    | file isDir created append writable => exact writable.trans readOnly
  have opened : g.created = true → o.isDir = false ∧ o.append = false ∧ o.writable = true := by
    intro made
    cases recorded with
    | fresh isDir created append writable => exact ⟨isDir, append, writable⟩
    | _ isDir created =>
      rw [created] at made
      cases made
  cases c with
  | write =>
    cases via
    rw [harmless_iff_fails rfl rfl fun error => write_idle sound (by omega)]
    cases created : g.created with
    | false => simp [Stopped, created, State.write, found, closed created, ebadf]
    | true =>
      obtain ⟨plain, append, writable⟩ := opened created
      rw [write_code found plain writable, append, writeAt_accepts]
      simp [Stopped, created]
  | pwrite fd' buf offset =>
    cases via
    cases created : g.created with
    | false =>
      rw [harmless_iff_fails rfl rfl fun _ => by simp [State.pwrite, found, closed created]]
      simp [Stopped, created, State.pwrite, found, closed created, ebadf]
    | true =>
      obtain ⟨plain, append, writable⟩ := opened created
      have passed : fs.pwrite fd buf offset.toNat = fs.writeAt o.path offset.toNat buf := by
        simp [State.pwrite, found, plain, writable]
      have done : fs.call (.pwrite fd buf offset) = some ((fs.writeAt o.path offset.toNat buf).1,
          .of (fs.writeAt o.path offset.toNat buf).2) := by
        rw [State.call, passed]
      rw [harmless_iff_fails done rfl ?_, writeAt_accepts]
      · simp [Stopped, created]
      intro error
      rcases writeAt_outcome sound o.path offset.toNat buf with
        ⟨same, _⟩ | ⟨_, _, _, _, _, _, _, _, positive⟩
      · rw [same]
      · omega
  | ftruncate fd' len =>
    cases via
    exact ftruncate_harmless found len
  | _ => exact ⟨fun _ => trivial, fun _ => passive_harmless sound via rfl⟩

end ReadOnly

/-- In every reachable state, a call through a descriptor that was opened without write access
    leaves the data of all nodes, and fails if it was to change them, exactly if it is stopped: a
    write or pwrite since the open did not make the file or no file takes the bytes, an ftruncate
    since there is no file or the length is over the cap. -/
theorem readonly_harmless_iff (past : List (Logged × Call)) (t : Logged)
    (run : Run log unopened past t) (fd : Int) (o : OpenFd) (g : Origin)
    (entry : t.entry fd = some (o, g)) (readOnly : g.writes = false) (c : Call)
    (via : c.via = some fd) : Harmless t.fs c ↔ Stopped t.fs o g c := by
  obtain ⟨found, recorded⟩ := entry_recorded (run_recorded run) entry
  exact harmless_iff_stopped (logged_sound run) found recorded readOnly via

def oneReader : List Call :=
  [.open_ (text "/tmp/a") (oCreat ||| oWronly) 0, .write 4000 [1], .open_ (text "/tmp/a") 0 0]

theorem reader_cannot_write : ∃ past t o g, Run log unopened past t ∧
    t.entry 4001 = some (o, g) ∧ g.writes = false ∧ Harmless t.fs (.write 4001 [2]) := by
  obtain ⟨past, t, run, _, test⟩ := run_of_exec (fun _ _ => true) log unopened oneReader
    (fun t => (t.entry 4001).any fun e => !e.2.writes && !e.2.created) (by decide)
  obtain ⟨⟨o, g⟩, entry, mode⟩ := (any_eq_true _ _).mp test
  simp only [Bool.and_eq_true, Bool.not_eq_true'] at mode
  exact ⟨past, t, o, g, run, entry, mode.1,
    (readonly_harmless_iff past t run 4001 o g entry mode.1 (.write 4001 [2]) rfl).mpr
      (.inl mode.2)⟩

def twoReaders : List Call :=
  [.open_ (text "/tmp/a") oCreat 0, .write 4000 [1], .open_ (text "/tmp/a") 0 0]

/-- The first reader writes a byte more, and the second one cuts the file. -/
theorem readers_change_data : ∃ past t, Run log unopened past t ∧
    (t.entry 4000).map (fun e => e.2.writes) = some false ∧
    (t.entry 4001).map (fun e => e.2.writes) = some false ∧
    t.fs.dataAt (text "/tmp/a") = some [1] ∧
    (t.fs.call (.write 4000 [2])).map (fun r => (r.1.dataAt (text "/tmp/a"), r.2.code)) =
      some (some [1, 2], 1) ∧
    (t.fs.call (.ftruncate 4001 0)).map (fun r => (r.1.dataAt (text "/tmp/a"), r.2.code)) =
      some (some [], 0) := by
  obtain ⟨past, t, run, _, test⟩ := run_of_exec (fun _ _ => true) log unopened twoReaders
    (fun t => decide ((t.entry 4000).map (fun e => e.2.writes) = some false ∧
      (t.entry 4001).map (fun e => e.2.writes) = some false ∧
      t.fs.dataAt (text "/tmp/a") = some [1] ∧
      (t.fs.call (.write 4000 [2])).map (fun r => (r.1.dataAt (text "/tmp/a"), r.2.code)) =
        some (some [1, 2], 1) ∧
      (t.fs.call (.ftruncate 4001 0)).map (fun r => (r.1.dataAt (text "/tmp/a"), r.2.code)) =
        some (some [], 0))) (by decide)
  exact ⟨past, t, run, of_decide_eq_true test⟩

end TynKernel.Tmpfs
