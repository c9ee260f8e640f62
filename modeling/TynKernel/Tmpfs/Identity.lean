import TynKernel.Tmpfs.Tree

/-!
Descriptors and the files they were opened on. To speak about one creation of a node, a run is
traced: every node that is made gets a number of its own, and a rename takes the number along.
-/
namespace TynKernel.Tmpfs
open Bytes Runs Weights

def State.kind (fs : State) (p : Path) : Option Bool := (fs.nodes.lookup p).map Node.isDir

structure Traced where
  fs : State
  file : Path → Nat
  born : Nat

def Makes (fs fs' : State) (p : Path) : Prop := fs.kind p = none ∧ fs'.kind p ≠ none

instance (fs fs' : State) (p : Path) : Decidable (Makes fs fs' p) :=
  inferInstanceAs (Decidable (_ ∧ _))

def Traced.make (t : Traced) (fs' : State) (p : Path) : Traced :=
  if Makes t.fs fs' p then ⟨fs', fun q => if q = p then t.born else t.file q, t.born + 1⟩
  else ⟨fs', t.file, t.born⟩

def Traced.follow (t : Traced) (fs' : State) (code : Int) : Call → Traced
  | .open_ path _ _ | .mkdir path _ => t.make fs' (norm path)
  | .rename old new =>
    if norm old ≠ norm new ∧ code = 0 then
      ⟨fs', fun q => if q = norm new then t.file (norm old) else t.file q, t.born⟩
    else ⟨fs', t.file, t.born⟩
  | _ => ⟨fs', t.file, t.born⟩

def trace (t : Traced) (c : Call) : Option Traced :=
  (t.fs.call c).map fun r => t.follow r.1 r.2.code c

def start : Traced := ⟨initial, fun p => if p = text "/tmp" then 0 else 1, 2⟩

variable {k q : Path} {v node : Node} {r : Reply} {x : Int} {o : OpenFd}

theorem make_fs (t : Traced) (fs' : State) (p : Path) : (t.make fs' p).fs = fs' := by
  unfold Traced.make
  split <;> rfl

theorem follow_fs (t : Traced) (fs' : State) (code : Int) (c : Call) :
    (t.follow fs' code c).fs = fs' := by
  cases c with
  | open_ path flags mode | mkdir path mode => exact make_fs t fs' _
  | rename =>
    simp only [Traced.follow]
    split <;> rfl
  | _ => rfl

theorem trace_fs (t : Traced) (c : Call) : (trace t c).map Traced.fs = step t.fs c := by
  unfold trace step
  cases t.fs.call c with
  | none => rfl
  | some r => exact congrArg some (follow_fs t r.1 r.2.code c)

def Recreates (fs : State) (p : Path) (c : Call) : Prop :=
  ∃ q flags mode, c = .open_ q flags mode ∧ norm q = p ∧ fs.kind p = none ∧
    fs.admits q flags = true

/-- The calls that put another file at the path or take a file from it to another path. -/
def Disturbs (fs : State) (p : Path) (c : Call) : Prop :=
  Recreates fs p c ∨
    ∃ old new, Moves fs c old new ∧ fs.kind (norm old) = some false ∧ (norm old = p ∨ norm new = p)

inductive NameEffect (t : Traced) (c : Call) (t' : Traced) : Prop where
  | kept (kinds : ∀ q, t'.fs.kind q = t.fs.kind q) (file : t'.file = t.file)
      (born : t'.born = t.born) (quiet : ∀ q, ¬ Disturbs t.fs q c)
  | made (p : Path) (dir : Bool) (absent : t.fs.kind p = none)
      (kinds : ∀ q, t'.fs.kind q = if q = p then some dir else t.fs.kind q)
      (file : ∀ q, t'.file q = if q = p then t.born else t.file q) (born : t'.born = t.born + 1)
      (disturbs : ∀ q, Disturbs t.fs q c ↔ q = p ∧ dir = false)
  | gone (p : Path) (kinds : ∀ q, t'.fs.kind q = if q = p then none else t.fs.kind q)
      (file : t'.file = t.file) (born : t'.born = t.born) (quiet : ∀ q, ¬ Disturbs t.fs q c)
  | moved (o nw : Path) (dir : Bool) (apart : o ≠ nw) (source : t.fs.kind o = some dir)
      (kinds : ∀ q, t'.fs.kind q =
        if q = nw then some dir else if q = o then none else t.fs.kind q)
      (file : ∀ q, t'.file q = if q = nw then t.file o else t.file q) (born : t'.born = t.born)
      (disturbs : ∀ q, Disturbs t.fs q c ↔ dir = false ∧ (q = o ∨ q = nw))

section Names
variable {fs fs' : State}

theorem kind_insert (nodes : fs'.nodes = fs.nodes.insert k v) (q : Path) :
    fs'.kind q = if q = k then some v.isDir else fs.kind q := by
  unfold State.kind
  rw [nodes, lookup_write]
  split <;> rfl

theorem kind_erase (nodes : fs'.nodes = fs.nodes.erase k) (q : Path) :
    fs'.kind q = if q = k then none else fs.kind q := by
  unfold State.kind
  rw [nodes, lookup_erased]
  split <;> rfl

theorem kind_rename {o nw : Path}
    (nodes : fs'.nodes = ((fs.nodes.erase nw).erase o).insert nw src) (q : Path) :
    fs'.kind q = if q = nw then some src.isDir else if q = o then none else fs.kind q := by
  unfold State.kind
  rw [nodes, rename_lookup]
  split
  · rfl
  · split <;> rfl

theorem kind_rewrite (nodes : fs'.nodes = fs.nodes.insert p { node with data := data })
    (present : fs.nodes.lookup p = some node) (q : Path) : fs'.kind q = fs.kind q := by
  rw [kind_insert nodes]
  split
  · rename_i same
    rw [same, State.kind, present]
    rfl
  · rfl

theorem disturbs_rename :
    Disturbs fs q (.rename old new) ↔ (∃ src, Renames fs old new src) ∧
      fs.kind (norm old) = some false ∧ (norm old = q ∨ norm new = q) := by
  constructor
  · rintro (⟨_, _, _, call, _⟩ | ⟨_, _, ⟨call, can⟩, file, path⟩)
    · cases call
    · cases call
      exact ⟨can, file, path⟩
  · rintro ⟨can, file, path⟩
    exact .inr ⟨old, new, ⟨rfl, can⟩, file, path⟩

theorem makes_insert (nodes : fs'.nodes = fs.nodes.insert p v) (absent : fs.nodes.lookup p = none) :
    Makes fs fs' p := by
  refine ⟨by rw [State.kind, absent]; rfl, ?_⟩
  rw [kind_insert nodes, if_pos rfl]
  exact Option.some_ne_none _

theorem makes_iff (fs : State) (path : Path) (flags mode : Nat) :
    Makes fs (fs.open_ path flags mode).1 (norm path) ↔
      fs.kind (norm path) = none ∧ fs.admits path flags = true := by
  refine and_congr_right fun absent => ?_
  rcases open_cases fs path flags mode with
    ⟨closed, code, refused, _⟩ | ⟨admitted, _, pos, _, _, _, pushed, ready⟩
  · simp [closed, refused, absent]
  · refine iff_of_true ?_ admitted
    have empty := Option.map_eq_none_iff.mp absent
    rw [pushed]
    cases ready with
    | created => exact (makes_insert rfl empty).2
    | dir node present | file node present | emptied node present =>
      cases empty.symm.trans present

theorem disturbs_open :
    Disturbs fs q (.open_ path flags mode) ↔
      norm path = q ∧ Makes fs (fs.open_ path flags mode).1 q := by
  constructor
  · rintro (⟨_, _, _, call, rfl, makes⟩ | ⟨_, _, ⟨call, _⟩, _⟩)
    · cases call
      exact ⟨rfl, (makes_iff ..).mpr makes⟩
    · cases call
  · rintro ⟨rfl, makes⟩
    exact .inl ⟨_, _, _, rfl, rfl, (makes_iff ..).mp makes⟩

def Call.plain : Call → Bool
  | .open_ .. | .rename .. => false
  | _ => true

theorem plain_quiet (plain : c.plain = true) (q : Path) : ¬ Disturbs fs q c := by
  rintro (⟨_, _, _, call, _⟩ | ⟨_, _, ⟨call, _⟩, _⟩) <;> rw [call] at plain <;> cases plain

theorem not_makes (kinds : ∀ q, fs'.kind q = fs.kind q) (p : Path) : ¬ Makes fs fs' p := by
  rintro ⟨absent, there⟩
  rw [kinds] at there
  exact there absent

end Names

theorem make_kept {t : Traced} (kinds : ∀ q, fs'.kind q = t.fs.kind q) (p : Path) :
    t.make fs' p = ⟨fs', t.file, t.born⟩ :=
  if_neg (not_makes kinds p)

theorem kept_effect {t : Traced} {c : Call} {fs' : State} (done : t.fs.call c = some (fs', r))
    (kinds : ∀ q, fs'.kind q = t.fs.kind q) (idle : Idle t.fs c r.code) :
    NameEffect t c (t.follow fs' r.code c) := by
  cases c with
  | open_ =>
    simp only [Traced.follow, make_kept kinds]
    refine .kept kinds rfl rfl ?_
    intro q disturbs
    cases done
    exact not_makes kinds q (disturbs_open.mp disturbs).2
  | mkdir =>
    simp only [Traced.follow, make_kept kinds]
    exact .kept kinds rfl rfl (plain_quiet rfl)
  | rename old new =>
    have still : ¬ (norm old ≠ norm new ∧ r.code = 0) :=
      fun moves => (idle old new rfl).1 moves.1 moves.2
    simp only [Traced.follow, if_neg still]
    refine .kept kinds rfl rfl ?_
    intro q disturbs
    obtain ⟨src, can⟩ := (disturbs_rename.mp disturbs).1
    exact (idle old new rfl).2 src can
  | _ => exact .kept kinds rfl rfl (plain_quiet rfl)

theorem trace_effect {t t' : Traced} (sound : Sound t.fs)
    (taken : trace t c = some t') : NameEffect t c t' := by
  obtain ⟨⟨fs', r⟩, done, same⟩ := Option.map_eq_some_iff.mp taken
  subst same
  have effect := (call_effect sound done).nodes
  generalize nodesEq : fs'.nodes = nodes, fs'.total = total, codeEq : r.code = code at effect
  cases effect with
  | same _ _ idle =>
    rw [← codeEq] at idle ⊢
    apply kept_effect done _ idle
    intro q
    rw [State.kind, nodesEq, State.kind]
  | create path flags mode perm up _ absent =>
    have makes := makes_insert nodesEq absent
    simp only [Traced.follow, Traced.make, if_pos makes]
    refine .made (norm path) false makes.1 (kind_insert nodesEq) (fun _ => rfl) rfl ?_
    intro q
    rw [disturbs_open]
    cases done
    constructor
    · rintro ⟨path, _⟩
      exact ⟨path.symm, rfl⟩
    · rintro ⟨path, _⟩
      exact ⟨path.symm, path ▸ makes⟩
  | mkdir path mode perm up absent =>
    have makes := makes_insert nodesEq absent
    simp only [Traced.follow, Traced.make, if_pos makes]
    refine .made (norm path) true makes.1 (kind_insert nodesEq) (fun _ => rfl) rfl ?_
    intro q
    simp [plain_quiet (c := .mkdir path mode) rfl q]
  | rewrite _ path node data _ _ writes present =>
    rw [← codeEq]
    exact kept_effect done (kind_rewrite nodesEq present) (idle_other _ (writes_other writes))
  | unlink path | rmdir path =>
    exact .gone (norm path) (kind_erase nodesEq) rfl rfl (plain_quiet rfl)
  | rename old new src _ can =>
    have kind : t.fs.kind (norm old) = some src.isDir := by
      rw [State.kind, can.source]
      rfl
    rw [Traced.follow, if_pos ⟨can.apart, rfl⟩]
    refine .moved (norm old) (norm new) src.isDir can.apart kind (kind_rename nodesEq) (fun _ => rfl) rfl ?_
    intro q
    rw [disturbs_rename, kind]
    constructor
    · rintro ⟨_, file, path⟩
      exact ⟨Option.some.inj file, path.imp Eq.symm Eq.symm⟩
    · rintro ⟨file, path⟩
      exact ⟨⟨src, can⟩, congrArg some file, path.imp Eq.symm Eq.symm⟩
  | clobber old new clobbers =>
    have error : ¬ (norm old ≠ norm new ∧ einval = 0) := fun moves => absurd moves.2 (by decide)
    simp only [Traced.follow, if_neg error]
    refine .gone (norm new) (kind_erase nodesEq) rfl rfl ?_
    intro q disturbs
    obtain ⟨src, can⟩ := (disturbs_rename.mp disturbs).1
    exact clobbers_stays clobbers src can

structure Distinct (t : Traced) : Prop where
  sound : Sound t.fs
  below : ∀ p, t.fs.kind p ≠ none → t.file p < t.born
  apart : ∀ p q, t.fs.kind p ≠ none → t.fs.kind q ≠ none → t.file p = t.file q → p = q

theorem trace_step (taken : trace t c = some t') : step t.fs c = some t'.fs := by
  rw [← trace_fs, taken]
  rfl

theorem distinct_same (distinct : Distinct t) (sound : Sound t'.fs) (file : t'.file = t.file)
    (born : t'.born = t.born) (old : ∀ p, t'.fs.kind p ≠ none → t.fs.kind p ≠ none) :
    Distinct t' := by
  constructor
  · exact sound
  · intro p there
    rw [file, born]
    exact distinct.below p (old p there)
  · intro p q here there
    rw [file]
    exact distinct.apart p q (old p here) (old q there)

theorem distinct_put (distinct : Distinct t) (sound : Sound t'.fs)
    (file : ∀ q, t'.file q = if q = k then n else t.file q) (new : n < t'.born)
    (grows : t.born ≤ t'.born)
    (old : ∀ p, t'.fs.kind p ≠ none → p ≠ k → t.fs.kind p ≠ none ∧ t.file p ≠ n) : Distinct t' := by
  constructor
  · exact sound
  · intro p there
    rw [file]
    split
    · exact new
    · rename_i other
      exact Nat.lt_of_lt_of_le (distinct.below p (old p there other).1) grows
  · intro p q here there
    rw [file, file]
    split <;> split
    · rename_i first second
      intro _
      rw [first, second]
    · rename_i other
      exact fun same => absurd same.symm (old q there other).2
    · rename_i other _
      exact fun same => absurd same (old p here other).2
    · rename_i first second
      exact distinct.apart p q (old p here first).1 (old q there second).1

theorem trace_distinct (distinct : Distinct t) (taken : trace t c = some t') : Distinct t' := by
  have sound := step_sound distinct.sound (trace_step taken)
  cases trace_effect distinct.sound taken with
  | kept kinds file born =>
    apply distinct_same distinct sound file born
    intro p there
    rwa [kinds] at there
  | gone k kinds file born =>
    apply distinct_same distinct sound file born
    intro p there
    rw [kinds] at there
    split at there
    · exact absurd rfl there
    · exact there
  | made k dir absent kinds file =>
    apply distinct_put distinct sound file (by omega) (by omega)
    intro p there other
    rw [kinds, if_neg other] at there
    exact ⟨there, Nat.ne_of_lt (distinct.below p there)⟩
  | moved o nw dir apart source kinds file =>
    have live : t.fs.kind o ≠ none := by
      rw [source]
      exact Option.some_ne_none _
    have new := distinct.below o live
    apply distinct_put distinct sound file (by omega) (by omega)
    intro p there other
    rw [kinds, if_neg other] at there
    split at there
    · exact absurd rfl there
    · rename_i different
      exact ⟨there, fun same => different (distinct.apart p o there live same)⟩

theorem distinct_start : Distinct start := by
  have kinds : ∀ p, start.fs.kind p ≠ none → p = text "/dev/shm" ∨ p = text "/tmp" := by
    intro p there
    simp only [start, State.kind, initial, lookup_write] at there
    split at there
    · exact .inl ‹_›
    · split at there
      · exact .inr ‹_›
      · exact absurd rfl there
  refine ⟨sound_initial, ?_, ?_⟩
  · intro p _
    simp only [start]
    split <;> decide
  · intro p q here there
    rcases kinds p here with first | first <;> rcases kinds q there with second | second <;>
      rw [first, second] <;> decide

theorem run_distinct (run : Run trace start past t) : Distinct t :=
  run_invariant Distinct distinct_start (fun _ _ _ distinct taken => trace_distinct distinct taken) run

def Finds (fs : State) (fd : Int) (p : Path) : Prop :=
  ∃ o, fs.descriptor fd = some o ∧ o.path = p ∧ o.isDir = false

theorem editFirst_find (keeps : ∀ o, (f o).fd = o.fd ∧ (f o).path = o.path ∧ (f o).isDir = o.isDir)
    (found : opens.find? (fun o => o.fd = x) = some o) :
    ∃ o', (editFirst fd f opens).find? (fun o => o.fd = x) = some o' ∧ o'.path = o.path ∧
      o'.isDir = o.isDir := by
  induction opens with
  | nil => cases found
  | cons first rest ih =>
    rw [editFirst]
    by_cases here : first.fd = x
    · rw [List.find?_cons_of_pos (by simpa using here)] at found
      cases found
      split
      · refine ⟨f o, List.find?_cons_of_pos ?_, (keeps o).2⟩
        simpa [(keeps o).1] using here
      · exact ⟨o, List.find?_cons_of_pos (by simpa using here), rfl, rfl⟩
    · rw [List.find?_cons_of_neg (by simpa using here)] at found
      split
      · refine ⟨o, ?_, rfl, rfl⟩
        rw [List.find?_cons_of_neg, found]
        simpa [(keeps first).1] using here
      · rw [List.find?_cons_of_neg (by simpa using here)]
        exact ih found

theorem eraseP_find (other : fd ≠ x) (opens : List OpenFd) :
    (opens.eraseP fun o => o.fd = fd).find? (fun o => o.fd = x) =
      opens.find? fun o => o.fd = x := by
  induction opens with
  | nil => rfl
  | cons first rest ih =>
    by_cases gone : first.fd = fd
    · have not : ¬ first.fd = x := gone ▸ other
      rw [List.eraseP_cons_of_pos (by simpa using gone), List.find?_cons_of_neg (by simpa using not)]
    · rw [List.eraseP_cons_of_neg (by simpa using gone), List.find?_cons, List.find?_cons, ih]

theorem effect_finds (effect : TableEffect fs c fs' code) (unclosed : c ≠ .close fd)
    (finds : Finds fs fd p) : Finds fs' fd p := by
  obtain ⟨o, found, path, file⟩ := finds
  unfold State.descriptor at found
  unfold Finds State.descriptor
  cases effect with
  | same _ _ _ opens =>
    rw [opens]
    exact ⟨o, found, path, file⟩
  | edit _ _ _ _ f keeps _ opens =>
    obtain ⟨o', found', path', file'⟩ := editFirst_find keeps found
    rw [opens]
    exact ⟨o', found', path'.trans path, file'.trans file⟩
  | push _ _ _ _ _ _ _ _ _ _ opens =>
    rw [opens, List.find?_append, found]
    exact ⟨o, rfl, path, file⟩
  | close other _ opens =>
    have apart : other ≠ fd := fun same => unclosed (same ▸ rfl)
    rw [opens, eraseP_find apart]
    exact ⟨o, found, path, file⟩

theorem trace_finds (sound : Sound t.fs) (unclosed : c ≠ .close fd) (taken : trace t c = some t')
    (finds : Finds t.fs fd p) : Finds t'.fs fd p := by
  obtain ⟨r, done⟩ := step_call (trace_step taken)
  exact effect_finds (call_effect sound done).table unclosed finds

def State.acts (fs : State) (fd : Int) : Option Path :=
  match fs.descriptor fd with
  | none => none
  | some o => if o.isDir = false ∧ fs.kind o.path = some false then some o.path else none

def Call.through (fd : Int) : Call → Bool
  | .read x _ | .pread x _ _ | .write x _ | .pwrite x _ _ => decide (x = fd)
  | _ => false

section Acts
variable {fs : State} {fd : Int}

theorem acts_of_entry (found : fs.descriptor fd = some o) (file : o.isDir = false)
    (present : fs.nodes.lookup o.path = some node) (plain : node.isDir = false) :
    fs.acts fd = some o.path := by
  have kind : fs.kind o.path = some false := by
    rw [State.kind, present]
    exact congrArg some plain
  simp [State.acts, found, file, kind]

theorem readAt_infix (node : Node) (pos count : Nat) : State.readAt node pos count <:+: node.data := by
  unfold State.readAt
  split
  · exact List.nil_infix
  · exact ((List.take_prefix _ _).isInfix).trans (List.drop_suffix _ _).isInfix

theorem writeAt_elsewhere (path : Path) (pos : Nat) (buf : List UInt8) (p : Path)
    (changed : (fs.writeAt path pos buf).1.nodes.lookup p ≠ fs.nodes.lookup p) :
    p = path ∧ ∃ node, fs.nodes.lookup path = some node ∧ node.isDir = false := by
  unfold State.writeAt at changed
  split at changed
  · exact absurd rfl changed
  rename_i node present
  split at changed
  · exact absurd rfl changed
  rename_i file
  split at changed
  · exact absurd rfl changed
  simp only at changed
  split at changed
  · exact absurd rfl changed
  rw [lookup_write] at changed
  split at changed
  · rename_i same
    exact ⟨same, node, present, by simpa using file⟩
  · exact absurd rfl changed

theorem reading_acts (sound : Sound fs) (found : fs.descriptor fd = some o)
    (file : ¬ o.isDir = true) (present : fs.nodes.lookup o.path = some node)
    (some_ : State.readAt node pos count ≠ []) :
    ∃ p node', fs.acts fd = some p ∧ fs.nodes.lookup p = some node' ∧
      State.readAt node pos count <:+: node'.data := by
  have plain : node.isDir = false := by
    cases dir : node.isDir with
    | false => rfl
    | true =>
      have empty := sound.dirs _ node present dir
      exact absurd (by simp [State.readAt, empty]) some_
  exact ⟨o.path, node, acts_of_entry found (by simpa using file) present plain, present,
    readAt_infix node pos count⟩

theorem write_writeAt (found : fs.descriptor fd = some o) (file : o.isDir = false)
    (writable : o.writable = true) (buf : List UInt8) : ∃ pos,
    (fs.write fd buf).1.nodes = (fs.writeAt o.path pos buf).1.nodes ∧
      (fs.write fd buf).2 = (fs.writeAt o.path pos buf).2 := by
  refine ⟨if o.append then fs.lengthAt o.path else o.pos, ?_⟩
  simp only [State.write, found, file, writable, not_true_eq_false, Bool.false_eq_true, or_self,
    if_false]
  generalize (if o.append = true then fs.lengthAt o.path else o.pos) = pos
  split <;> exact ⟨rfl, rfl⟩

theorem through_acts (sound : Sound fs) (through : c.through fd = true)
    (done : fs.call c = some (fs', r)) :
    (r.bytes ≠ [] → ∃ p node, fs.acts fd = some p ∧ fs.nodes.lookup p = some node ∧
      r.bytes <:+: node.data) ∧
    ∀ p, fs'.nodes.lookup p ≠ fs.nodes.lookup p → fs.acts fd = some p := by
  have unread {bytes : List UInt8} (none : bytes = []) : bytes ≠ [] → ∃ p node,
      fs.acts fd = some p ∧ fs.nodes.lookup p = some node ∧ bytes <:+: node.data :=
    fun some_ => absurd none some_
  have unchanged : ∀ p, fs.nodes.lookup p ≠ fs.nodes.lookup p → fs.acts fd = some p :=
    fun _ changed => absurd rfl changed
  have writing {o : OpenFd} {pos : Nat} {buf : List UInt8} (found : fs.descriptor fd = some o)
      (file : o.isDir = false) (p : Path)
      (changed : (fs.writeAt o.path pos buf).1.nodes.lookup p ≠ fs.nodes.lookup p) :
      fs.acts fd = some p := by
    obtain ⟨same, node, present, plain⟩ := writeAt_elsewhere _ _ _ p changed
    rw [same]
    exact acts_of_entry found file present plain
  cases c with
  | read =>
    cases of_decide_eq_true through
    cases done
    unfold State.read
    split
    · exact ⟨unread rfl, unchanged⟩
    rename_i o found
    split
    · exact ⟨unread rfl, unchanged⟩
    rename_i file
    split
    · exact ⟨unread rfl, unchanged⟩
    rename_i node present
    simp only
    split
    · exact ⟨reading_acts sound found file present, unchanged⟩
    · exact ⟨unread rfl, unchanged⟩
  | pread =>
    cases of_decide_eq_true through
    cases done
    refine ⟨?_, unchanged⟩
    unfold State.pread
    split
    · exact unread rfl
    rename_i o found
    split
    · exact unread rfl
    rename_i file
    split
    · exact unread rfl
    · rename_i node present
      exact reading_acts sound found file present
  | write x buf =>
    cases of_decide_eq_true through
    cases done
    refine ⟨unread rfl, ?_⟩
    cases found : fs.descriptor fd with
    | none =>
      simp only [State.write, found]
      exact unchanged
    | some o =>
      by_cases refused : ¬ o.writable ∨ o.isDir
      · simp only [State.write, found, if_pos refused]
        exact unchanged
      · simp only [not_or, Bool.not_eq_true, Bool.not_eq_false] at refused
        obtain ⟨pos, nodes, _⟩ := write_writeAt found refused.2 refused.1 buf
        rw [nodes]
        exact writing found refused.2
  | pwrite =>
    cases of_decide_eq_true through
    cases done
    refine ⟨unread rfl, ?_⟩
    unfold State.pwrite
    split
    · exact unchanged
    rename_i o found
    split
    · exact unchanged
    · rename_i allowed
      exact writing found (by simpa using (not_or.mp allowed).2)
  | _ => cases through

/-- Reads return the bytes of the node, and writes, if the descriptor is for writing, go to it. -/
structure ActsOn (fs : State) (fd : Int) (p : Path) (node : Node) : Prop where
  pread : ∀ count offset, fs.pread fd count offset =
    (((State.readAt node offset count).length : Int), State.readAt node offset count)
  read : ∀ count, ∃ pos, (fs.read fd count).2.2 = State.readAt node pos count
  pwrite : ∀ o buf offset, fs.descriptor fd = some o → o.writable = true →
    fs.pwrite fd buf offset = fs.writeAt p offset buf
  write : ∀ o buf, fs.descriptor fd = some o → o.writable = true → ∃ pos,
    (fs.write fd buf).1.nodes = (fs.writeAt p pos buf).1.nodes ∧
      (fs.write fd buf).2 = (fs.writeAt p pos buf).2

theorem acts_finds (acts : fs.acts fd = some p) : Finds fs fd p := by
  unfold State.acts at acts
  split at acts
  · cases acts
  rename_i o found
  split at acts
  · rename_i file
    cases acts
    exact ⟨o, found, rfl, file.1⟩
  · cases acts

theorem acts_actsOn (acts : fs.acts fd = some p) (present : fs.nodes.lookup p = some node) :
    ActsOn fs fd p node := by
  obtain ⟨o, found, path, file⟩ := acts_finds acts
  subst path
  constructor
  · simp [State.pread, found, file, present]
  · intro count
    refine ⟨o.pos, ?_⟩
    simp only [State.read, found, file, present, Bool.false_eq_true, if_false]
    split
    · rfl
    · rename_i none
      exact (List.eq_nil_of_length_eq_zero (Nat.eq_zero_of_not_pos none)).symm
  · intro o' buf offset found' writable
    rw [found] at found'
    cases found'
    simp [State.pwrite, found, file, writable]
  · intro o' buf found' writable
    rw [found] at found'
    cases found'
    exact write_writeAt found file writable buf

theorem finds_acts (finds : Finds fs fd p) :
    fs.acts fd = some q ↔ q = p ∧ fs.kind p = some false := by
  obtain ⟨o, found, path, file⟩ := finds
  subst path
  simp only [State.acts, found, file, true_and]
  split
  · rename_i kind
    simp [kind, eq_comm]
  · rename_i kind
    simp [kind]

end Acts

/-- Reads and writes through the number act on the file with the number F, if it is there under
    some path, and on no other file. -/
structure Serves (t : Traced) (fd : Int) (F : Nat) : Prop where
  only : ∀ p, t.fs.acts fd = some p → t.file p = F
  returned : ∀ c fs' r, c.through fd = true → t.fs.call c = some (fs', r) → r.bytes ≠ [] →
    ∃ p node, t.fs.nodes.lookup p = some node ∧ t.file p = F ∧ r.bytes <:+: node.data
  modified : ∀ c fs' r, c.through fd = true → t.fs.call c = some (fs', r) →
    ∀ p, fs'.nodes.lookup p ≠ t.fs.nodes.lookup p → t.file p = F
  still : ∀ p, t.fs.kind p = some false → t.file p = F → t.fs.acts fd = some p
  acting : ∀ p node, t.fs.nodes.lookup p = some node → node.isDir = false → t.file p = F →
    ActsOn t.fs fd p node

def Alone (t : Traced) (p : Path) (F : Nat) : Prop :=
  ∀ q, t.fs.kind q = some false → (q = p ↔ t.file q = F)

theorem serves_iff (sound : Sound t.fs) (finds : Finds t.fs fd p) :
    Serves t fd F ↔ Alone t p F := by
  constructor
  · intro serves q kind
    constructor
    · intro same
      subst same
      exact serves.only q ((finds_acts finds).mpr ⟨rfl, kind⟩)
    · intro number
      exact ((finds_acts finds).mp (serves.still q kind number)).1
  · intro alone
    have only : ∀ q, t.fs.acts fd = some q → t.file q = F := by
      intro q acts
      obtain ⟨same, kind⟩ := (finds_acts finds).mp acts
      rw [same]
      exact (alone p kind).mp rfl
    have still : ∀ q, t.fs.kind q = some false → t.file q = F → t.fs.acts fd = some q := by
      intro q kind number
      have same := (alone q kind).mpr number
      exact (finds_acts finds).mpr ⟨same, same ▸ kind⟩
    refine ⟨only, ?_, ?_, still, ?_⟩
    · intro c fs' r through done some_
      obtain ⟨q, node, acts, present, inside⟩ := (through_acts sound through done).1 some_
      exact ⟨q, node, present, only q acts, inside⟩
    · intro c fs' r through done q changed
      exact only q ((through_acts sound through done).2 q changed)
    intro q node present file number
    have kind : t.fs.kind q = some false := by
      rw [State.kind, present]
      exact congrArg some file
    exact acts_actsOn (still q kind number) present

section Alone
variable {t t' : Traced} {c : Call} {p : Path} {F : Nat}

theorem alone_kept (effect : NameEffect t c t') (alone : Alone t p F) (old : F < t.born)
    (quiet : ¬ Disturbs t.fs p c) : Alone t' p F := by
  intro q kind
  cases effect with
  | kept kinds file =>
    rw [kinds] at kind
    rw [file]
    exact alone q kind
  | gone k kinds file =>
    rw [kinds] at kind
    split at kind
    · cases kind
    · rw [file]
      exact alone q kind
  | made k dir absent kinds file born disturbs =>
    rw [kinds] at kind
    rw [file]
    split at kind
    · rename_i here
      rw [if_pos here]
      have other : ¬ p = k := fun same => quiet ((disturbs p).mpr ⟨same, Option.some.inj kind⟩)
      constructor
      · intro same
        exact absurd (same.symm.trans here) other
      · omega
    · rename_i elsewhere
      rw [if_neg elsewhere]
      exact alone q kind
  | moved o nw dir apart source kinds file born disturbs =>
    rw [kinds] at kind
    rw [file]
    split at kind
    · rename_i here
      rw [if_pos here]
      have plain := Option.some.inj kind
      have others : ¬ (p = o ∨ p = nw) := fun same => quiet ((disturbs p).mpr ⟨plain, same⟩)
      have number := alone o (by rw [source, plain])
      constructor
      · intro same
        exact absurd (.inr (same.symm.trans here)) others
      · intro same
        exact absurd (.inl (number.mpr same).symm) others
    · rename_i elsewhere
      rw [if_neg elsewhere]
      split at kind
      · cases kind
      · exact alone q kind

theorem alone_lost (effect : NameEffect t c t') (alone : Alone t p F) (old : F < t.born)
    (disturbed : Disturbs t.fs p c) : ¬ Alone t' p F := by
  intro next
  cases effect with
  | kept _ _ _ quiet | gone _ _ _ _ quiet => exact quiet p disturbed
  | made k dir absent kinds file born disturbs =>
    obtain ⟨same, plain⟩ := (disturbs p).mp disturbed
    subst same
    have number := (next p (by rw [kinds, if_pos rfl, plain])).mp rfl
    rw [file, if_pos rfl] at number
    omega
  | moved o nw dir apart source kinds file born disturbs =>
    obtain ⟨plain, path⟩ := (disturbs p).mp disturbed
    have before := alone o (by rw [source, plain])
    have after := next nw (by rw [kinds, if_pos rfl, plain])
    rw [file, if_pos rfl] at after
    rcases path with same | same
    · exact apart (same.symm.trans (after.mpr (before.mp same.symm)).symm)
    · exact apart ((before.mpr (after.mp same.symm)).trans same)

end Alone

theorem born_le (effect : NameEffect t c t') : t.born ≤ t'.born := by
  cases effect with
  | kept _ _ born | made _ _ _ _ _ born | gone _ _ _ born | moved _ _ _ _ _ _ _ born => omega

/-- A descriptor stays with its file exactly if its number is not one that an older entry has, and
    no call puts another file at its path or takes the file from there to another path. -/
theorem descriptor_bound_iff {t₀ t₁ t : Traced} {earlier later : List (Traced × Call)}
    {path : Path} {flags mode : Nat} (before : Run trace start earlier t₀)
    (opened : trace t₀ (.open_ path flags mode) = some t₁)
    (file : t₁.fs.kind (norm path) = some false) (after : Run trace t₁ later t)
    (unclosed : ∀ e ∈ later, e.2 ≠ .close (t₀.fs.open_ path flags mode).2) :
    Throughout (fun s => Serves s (t₀.fs.open_ path flags mode).2 (t₁.file (norm path))) later t ↔
      Finds t₁.fs (t₀.fs.open_ path flags mode).2 (norm path) ∧
        ∀ e ∈ later, ¬ Disturbs e.1.fs (norm path) e.2 := by
  have distinct := trace_distinct (run_distinct before) opened
  have there : t₁.fs.kind (norm path) ≠ none := by
    rw [file]
    exact Option.some_ne_none _
  generalize (t₀.fs.open_ path flags mode).2 = fd at unclosed ⊢
  have bound (finds : Finds t₁.fs fd (norm path)) :
      Throughout (fun s => Serves s fd (t₁.file (norm path))) later t ↔
        ∀ e ∈ later, ¬ Disturbs e.1.fs (norm path) e.2 := by
    apply throughout_iff_of (fun _ c => c ≠ .close fd)
      (fun s => Distinct s ∧ t₁.file (norm path) < s.born ∧ Finds s.fs fd (norm path)) _
      (fun s c => Disturbs s.fs (norm path) c) ⟨distinct, distinct.below _ there, finds⟩ _ _ _ _
      after unclosed
    · apply (serves_iff distinct.sound finds).mpr
      intro q kind
      constructor
      · intro same
        rw [same]
      · apply distinct.apart q _ _ there
        rw [kind]
        exact Option.some_ne_none _
    · rintro s c s' ⟨known, old, found⟩ open_ taken
      have grows := born_le (trace_effect known.sound taken)
      exact ⟨trace_distinct known taken, by omega, trace_finds known.sound open_ taken found⟩
    · rintro s c s' ⟨known, old, found⟩ serves open_ quiet taken
      have next := trace_finds known.sound open_ taken found
      have alone := (serves_iff known.sound found).mp serves
      apply (serves_iff (trace_distinct known taken).sound next).mpr
      exact alone_kept (trace_effect known.sound taken) alone old quiet
    · rintro s c s' ⟨known, old, found⟩ serves open_ disturbed taken serves'
      have next := trace_finds known.sound open_ taken found
      have alone := (serves_iff known.sound found).mp serves
      apply alone_lost (trace_effect known.sound taken) alone old disturbed
      exact (serves_iff (trace_distinct known taken).sound next).mp serves'
  constructor
  · intro all
    have first := throughout_start after all
    have finds := acts_finds (first.still _ file rfl)
    exact ⟨finds, (bound finds).mp all⟩
  · rintro ⟨finds, quiet⟩
    exact (bound finds).mpr quiet

theorem descriptor_until_unlink : ∃ later t₀ t₁ t, (t₀.fs.open_ (text "/tmp/a") 0o102 0).2 = 4000 ∧
    trace t₀ (.open_ (text "/tmp/a") 0o102 0) = some t₁ ∧ Run trace t₁ later t ∧
    t.fs.kind (text "/tmp/a") = none ∧
    Throughout (fun s => Serves s 4000 (t₁.file (text "/tmp/a"))) later t := by
  obtain ⟨later, t₀, earlier, t, run, first, _, plain, last⟩ := run_through (fun _ _ => true)
    (fun _ (c : Call) => c.plain && decide (c ≠ .close 4000)) trace start [] (.open_ (text "/tmp/a") 0o102 0)
    [.write 4000 [120], .unlink (text "/tmp/a")]
    (fun (w : Traced) => decide ((w.fs.open_ (text "/tmp/a") 0o102 0).2 = 4000) &&
      (trace w (.open_ (text "/tmp/a") 0o102 0)).all fun (t₁ : Traced) =>
        decide (t₁.fs.kind (text "/tmp/a") = some false) &&
          (t₁.fs.descriptor 4000).any fun (o : OpenFd) => decide (o.path = text "/tmp/a") && !o.isDir)
    (fun (t : Traced) => decide (t.fs.kind (text "/tmp/a") = none)) (by decide)
  obtain ⟨t₁, before, opened, after⟩ := run_at run
  simp only [opened, Bool.and_eq_true, decide_eq_true_eq, Option.all_some, Option.any_eq_true,
    Bool.not_eq_true'] at first plain last
  obtain ⟨number, file, o, found, path, entry⟩ := first
  have name : norm (text "/tmp/a") = text "/tmp/a" := by decide
  have bound := descriptor_bound_iff before opened (by rw [name, file]) after
    (by rw [number]; exact fun e member => (plain e member).2)
  rw [name, number] at bound
  refine ⟨later, t₀, t₁, t, number, opened, after, last, bound.mpr ⟨⟨o, found, path, entry⟩, ?_⟩⟩
  intro e member
  exact plain_quiet (plain e member).1 _

/-- The file is renamed and another one made at its path: the write through the descriptor goes
    to the other one. -/
theorem write_after_rename : ∃ past t, Run trace start past t ∧ t.fs.kind (text "/tmp/b") = some false ∧
    t.file (text "/tmp/b") = 2 ∧ t.file (text "/tmp/a") = 3 ∧
    ((t.fs.write 4000 [120]).1.nodes.lookup (text "/tmp/a")).map Node.data = some [120] ∧
    ((t.fs.write 4000 [120]).1.nodes.lookup (text "/tmp/b")).map Node.data = some [] ∧
    ¬ Serves t 4000 2 := by
  obtain ⟨past, t, run, _, final⟩ := run_of_exec (fun _ _ => true) trace start
    [.open_ (text "/tmp/a") 0o102 0, .rename (text "/tmp/a") (text "/tmp/b"),
      .open_ (text "/tmp/a") 0o102 0]
    (fun t => decide (t.fs.kind (text "/tmp/b") = some false) &&
      (decide (t.file (text "/tmp/b") = 2) && (decide (t.file (text "/tmp/a") = 3) &&
      (decide (((t.fs.write 4000 [120]).1.nodes.lookup (text "/tmp/a")).map Node.data = some [120]) &&
      (decide (((t.fs.write 4000 [120]).1.nodes.lookup (text "/tmp/b")).map Node.data = some []) &&
      decide (t.fs.acts 4000 = some (text "/tmp/a"))))))) (by decide)
  simp only [Bool.and_eq_true, decide_eq_true_eq] at final
  obtain ⟨kind, number, other, wrote, kept, acts⟩ := final
  refine ⟨past, t, run, kind, number, other, wrote, kept, ?_⟩
  intro serves
  have same := serves.only _ acts
  omega

end TynKernel.Tmpfs
