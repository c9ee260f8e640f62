import TynKernel.Tmpfs.Identity
import TynKernel.Tmpfs.Modes

/-!
Reading a directory page by page. The descriptor keeps the number of names that are out, and
the next page begins with the name at that place of the sorted list.
-/
namespace TynKernel.Tmpfs
open Bytes Dirents List Runs Weights

variable {name : Path} {count k : Nat} {nodes : AList fun _ : Path => Node}

theorem keyLe_append (stem a b : Path) : keyLe (stem ++ a) (stem ++ b) = keyLe a b := by
  induction stem with
  | nil => rfl
  | cons x rest ih => rw [cons_append, cons_append, keyLe, if_pos rfl, ih]

theorem keyLe_total (a b : Path) : keyLe a b = true ∨ keyLe b a = true := by
  induction a generalizing b with
  | nil => exact .inl rfl
  | cons x as ih =>
    cases b with
    | nil => exact .inr rfl
    | cons y bs =>
      by_cases same : x = y
      · simpa [keyLe, same] using ih bs
      · have apart : x.toNat ≠ y.toNat := fun eq => same (UInt8.toNat_inj.mp eq)
        simp only [keyLe, if_neg same, if_neg (Ne.symm same), decide_eq_true_eq]
        omega

theorem keyLe_trans (first : keyLe a b = true) (second : keyLe b c = true) : keyLe a c = true := by
  induction a generalizing b c with
  | nil => rfl
  | cons x as ih =>
    cases b with
    | nil => cases first
    | cons y =>
      cases c with
      | nil => cases second
      | cons z =>
        by_cases xy : x = y
        · subst xy
          by_cases xz : x = z
          · subst xz
            simp only [keyLe, if_true] at first second ⊢
            exact ih first second
          · simpa [keyLe, xz] using second
        · by_cases yz : y = z
          · subst yz
            simpa [keyLe, xy] using first
          simp only [keyLe, if_neg xy, if_neg yz, decide_eq_true_eq] at first second
          have apart : x ≠ z := by
            intro same
            subst same
            omega
          simp only [keyLe, if_neg apart, decide_eq_true_eq]
          omega

instance : Std.Total fun a b : Path => keyLe a b = true := ⟨keyLe_total⟩

instance : IsTrans Path fun a b => keyLe a b = true := ⟨fun _ _ _ => keyLe_trans⟩

section Children
variable (fs : State) (dir : Path)

/-- A name in the directory: it has no slash, and there is a node under it. -/
def State.IsChild (name : Path) : Prop :=
  name ≠ [] ∧ 47 ∉ name ∧ ∃ node, fs.nodes.lookup (State.stemOf dir ++ name) = some node

def State.childOf (stem k : Path) : Option Path :=
  if stem.length < k.length ∧ stem.isPrefixOf k ∧ ¬ 47 ∈ k.drop stem.length then
    some (k.drop stem.length)
  else none

theorem childOf_eq_some {stem k : Path} :
    State.childOf stem k = some name ↔ k = stem ++ name ∧ name ≠ [] ∧ 47 ∉ name := by
  unfold State.childOf
  constructor
  · intro found
    split at found
    · rename_i below
      obtain ⟨longer, starts, plain⟩ := below
      cases found
      obtain ⟨rest, whole⟩ := isPrefixOf_iff_prefix.mp starts
      rw [← whole, drop_left] at plain ⊢
      refine ⟨rfl, ?_, plain⟩
      intro empty
      rw [← whole, empty, append_nil] at longer
      exact Nat.lt_irrefl _ longer
    · cases found
  · rintro ⟨whole, some_, plain⟩
    have positive := length_pos_iff.mpr some_
    have starts : stem.isPrefixOf (stem ++ name) = true :=
      isPrefixOf_iff_prefix.mpr (prefix_append _ _)
    have longer : stem.length < (stem ++ name).length := by
      rw [length_append]
      omega
    rw [whole, drop_left, if_pos ⟨longer, starts, plain⟩]

theorem childNames_eq : fs.childNames dir =
    (fs.nodes.keys.insertionSort fun a b => keyLe a b = true).filterMap
      (State.childOf (State.stemOf dir)) := rfl

theorem mem_childNames (name : Path) : name ∈ fs.childNames dir ↔ fs.IsChild dir name := by
  rw [childNames_eq, mem_filterMap]
  constructor
  · rintro ⟨k, member, named⟩
    obtain ⟨whole, some_, plain⟩ := childOf_eq_some.mp named
    rw [mem_insertionSort, whole] at member
    exact ⟨some_, plain, Option.isSome_iff_exists.mp (AList.lookup_isSome.mpr member)⟩
  · rintro ⟨some_, plain, node, present⟩
    refine ⟨State.stemOf dir ++ name, ?_, childOf_eq_some.mpr ⟨rfl, some_, plain⟩⟩
    rw [mem_insertionSort]
    exact AList.lookup_isSome.mp (by rw [present]; rfl)

theorem childNames_sorted : (fs.childNames dir).Pairwise fun a b => keyLe a b = true := by
  refine List.Pairwise.filterMap _ ?_ (pairwise_insertionSort _ fs.nodes.keys)
  intro k k' le name named name' named'
  rw [(childOf_eq_some.mp named).1, (childOf_eq_some.mp named').1, keyLe_append] at le
  exact le

theorem childNames_nodup : (fs.childNames dir).Nodup := by
  refine List.Nodup.filterMap ?_ ((perm_insertionSort _ _).nodup_iff.mpr fs.nodes.keys_nodup)
  intro k k' name named named'
  rw [(childOf_eq_some.mp named).1, (childOf_eq_some.mp named').1]

theorem childNames_nodes {fs' : State} (nodes : fs'.nodes = fs.nodes) :
    fs'.childNames dir = fs.childNames dir := by
  rw [childNames_eq, nodes, childNames_eq]

end Children

def State.direntType (fs : State) (stem name : Path) : UInt8 :=
  if ((fs.nodes.lookup (stem ++ name)).map Node.isDir).getD false then 4 else 8

def State.dirents (fs : State) (stem : Path) : Nat → List Path → List Dirent
  | _, [] => []
  | n, name :: rest => ⟨n + 1, n + 1, fs.direntType stem name, name⟩ :: fs.dirents stem (n + 1) rest

section Page
variable {fs : State} {stem : Path}

theorem dirents_map (n : Nat) (names : List Path) :
    (fs.dirents stem n names).map (fun d => (d.name, d.kind)) =
      names.map fun name => (name, fs.direntType stem name) := by
  induction names generalizing n with
  | nil => rfl
  | cons name rest ih => rw [State.dirents, map_cons, ih, map_cons]

theorem dirents_length (fs : State) (stem : Path) (n : Nat) (names : List Path) :
    (fs.dirents stem n names).length = names.length := by
  induction names generalizing n with
  | nil => rfl
  | cons name rest ih => rw [State.dirents, length_cons, ih, length_cons]

theorem mem_dirents (member : d ∈ fs.dirents stem n names) :
    d.name ∈ names ∧ d.kind = fs.direntType stem d.name := by
  have pair : (d.name, d.kind) ∈ (fs.dirents stem n names).map fun d => (d.name, d.kind) :=
    mem_map_of_mem member
  rw [dirents_map] at pair
  obtain ⟨name, there, same⟩ := mem_map.mp pair
  obtain ⟨named, kind⟩ := Prod.mk.inj same
  rw [← named]
  exact ⟨there, kind.symm⟩

theorem emit_spec (fs : State) (stem : Path) (count : Nat) (names : List Path) (emitted : Nat)
    (out : List UInt8) : ∃ k, k ≤ names.length ∧
      fs.emit stem count names emitted out =
        (out ++ ((fs.dirents stem emitted (names.take k)).map Dirent.bytes).flatten, emitted + k) ∧
      (out.length ≤ count → (fs.emit stem count names emitted out).1.length ≤ count) ∧
      ∀ name, names[k]? = some name →
        count < (fs.emit stem count names emitted out).1.length + recordLen name := by
  induction names generalizing emitted out with
  | nil =>
    exact ⟨0, Nat.le_refl 0, by simp [State.emit, State.dirents], by simp [State.emit], by simp⟩
  | cons name rest ih =>
    by_cases full : count < out.length + recordLen name
    · refine ⟨0, Nat.zero_le _, ?_, ?_, ?_⟩
      · simp [State.emit, full, State.dirents]
      · simp [State.emit, full]
      · intro name' first
        cases first
        simp [State.emit, full]
    · have record :
          (Dirent.bytes ⟨emitted + 1, emitted + 1, fs.direntType stem name, name⟩).length =
            recordLen name := bytes_length _
      have next : fs.emit stem count (name :: rest) emitted out =
          fs.emit stem count rest (emitted + 1)
            (out ++ Dirent.bytes ⟨emitted + 1, emitted + 1, fs.direntType stem name, name⟩) := by
        rw [State.emit, if_neg full]
        rfl
      obtain ⟨k, inside, done, fits, stops⟩ := ih (emitted + 1)
        (out ++ Dirent.bytes ⟨emitted + 1, emitted + 1, fs.direntType stem name, name⟩)
      refine ⟨k + 1, Nat.succ_le_succ inside, ?_, ?_, ?_⟩
      · rw [next, done, take_succ_cons, State.dirents, map_cons, flatten_cons,
          append_assoc, Nat.add_assoc, Nat.add_comm 1 k]
      · intro _
        rw [next]
        apply fits
        rw [length_append, record]
        omega
      · intro name' later
        rw [next]
        exact stops name' (by simpa using later)

end Page

/-- What getdents64 does with a descriptor on a directory: it puts out the next names, as many as
    fit, and keeps the new place. -/
structure Turned (fs : State) (fd : Int) (o : OpenFd) (count k : Nat) : Prop where
  state : (fs.getdents64 fd count).1 = fs.edit fd fun o' => { o' with dirPos := o.dirPos + k }
  code : (fs.getdents64 fd count).2.1 = (fs.getdents64 fd count).2.2.length
  bytes : (fs.getdents64 fd count).2.2 = ((fs.dirents (State.stemOf o.path) o.dirPos
    (((fs.childNames o.path).drop o.dirPos).take k)).map Dirent.bytes).flatten
  inside : k ≤ (fs.childNames o.path).length - o.dirPos
  fits : (fs.getdents64 fd count).2.2.length ≤ count
  full : ∀ name, (fs.childNames o.path)[o.dirPos + k]? = some name →
    count < (fs.getdents64 fd count).2.2.length + recordLen name

theorem getdents64_turned (found : fs.descriptor fd = some o) (dir : o.isDir = true) (count : Nat) :
    ∃ k, Turned fs fd o count k := by
  obtain ⟨k, inside, done, fits, stops⟩ := emit_spec fs (State.stemOf o.path) count
    ((fs.childNames o.path).drop o.dirPos) o.dirPos []
  have answer : fs.getdents64 fd count =
      (fs.edit fd fun o' => { o' with dirPos := (fs.emit (State.stemOf o.path) count
          ((fs.childNames o.path).drop o.dirPos) o.dirPos []).2 },
        ((fs.emit (State.stemOf o.path) count ((fs.childNames o.path).drop o.dirPos) o.dirPos
          []).1.length : Int),
        (fs.emit (State.stemOf o.path) count ((fs.childNames o.path).drop o.dirPos) o.dirPos
          []).1) := by
    simp [State.getdents64, found, dir]
  rw [length_drop] at inside
  refine ⟨k, ?_, ?_, ?_, inside, ?_, ?_⟩
  · rw [answer, done]
  · rw [answer]
  · rw [answer, done, nil_append]
  · rw [answer]
    exact fits (Nat.zero_le _)
  · intro name next
    rw [answer]
    apply stops name
    rw [getElem?_drop]
    exact next

theorem descriptor_opens {fs fs' : State} (opens : fs'.opens = fs.opens) (fd : Int) :
    fs'.descriptor fd = fs.descriptor fd := by
  unfold State.descriptor
  rw [opens]

section Cursor
variable {fs fs' : State} {fd : Int} {o : OpenFd}

theorem descriptor_push (found : fs.descriptor fd = some o)
    (opens : fs'.opens = fs.opens ++ [added]) : fs'.descriptor fd = some o := by
  unfold State.descriptor at found ⊢
  rw [opens, find?_append, found]
  rfl

theorem tableStep_cursor {c : Call} (table : TableStep fs c fs') (found : fs.descriptor fd = some o)
    (other : ∀ count, c ≠ .getdents64 fd count) :
    ∃ o', fs'.descriptor fd = some o' ∧ o'.path = o.path ∧ o'.isDir = o.isDir ∧
      o'.dirPos = o.dirPos := by
  cases table with
  | same _ _ opens => exact ⟨o, by rw [descriptor_opens opens, found], rfl, rfl, rfl⟩
  | moved _ _ x f position opens =>
    have numbers : ∀ o', (f o').fd = o'.fd := by
      intro o'
      obtain ⟨pos, moved⟩ := position o'
      rw [moved]
    have edited : fs'.descriptor fd = (fs.edit x f).descriptor fd := descriptor_opens opens fd
    rw [descriptor_edit _ _ _ numbers] at edited
    split at edited
    · rename_i same
      obtain ⟨pos, moved⟩ := position o
      rw [← same, found, Option.map_some, moved] at edited
      exact ⟨_, edited, rfl, rfl, rfl⟩
    · rw [found] at edited
      exact ⟨o, edited, rfl, rfl, rfl⟩
  | turned x count _ place opens =>
    have apart : ¬ fd = x := fun same => other count (same ▸ rfl)
    have edited : fs'.descriptor fd =
        (fs.edit x fun o => { o with dirPos := place }).descriptor fd := descriptor_opens opens fd
    rw [descriptor_edit _ _ _ (f := fun o => { o with dirPos := place }) (fun _ => rfl),
      if_neg apart, found] at edited
    exact ⟨o, edited, rfl, rfl, rfl⟩

/-- A call that does not close the descriptor leaves it its path, and only getdents64 on it moves
    its place in the directory. -/
theorem call_cursor {c : Call} (done : fs.call c = some (fs', r))
    (found : fs.descriptor fd = some o) (unclosed : c ≠ .close fd)
    (other : ∀ count, c ≠ .getdents64 fd count) :
    ∃ o', fs'.descriptor fd = some o' ∧ o'.path = o.path ∧ o'.isDir = o.isDir ∧
      o'.dirPos = o.dirPos := by
  cases c with
  | open_ path flags mode =>
    cases done
    rcases open_recorded fs path flags mode with same | ⟨added, opens, _⟩
    · exact ⟨o, by rw [descriptor_opens same, found], rfl, rfl, rfl⟩
    · exact ⟨o, descriptor_push found opens, rfl, rfl, rfl⟩
  | close x =>
    cases done
    have apart : x ≠ fd := fun same => unclosed (same ▸ rfl)
    refine ⟨o, ?_, rfl, rfl, rfl⟩
    unfold State.close
    split
    · exact found
    · rw [← found]
      exact eraseP_find apart fs.opens
  | _ => exact tableStep_cursor ((call_outcome done).table rfl) found other

theorem turned_cursor (found : fs.descriptor fd = some o) (turned : Turned fs fd o count k) :
    (fs.getdents64 fd count).1.descriptor fd = some { o with dirPos := o.dirPos + k } := by
  rw [turned.state, descriptor_edit _ _ _ (f := fun o' => { o' with dirPos := o.dirPos + k })
    (fun _ => rfl), if_pos rfl, found]
  rfl

end Cursor

/-- What copy_path leaves of a name: at most 255 bytes, and none of them is zero. -/
def Copied (name : Path) : Prop := name.length ≤ 255 ∧ 0 ∉ name

instance (name : Path) : Decidable (Copied name) := inferInstanceAs (Decidable (_ ∧ _))

def Call.lists (fd : Int) : Call → Bool
  | .getdents64 x _ => decide (x = fd)
  | _ => false

def State.page (fs : State) (fd : Int) : Call → List (Path × UInt8)
  | .getdents64 x count =>
    if x = fd then
      decode (fs.getdents64 fd count).2.2.length (fs.getdents64 fd count).2.2
    else []
  | _ => []

def listed (fd : Int) : List (State × Call) → List (Path × UInt8)
  | [] => []
  | (fs, c) :: earlier => listed fd earlier ++ fs.page fd c

def State.listing (fs : State) (dir : Path) : List (Path × UInt8) :=
  (fs.childNames dir).map fun name => (name, fs.direntType (State.stemOf dir) name)

section Reader
variable {fs : State} {fd : Int} {o : OpenFd}

theorem length_le_flatten (ds : List Dirent) :
    ds.length ≤ ((ds.map Dirent.bytes).flatten).length := by
  induction ds with
  | nil => exact Nat.zero_le _
  | cons d =>
    have long := (recordLen_bounds d.name).1
    rw [map_cons, flatten_cons, length_append, length_cons, bytes_length]
    omega

theorem turned_decode (turned : Turned fs fd o count k)
    (copied : ∀ name ∈ fs.childNames o.path, Copied name) :
    decode (fs.getdents64 fd count).2.2.length (fs.getdents64 fd count).2.2 =
      ((fs.listing o.path).drop o.dirPos).take k := by
  have named : ∀ d ∈ fs.dirents (State.stemOf o.path) o.dirPos
      (((fs.childNames o.path).drop o.dirPos).take k), Copied d.name := by
    intro d member
    exact copied _ (mem_of_mem_drop (mem_of_mem_take (mem_dirents member).1))
  rw [turned.bytes, decode_bytes (fun d member => (named d member).2) ?_ (length_le_flatten _),
    dirents_map, State.listing, map_take, map_drop]
  intro d member
  have short := (named d member).1
  have bounds := recordLen_bounds d.name
  omega

theorem page_turned (turned : Turned fs fd o count k)
    (copied : ∀ name ∈ fs.childNames o.path, Copied name) :
    fs.page fd (.getdents64 fd count) = ((fs.listing o.path).drop o.dirPos).take k := by
  rw [State.page, if_pos rfl, turned_decode turned copied]

theorem page_other (other : c.lists fd = false) : fs.page fd c = [] := by
  cases c with
  | getdents64 => exact if_neg (of_decide_eq_false other)
  | _ => rfl

theorem lists_iff {c : Call} : c.lists fd = true ↔ ∃ count, c = .getdents64 fd count := by
  cases c with
  | getdents64 x count | _ => simp [Call.lists]

theorem listing_names (fs : State) (dir : Path) :
    (fs.listing dir).map Prod.fst = fs.childNames dir := by
  rw [State.listing, map_map]
  exact map_id _

theorem listing_length (fs : State) (dir : Path) :
    (fs.listing dir).length = (fs.childNames dir).length := by
  rw [State.listing, length_map]

theorem turned_zero (turned : Turned fs fd o count k) (zero : (fs.getdents64 fd count).2.1 = 0)
    (room : ∀ name, (fs.childNames o.path)[o.dirPos]? = some name → recordLen name ≤ count) :
    (fs.childNames o.path).length ≤ o.dirPos := by
  by_contra more
  have inside : o.dirPos < (fs.childNames o.path).length := Nat.not_le.mp more
  have empty : (fs.getdents64 fd count).2.2.length = 0 := by
    have code := turned.code
    omega
  have records := length_le_flatten (fs.dirents (State.stemOf o.path) o.dirPos
    (((fs.childNames o.path).drop o.dirPos).take k))
  rw [← turned.bytes, empty, dirents_length, length_take, length_drop] at records
  have none_ : k = 0 := by omega
  have next : (fs.childNames o.path)[o.dirPos]? = some (fs.childNames o.path)[o.dirPos] :=
    getElem?_eq_getElem inside
  have full := turned.full _ (by rw [none_, Nat.add_zero]; exact next)
  have fits := room _ next
  omega

end Reader

def State.Roomy (fs : State) (fd : Int) (c : Call) : Prop :=
  ∀ count o name, c = .getdents64 fd count → fs.descriptor fd = some o →
    (fs.childNames o.path)[o.dirPos]? = some name → recordLen name ≤ count

def State.Ends (fs : State) (fd : Int) (c : Call) : Prop :=
  ∃ count, c = .getdents64 fd count ∧ (fs.getdents64 fd count).2.1 = 0

/-- A chain of records fills the buffer up to the return value, at most to its end. The length of
    each is a multiple of eight, its type is that of the node, and a reader finds its name. -/
def State.Chained (fs : State) (fd : Int) (dir : Path) (c : Call) : Prop :=
  ∀ count, c = .getdents64 fd count → ∃ ds : List Dirent,
    (fs.getdents64 fd count).2.2 = (ds.map Dirent.bytes).flatten ∧
    (fs.getdents64 fd count).2.1 = (ds.map fun d => recordLen d.name).sum ∧
    (fs.getdents64 fd count).2.2.length ≤ count ∧
    (∀ d ∈ ds, recordLen d.name % 8 = 0 ∧ ∃ node,
      fs.nodes.lookup (State.stemOf dir ++ d.name) = some node ∧
        d.kind = if node.isDir then 4 else 8) ∧
    fs.page fd c = ds.map fun d => (d.name, d.kind)

section Pages
variable {fs₀ fs : State} {past : List (State × Call)} {fd : Int} {o : OpenFd}

structure Reading (fs₀ : State) (dir : Path) (fd : Int) (past : List (State × Call)) (fs : State)
    (o : OpenFd) : Prop where
  found : fs.descriptor fd = some o
  path : o.path = dir
  isDir : o.isDir = true
  inside : o.dirPos ≤ (fs₀.listing dir).length
  read : listed fd past = (fs₀.listing dir).take o.dirPos

theorem reading_step {dir : Path} {c : Call} {fs' : State}
    (copied : ∀ name ∈ fs₀.childNames dir, Copied name) (reading : Reading fs₀ dir fd past fs o)
    (still : fs.listing dir = fs₀.listing dir) (unclosed : c ≠ .close fd)
    (taken : step fs c = some fs') : ∃ o', Reading fs₀ dir fd ((fs, c) :: past) fs' o' := by
  obtain ⟨r, done⟩ := step_call taken
  obtain ⟨found, path, isDir, inside, read⟩ := reading
  have names : fs.childNames dir = fs₀.childNames dir := by
    rw [← listing_names, still, listing_names]
  cases lists : c.lists fd with
  | false =>
    have other : ∀ count, c ≠ .getdents64 fd count := by
      intro count same
      rw [lists_iff.mpr ⟨count, same⟩] at lists
      cases lists
    obtain ⟨o', found', path', isDir', place⟩ := call_cursor done found unclosed other
    refine ⟨o', found', path'.trans path, isDir'.trans isDir, place ▸ inside, ?_⟩
    rw [listed, page_other lists, append_nil, place, read]
  | true =>
    obtain ⟨count, same⟩ := lists_iff.mp lists
    subst same
    cases done
    obtain ⟨k, turned⟩ := getdents64_turned found isDir count
    refine ⟨_, turned_cursor found turned, path, isDir, ?_, ?_⟩
    · have bound := turned.inside
      rw [path, names, ← listing_length] at bound
      simp only
      omega
    · subst path
      rw [listed, read, page_turned turned (by rw [names]; exact copied), still, take_add]

theorem run_reading (found : fs₀.descriptor fd = some o) (dir : o.isDir = true)
    (fresh : o.dirPos = 0) (copied : ∀ name ∈ fs₀.childNames o.path, Copied name)
    (run : Run step fs₀ past fs) (unclosed : ∀ e ∈ past, e.2 ≠ .close fd)
    (still : ∀ e ∈ past, e.1.listing o.path = fs₀.listing o.path) :
    ∃ o', Reading fs₀ o.path fd past fs o' := by
  induction run with
  | nil =>
    refine ⟨o, found, rfl, dir, by omega, ?_⟩
    rw [fresh, take_zero]
    rfl
  | snoc before taken ih =>
    obtain ⟨o', reading⟩ := ih (fun e member => unclosed e (mem_cons_of_mem _ member))
      (fun e member => still e (mem_cons_of_mem _ member))
    exact reading_step copied reading (still _ mem_cons_self) (unclosed _ mem_cons_self)
      taken

theorem listed_append (fd : Int) (later earlier : List (State × Call)) :
    listed fd (later ++ earlier) = listed fd earlier ++ listed fd later := by
  induction later with
  | nil => exact (append_nil _).symm
  | cons e rest ih => rw [cons_append, listed, ih, listed, append_assoc]

theorem page_nonempty {dir : Path} (reading : Reading fs₀ dir fd past fs o)
    (copied : ∀ name ∈ fs.childNames dir, Copied name) (lists : c.lists fd = true)
    (goes : ¬ fs.Ends fd c) : 0 < (fs.page fd c).length := by
  obtain ⟨count, same⟩ := lists_iff.mp lists
  subst same
  obtain ⟨found, path, isDir, _, _⟩ := reading
  subst path
  obtain ⟨k, turned⟩ := getdents64_turned found isDir count
  rw [page_turned turned copied, length_take, length_drop, listing_length]
  by_contra none_
  have empty : ((fs.childNames o.path).drop o.dirPos).take k = [] := by
    apply eq_nil_of_length_eq_zero
    rw [length_take, length_drop]
    omega
  have bytes := turned.bytes
  rw [empty, State.dirents, map_nil, flatten_nil] at bytes
  apply goes
  refine ⟨count, rfl, ?_⟩
  rw [turned.code, bytes]
  rfl

theorem run_progress (found : fs₀.descriptor fd = some o) (dir : o.isDir = true)
    (fresh : o.dirPos = 0) (copied : ∀ name ∈ fs₀.childNames o.path, Copied name)
    (run : Run step fs₀ past fs) (unclosed : ∀ e ∈ past, e.2 ≠ .close fd)
    (still : ∀ e ∈ past, e.1.listing o.path = fs₀.listing o.path)
    (goes : ∀ e ∈ past, ¬ e.1.Ends fd e.2) :
    past.countP (fun e => e.2.lists fd) ≤ (listed fd past).length := by
  induction run with
  | nil => exact Nat.zero_le _
  | @snoc past s s' c before taken ih =>
    have unclosed' : ∀ e ∈ past, e.2 ≠ .close fd :=
      fun e member => unclosed e (mem_cons_of_mem _ member)
    have still' : ∀ e ∈ past, e.1.listing o.path = fs₀.listing o.path :=
      fun e member => still e (mem_cons_of_mem _ member)
    have earlier := ih unclosed' still' fun e member => goes e (mem_cons_of_mem _ member)
    obtain ⟨o', reading⟩ := run_reading found dir fresh copied before unclosed' still'
    have names : s.childNames o.path = fs₀.childNames o.path := by
      rw [← listing_names, still (s, c) mem_cons_self, listing_names]
    rw [countP_cons, listed, length_append]
    split
    · rename_i lists
      have more : 0 < (s.page fd c).length :=
        page_nonempty reading (by rw [names]; exact copied) lists (goes (s, c) mem_cons_self)
      omega
    · omega

theorem sum_recordLen (ds : List Dirent) :
    ((ds.map Dirent.bytes).flatten).length = (ds.map fun d => recordLen d.name).sum := by
  induction ds with
  | nil => rfl
  | cons d rest ih =>
    rw [map_cons, flatten_cons, length_append, bytes_length, ih, map_cons,
      sum_cons]

theorem reading_chained (reading : Reading fs₀ dir fd past fs o)
    (copied : ∀ name ∈ fs.childNames dir, Copied name) (c : Call) : fs.Chained fd dir c := by
  intro count same
  subst same
  obtain ⟨found, path, isDir, _, _⟩ := reading
  subst path
  obtain ⟨k, turned⟩ := getdents64_turned found isDir count
  refine ⟨_, turned.bytes, ?_, turned.fits, ?_, ?_⟩
  · rw [turned.code, turned.bytes, sum_recordLen]
  · intro d member
    refine ⟨?_, ?_⟩
    · unfold recordLen
      omega
    obtain ⟨named, kind⟩ := mem_dirents member
    have child := mem_of_mem_drop (mem_of_mem_take named)
    obtain ⟨_, _, node, present⟩ := (mem_childNames fs o.path d.name).mp child
    refine ⟨node, present, ?_⟩
    rw [kind, State.direntType, present]
    rfl
  · rw [page_turned turned copied, dirents_map, State.listing, map_take, map_drop]

end Pages

/-- A directory is read through a descriptor at its beginning, and does not change between the
    calls. The names come sorted and once each. Every page is a chain of records with the types of
    the nodes; the pages together are the first names of the directory, and all of them as soon as
    one page is empty, which is one of the first n + 1 pages if there are n names. -/
theorem directory_read_in_pages {fs₀ fs : State} {past : List (State × Call)} {fd : Int}
    {o : OpenFd} (found : fs₀.descriptor fd = some o) (dir : o.isDir = true) (fresh : o.dirPos = 0)
    (copied : ∀ name ∈ fs₀.childNames o.path, Copied name) (run : Run step fs₀ past fs)
    (unclosed : ∀ e ∈ past, e.2 ≠ .close fd)
    (still : ∀ e ∈ past, e.1.listing o.path = fs₀.listing o.path)
    (roomy : ∀ e ∈ past, e.1.Roomy fd e.2) :
    ((fs₀.listing o.path).map Prod.fst).Pairwise (fun a b => keyLe a b = true ∧ a ≠ b) ∧
    (∀ name, name ∈ (fs₀.listing o.path).map Prod.fst ↔ fs₀.IsChild o.path name) ∧
    (∀ e ∈ past, e.1.Chained fd o.path e.2) ∧
    listed fd past <+: fs₀.listing o.path ∧
    ((∃ e ∈ past, e.1.Ends fd e.2) → listed fd past = fs₀.listing o.path) ∧
    ((fs₀.listing o.path).length < past.countP (fun e => e.2.lists fd) →
      ∃ e ∈ past, e.1.Ends fd e.2) := by
  have names : ∀ e ∈ past, e.1.childNames o.path = fs₀.childNames o.path := by
    intro e member
    rw [← listing_names, still e member, listing_names]
  have before : ∀ later e earlier, past = later ++ e :: earlier →
      ∃ o', Reading fs₀ o.path fd earlier e.1 o' := by
    intro later e earlier split
    subst split
    obtain ⟨_, first, _, _⟩ := run_at run
    exact run_reading found dir fresh copied first
      (fun x member => unclosed x (by simp [member])) (fun x member => still x (by simp [member]))
  obtain ⟨o', reading⟩ := run_reading found dir fresh copied run unclosed still
  have start : listed fd past <+: fs₀.listing o.path := by
    rw [reading.read]
    exact take_prefix _ _
  rw [listing_names]
  refine ⟨?_, mem_childNames fs₀ o.path, ?_, start, ?_, ?_⟩
  · exact (childNames_sorted fs₀ o.path).and (childNames_nodup fs₀ o.path)
  · intro e member
    obtain ⟨later, earlier, split⟩ := append_of_mem member
    obtain ⟨o'', reading'⟩ := before later e earlier split
    exact reading_chained reading' (by rw [names e member]; exact copied) e.2
  · rintro ⟨e, member, count, same, zero⟩
    obtain ⟨later, earlier, split⟩ := append_of_mem member
    obtain ⟨o'', reading'⟩ := before later e earlier split
    obtain ⟨found', path, isDir, _, read⟩ := reading'
    obtain ⟨k, turned⟩ := getdents64_turned found' isDir count
    have all := turned_zero turned zero fun name next =>
      roomy e member count o'' name same found' next
    rw [path, names e member, ← listing_length] at all
    rw [take_of_length_le all] at read
    apply List.IsPrefix.eq_of_length_le start
    rw [split, append_cons, listed_append, listed_append, read]
    simp only [length_append]
    omega
  · intro more
    by_contra goes
    have progress := run_progress found dir fresh copied run unclosed still
      (fun e member ends => goes ⟨e, member, ends⟩)
    have bound := start.length_le
    omega

def twoNames : List Call :=
  [.open_ (text "/tmp/b") oCreat 0, .open_ (text "/tmp/a") oCreat 0,
    .open_ (text "/tmp") oDirectory 0]

def onePage : Call := .getdents64 4002 24

def State.fits (fs : State) (fd : Int) (count : Nat) : Bool :=
  (fs.descriptor fd).all fun o =>
    (fs.childNames o.path)[o.dirPos]?.all fun name => recordLen name ≤ count

theorem fits_roomy {fs : State} (fits : fs.fits fd n = true) : fs.Roomy fd (.getdents64 fd n) := by
  intro count o name call found next
  cases call
  rw [State.fits, found, Option.all_some, next, Option.all_some] at fits
  exact of_decide_eq_true fits

theorem two_names_in_pages : ∃ fs₀ fs₁ fs₂ fs o, fs₀.descriptor 4002 = some o ∧
    Run step fs₀ [(fs₂, onePage), (fs₁, onePage), (fs₀, onePage)] fs ∧
    fs₁.page 4002 onePage = [(text "b", 8)] ∧
    listed 4002 [(fs₂, onePage), (fs₁, onePage), (fs₀, onePage)] = fs₀.listing o.path := by
  obtain ⟨_, fs₀, _, _, test⟩ := run_of_exec (fun _ _ => true) step initial twoNames
    (fun fs₀ => (fs₀.descriptor 4002).any fun o : OpenFd => o.isDir && decide (o.dirPos = 0) &&
      decide (∀ name ∈ fs₀.childNames o.path, Copied name) &&
      fs₀.fits 4002 24 && (step fs₀ onePage).any fun fs₁ : State =>
        decide (fs₁.listing o.path = fs₀.listing o.path) && fs₁.fits 4002 24 &&
        decide (fs₁.page 4002 onePage = [(text "b", 8)]) &&
        (step fs₁ onePage).any fun fs₂ : State =>
          decide (fs₂.listing o.path = fs₀.listing o.path) && fs₂.fits 4002 24 &&
          decide ((fs₂.getdents64 4002 24).2.1 = 0)) (by decide +kernel)
  obtain ⟨o, found, opened⟩ := (Option.any_eq_true _ _).mp test
  simp only [Bool.and_eq_true, decide_eq_true_eq] at opened
  obtain ⟨⟨⟨⟨dir, fresh⟩, copied⟩, room₀⟩, turns⟩ := opened
  obtain ⟨fs₁, first, turns⟩ := (Option.any_eq_true _ _).mp turns
  simp only [Bool.and_eq_true, decide_eq_true_eq] at turns
  obtain ⟨⟨⟨still₁, room₁⟩, page⟩, turns⟩ := turns
  obtain ⟨fs₂, second, turns⟩ := (Option.any_eq_true _ _).mp turns
  simp only [Bool.and_eq_true, decide_eq_true_eq] at turns
  obtain ⟨⟨still₂, room₂⟩, ended⟩ := turns
  have run : Run step fs₀ [(fs₂, onePage), (fs₁, onePage), (fs₀, onePage)]
      (fs₂.getdents64 4002 24).1 := .snoc (.snoc (.snoc .nil first) second) rfl
  have all := directory_read_in_pages found dir fresh copied run (by simp [onePage])
    (by simp [still₁, still₂])
    (by simpa [onePage] using ⟨fits_roomy room₂, fits_roomy room₁, fits_roomy room₀⟩)
  exact ⟨fs₀, fs₁, fs₂, _, o, found, run, page,
    all.2.2.2.2.1 ⟨_, mem_cons_self, 24, rfl, ended⟩⟩

def State.passed (fs : State) (fd : Int) (dir name : Path) : Int :=
  (((fs.childNames dir).take ((fs.descriptor fd).elim 0 OpenFd.dirPos)).count name : Nat)

def Survives (dir name : Path) (past : List (State × Call)) : Prop :=
  ∀ e ∈ past, name ∈ e.1.childNames dir

def Call.paths : Call → List Path
  | .open_ path _ _ | .truncate path _ | .unlink path | .mkdir path _ | .rmdir path => [path]
  | .rename old new => [old, new]
  | _ => []

def Call.Copied (c : Call) : Prop := ∀ p ∈ c.paths, Tmpfs.Copied p

instance (c : Call) : Decidable c.Copied :=
  inferInstanceAs (Decidable (∀ p ∈ c.paths, Tmpfs.Copied p))

def Bounded (nodes : AList fun _ : Path => Node) : Prop :=
  ∀ k node, nodes.lookup k = some node → k.length ≤ 256 ∧ 0 ∉ k

section Bounds

theorem norm_bounded (copied : Copied path) : (norm path).length ≤ 256 ∧ 0 ∉ norm path := by
  have sub := norm_sublist path
  constructor
  · have length := sub.length_le
    have short := copied.1
    rw [length_cons] at length
    omega
  · intro member
    rcases mem_cons.mp (sub.subset member) with slash | inner
    · exact absurd slash (by decide)
    · exact copied.2 inner

theorem bounded_insert (bounded : Bounded nodes) {k : Path} (node : Node)
    (short : k.length ≤ 256 ∧ 0 ∉ k) : Bounded (nodes.insert k node) := by
  intro p v present
  rw [lookup_write] at present
  split at present
  · rename_i same
    rw [same]
    exact short
  · exact bounded p v present

theorem bounded_erase (bounded : Bounded nodes) (k : Path) :
    Bounded (nodes.erase k) := by
  intro p v present
  rw [lookup_erased] at present
  split at present
  · cases present
  · exact bounded p v present

theorem nodeEffect_bounded (effect : NodeEffect fs c nodes total code) (copied : c.Copied)
    (bounded : Bounded fs.nodes) : Bounded nodes := by
  cases effect with
  | same => exact bounded
  | create path | mkdir path =>
    exact bounded_insert bounded _ (norm_bounded (copied path (by simp [Call.paths])))
  | rewrite _ path node _ _ _ _ present =>
    exact bounded_insert bounded _ (bounded path node present)
  | unlink | rmdir | clobber => exact bounded_erase bounded _
  | rename old new =>
    exact bounded_insert (bounded_erase (bounded_erase bounded _) _) _
      (norm_bounded (copied new (by simp [Call.paths])))

theorem bounded_initial : Bounded initial.nodes := by
  refine bounded_insert (bounded_insert ?_ _ (by decide)) _ (by decide)
  intro k node present
  cases present

theorem bounded_copied {fs : State} (bounded : Bounded fs.nodes) (dir : Path) :
    ∀ name ∈ fs.childNames dir, Copied name := by
  intro name member
  obtain ⟨_, _, node, present⟩ := (mem_childNames fs dir name).mp member
  obtain ⟨short, clean⟩ := bounded _ node present
  have stem : 1 ≤ (State.stemOf dir).length := by
    unfold State.stemOf
    split
    · rename_i root
      rw [root]
      decide
    · rw [length_append]
      exact Nat.le_add_left _ _
  rw [length_append] at short
  exact ⟨by omega, fun zero => clean (mem_append_right _ zero)⟩

end Bounds

structure Walking (fd : Int) (dir : Path) (fs : State) : Prop where
  sound : Sound fs
  bounded : Bounded fs.nodes
  descriptor : ∃ o, fs.descriptor fd = some o ∧ o.path = dir ∧ o.isDir = true

section Walk
variable {fs fs' : State} {fd : Int} {dir : Path} {c : Call}

theorem walking_step (walking : Walking fd dir fs) (copied : c.Copied) (unclosed : c ≠ .close fd)
    (taken : step fs c = some fs') : Walking fd dir fs' := by
  obtain ⟨r, done⟩ := step_call taken
  obtain ⟨o, found, path, isDir⟩ := walking.descriptor
  refine ⟨step_sound walking.sound taken, ?_, ?_⟩
  · exact nodeEffect_bounded (call_effect walking.sound done).nodes copied walking.bounded
  cases lists : c.lists fd with
  | false =>
    have other : ∀ count, c ≠ .getdents64 fd count := by
      intro count same
      rw [lists_iff.mpr ⟨count, same⟩] at lists
      cases lists
    obtain ⟨o', found', path', isDir', _⟩ := call_cursor done found unclosed other
    exact ⟨o', found', path'.trans path, isDir'.trans isDir⟩
  | true =>
    obtain ⟨count, same⟩ := lists_iff.mp lists
    subst same
    cases done
    obtain ⟨k, turned⟩ := getdents64_turned found isDir count
    exact ⟨_, turned_cursor found turned, path, isDir⟩

theorem page_count (walking : Walking fd dir fs) (lists : c.lists fd = true)
    (taken : step fs c = some fs') (name : Path) :
    (((fs.page fd c).map Prod.fst).count name : Int) =
      fs'.passed fd dir name - fs.passed fd dir name := by
  obtain ⟨o, found, path, isDir⟩ := walking.descriptor
  obtain ⟨count, same⟩ := lists_iff.mp lists
  subst same path
  cases taken
  obtain ⟨k, turned⟩ := getdents64_turned found isDir count
  have names : (fs.getdents64 fd count).1.childNames o.path = fs.childNames o.path := by
    rw [turned.state]
    exact childNames_nodes fs o.path rfl
  simp only [State.passed, turned_cursor found turned, found, names, Option.elim_some]
  rw [page_turned turned (bounded_copied walking.bounded o.path), map_take, map_drop,
    listing_names, take_add, count_append]
  omega

theorem listed_count (walking : Walking fd dir s₀) (run : Run step s₀ past s)
    (copied : ∀ e ∈ past, e.2.Copied) (unclosed : ∀ e ∈ past, e.2 ≠ .close fd) (name : Path) :
    (((listed fd past).map Prod.fst).count name : Int) =
      gained (fun fs => fs.passed fd dir name) (fun c => c.lists fd) past s := by
  induction run with
  | nil => rfl
  | @snoc past s s' c before taken ih =>
    have copied' : ∀ e ∈ past, e.2.Copied :=
      fun e member => copied e (mem_cons_of_mem _ member)
    have unclosed' : ∀ e ∈ past, e.2 ≠ .close fd :=
      fun e member => unclosed e (mem_cons_of_mem _ member)
    have here : Walking fd dir s :=
      run_invariant_of (fun _ c => c.Copied ∧ c ≠ .close fd) (Walking fd dir) walking
        (fun _ _ _ held ok taken => walking_step held ok.1 ok.2 taken) before
        (fun e member => ⟨copied' e member, unclosed' e member⟩)
    have earlier := ih copied' unclosed'
    rw [listed, gained, map_append, count_append, Int.natCast_add, earlier]
    cases lists : c.lists fd with
    | false =>
      rw [page_other lists, if_neg (by decide)]
      rfl
    | true => rw [page_count here lists taken name, if_pos rfl]

theorem passed_end (walking : Walking fd dir fs) (zero : (fs.getdents64 fd n).2.1 = 0)
    (big : 512 ≤ n) (there : name ∈ fs.childNames dir) :
    (fs.getdents64 fd n).1.passed fd dir name = 1 := by
  obtain ⟨o, found, path, isDir⟩ := walking.descriptor
  subst path
  obtain ⟨k, turned⟩ := getdents64_turned found isDir n
  have all := turned_zero turned zero (by
    intro next_ next
    have short := (bounded_copied walking.bounded o.path next_ (mem_of_getElem? next)).1
    have bounds := recordLen_bounds next_
    omega)
  have names : (fs.getdents64 fd n).1.childNames o.path = fs.childNames o.path := by
    rw [turned.state]
    exact childNames_nodes fs o.path rfl
  simp only [State.passed, turned_cursor found turned, names, Option.elim_some]
  rw [take_of_length_le (by omega),
    count_eq_one_of_mem (childNames_nodup fs o.path) there]
  rfl

end Walk

/-- A directory is read until the end is found, through a descriptor at its beginning, while other
    calls change it. Every name that is there at all the calls is found exactly once, if and only
    if the other calls have moved it as often from before the place of the descriptor to behind it
    as the other way. -/
theorem survivors_found_once_iff {earlier past : List (State × Call)} {s₀ w s : State} {fd : Int}
    {o : OpenFd} {n : Nat} (first : Run step initial earlier s₀)
    (found : s₀.descriptor fd = some o) (dir : o.isDir = true) (fresh : o.dirPos = 0)
    (second : Run step s₀ ((w, .getdents64 fd n) :: past) s)
    (ended : (w.getdents64 fd n).2.1 = 0)
    (copied : ∀ e ∈ (w, .getdents64 fd n) :: past ++ earlier, e.2.Copied)
    (unclosed : ∀ e ∈ past, e.2 ≠ .close fd)
    (big : ∀ e ∈ (w, .getdents64 fd n) :: past, ∀ count, e.2 = .getdents64 fd count → 512 ≤ count) :
    (∀ name, Survives o.path name ((w, .getdents64 fd n) :: past) →
      ((listed fd ((w, .getdents64 fd n) :: past)).map Prod.fst).count name = 1) ↔
    ∀ name, Survives o.path name ((w, .getdents64 fd n) :: past) →
      gained (fun fs => fs.passed fd o.path name) (fun c => !c.lists fd)
        ((w, .getdents64 fd n) :: past) s = 0 := by
  have bounded : Bounded s₀.nodes ∧ Sound s₀ := by
    refine run_invariant_of (fun _ c => c.Copied) (fun fs => Bounded fs.nodes ∧ Sound fs)
      ⟨bounded_initial, sound_initial⟩ ?_ first (fun e member => copied e (by simp [member]))
    intro fs c fs' held ok taken
    obtain ⟨r, done⟩ := step_call taken
    exact ⟨nodeEffect_bounded (call_effect held.2 done).nodes ok held.1, step_sound held.2 taken⟩
  have walking : Walking fd o.path s₀ := ⟨bounded.2, bounded.1, o, found, rfl, dir⟩
  cases second with
  | snoc before taken =>
    have last : Walking fd o.path w :=
      run_invariant_of (fun _ c => c.Copied ∧ c ≠ .close fd) (Walking fd o.path) walking
        (fun _ _ _ held ok taken => walking_step held ok.1 ok.2 taken) before
        (fun e member => ⟨copied e (by simp [member]), unclosed e member⟩)
    have whole := Run.snoc before taken
    have after : (w.getdents64 fd n).1 = s := Option.some.inj taken
    have balance : ∀ name, Survives o.path name ((w, .getdents64 fd n) :: past) →
        ((((listed fd ((w, .getdents64 fd n) :: past)).map Prod.fst).count name : Nat) : Int) +
          gained (fun fs => fs.passed fd o.path name) (fun c => !c.lists fd)
            ((w, .getdents64 fd n) :: past) s = 1 := by
      intro name survives
      have start : s₀.passed fd o.path name = 0 := by
        rw [State.passed, found, Option.elim_some, fresh, take_zero]
        rfl
      rw [listed_count walking whole (fun e member => copied e (by
          rcases mem_cons.mp member with same | later
          · simp [same]
          · simp [later]))
        (by
          intro e member
          rcases mem_cons.mp member with same | later
          · rw [same]
            simp
          · exact unclosed e later) name,
        gained_split _ _ whole, start, ← after,
        passed_end last ended (big _ mem_cons_self n rfl)
          (survives (w, .getdents64 fd n) mem_cons_self)]
      rfl
    constructor
    · intro once name survives
      have sum := balance name survives
      rw [once name survives] at sum
      omega
    · intro even name survives
      have sum := balance name survives
      rw [even name survives] at sum
      omega

def addB : Call := .open_ (text "/tmp/b") oCreat 0

theorem name_added_behind : ∃ earlier s₀ s₁ s₂ s₃ s, Run step initial earlier s₀ ∧
    Run step s₀ [(s₃, .getdents64 4001 512), (s₂, .getdents64 4001 512), (s₁, addB),
      (s₀, .getdents64 4001 512)] s ∧
    s₀.childNames (text "/tmp") = [text "a"] ∧
    (s₂.page 4001 (.getdents64 4001 512)).map Prod.fst = [text "b"] ∧
    ∀ name, Survives (text "/tmp") name [(s₃, .getdents64 4001 512), (s₂, .getdents64 4001 512),
        (s₁, addB), (s₀, .getdents64 4001 512)] →
      ((listed 4001 [(s₃, .getdents64 4001 512), (s₂, .getdents64 4001 512), (s₁, addB),
        (s₀, .getdents64 4001 512)]).map Prod.fst).count name = 1 := by
  let turn : Call := .getdents64 4001 512
  obtain ⟨earlier, s₀, first, copied, test⟩ := run_of_exec
    (fun (_ : State) (c : Call) => decide c.Copied) step initial
    [.open_ (text "/tmp/a") oCreat 0, .open_ (text "/tmp") oDirectory 0]
    (fun s₀ => ((s₀.descriptor 4001).any fun o : OpenFd => o.isDir && decide (o.dirPos = 0) &&
      decide (o.path = text "/tmp")) && decide (s₀.childNames (text "/tmp") = [text "a"]) &&
      (step s₀ turn).any fun s₁ : State => (step s₁ addB).any fun s₂ : State =>
        decide ((s₂.page 4001 turn).map Prod.fst = [text "b"]) &&
        (step s₂ turn).any fun s₃ : State => decide ((s₃.getdents64 4001 512).2.1 = 0) &&
          decide (gained (fun fs => fs.passed 4001 (text "/tmp") (text "a"))
            (fun c => !c.lists 4001) [(s₃, turn), (s₂, turn), (s₁, addB), (s₀, turn)]
            (s₃.getdents64 4001 512).1 = 0)) (by decide +kernel)
  simp only [Bool.and_eq_true, decide_eq_true_eq] at test
  obtain ⟨⟨opened, names⟩, test⟩ := test
  obtain ⟨o, found, opened⟩ := (Option.any_eq_true _ _).mp opened
  simp only [Bool.and_eq_true, decide_eq_true_eq] at opened
  obtain ⟨⟨dir, fresh⟩, path⟩ := opened
  obtain ⟨s₁, taken₀, test⟩ := (Option.any_eq_true _ _).mp test
  obtain ⟨s₂, taken₁, test⟩ := (Option.any_eq_true _ _).mp test
  simp only [Bool.and_eq_true, decide_eq_true_eq] at test
  obtain ⟨s₃, taken₂, last⟩ := (Option.any_eq_true _ _).mp test.2
  simp only [Bool.and_eq_true, decide_eq_true_eq] at last
  have second : Run step s₀ [(s₃, turn), (s₂, turn), (s₁, addB), (s₀, turn)]
      (s₃.getdents64 4001 512).1 := .snoc (.snoc (.snoc (.snoc .nil taken₀) taken₁) taken₂) rfl
  have all := (survivors_found_once_iff first found dir fresh second last.1
    (by
      intro e member
      rcases mem_append.mp member with own | before
      · have calls : ∀ c ∈ [turn, turn, addB, turn], c.Copied := by decide
        exact calls e.2 (mem_map_of_mem own)
      · exact of_decide_eq_true (copied e before))
    (by simp [turn, addB]) (by simp [turn, addB])).mpr (by
      intro name survives
      rw [path] at survives ⊢
      have there : name ∈ s₀.childNames (text "/tmp") := survives (s₀, turn) (by simp)
      rw [names] at there
      rw [mem_singleton.mp there]
      exact last.2)
  rw [path] at all
  exact ⟨earlier, s₀, s₁, s₂, s₃, _, first, second, names, test.1, all⟩

def longName (b : UInt8) : Path := List.replicate 240 b

def twoLongNames : List Call :=
  [.open_ (text "/tmp/" ++ longName 97) oCreat 0, .open_ (text "/tmp/" ++ longName 98) oCreat 0,
    .open_ (text "/tmp") oDirectory 0]

/-- The first name is removed after it was read, and the second one, which stays, is not found. -/
theorem removal_hides_name : ∃ earlier s₀ s₁ s₂ s, Run step initial earlier s₀ ∧
    Run step s₀ [(s₂, .getdents64 4002 512), (s₁, .unlink (text "/tmp/" ++ longName 97)),
      (s₀, .getdents64 4002 512)] s ∧
    (s₀.descriptor 4002).map OpenFd.dirPos = some 0 ∧ (s₂.getdents64 4002 512).2.1 = 0 ∧
    Survives (text "/tmp") (longName 98) [(s₂, .getdents64 4002 512),
      (s₁, .unlink (text "/tmp/" ++ longName 97)), (s₀, .getdents64 4002 512)] ∧
    (listed 4002 [(s₂, .getdents64 4002 512), (s₁, .unlink (text "/tmp/" ++ longName 97)),
      (s₀, .getdents64 4002 512)]).map Prod.fst = [longName 97] := by
  obtain ⟨earlier, s₀, first, _, test⟩ := run_of_exec (fun _ _ => true) step initial twoLongNames
    (fun s₀ => decide ((s₀.descriptor 4002).map OpenFd.dirPos = some 0) &&
      (step s₀ (.getdents64 4002 512)).any fun s₁ : State =>
        (step s₁ (.unlink (text "/tmp/" ++ longName 97))).any fun s₂ : State =>
          decide ((s₂.getdents64 4002 512).2.1 = 0) &&
          decide (longName 98 ∈ s₂.childNames (text "/tmp")) &&
          decide (longName 98 ∈ s₁.childNames (text "/tmp")) &&
          decide (longName 98 ∈ s₀.childNames (text "/tmp")) &&
          decide ((listed 4002 [(s₂, .getdents64 4002 512),
            (s₁, .unlink (text "/tmp/" ++ longName 97)), (s₀, .getdents64 4002 512)]).map
              Prod.fst = [longName 97])) (by decide +kernel)
  rw [Bool.and_eq_true] at test
  obtain ⟨s₁, turn, test₁⟩ := (Option.any_eq_true _ _).mp test.2
  obtain ⟨s₂, removed, test₂⟩ := (Option.any_eq_true _ _).mp test₁
  simp only [Bool.and_eq_true, decide_eq_true_eq] at test₂
  obtain ⟨⟨⟨⟨ended, third⟩, second⟩, begins⟩, read⟩ := test₂
  refine ⟨earlier, s₀, s₁, s₂, (s₂.getdents64 4002 512).1, first, ?_, of_decide_eq_true test.1,
    ended, ?_, read⟩
  · exact .snoc (.snoc (.snoc .nil turn) removed) rfl
  intro e member
  simp only [mem_cons, not_mem_nil, or_false] at member
  rcases member with same | same | same
  · rw [same]
    exact third
  · rw [same]
    exact second
  · rw [same]
    exact begins

end TynKernel.Tmpfs
