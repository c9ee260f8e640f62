import Mathlib.Data.List.TakeWhile
import TynKernel.Tmpfs.Accounting

/-!
The tree of the writable file system. It is only in the keys of the map: a node lies in the
directory whose path is its own up to the last slash.
-/
namespace TynKernel.Tmpfs
open Bytes List Runs Weights
variable {path front k name root old new : Path} {v node : Node} {fs' : State}

theorem dropSlashes_cons (b : UInt8) (rest : Path) :
    dropSlashes (b :: rest) =
      if dropSlashes rest = [] then if b = 47 then [] else [b] else b :: dropSlashes rest := by
  rw [dropSlashes]
  cases dropSlashes rest with
  | nil | cons c tail => rfl

theorem dropSlashes_end (path : Path) : (dropSlashes path).getLast? ≠ some 47 := by
  induction path with
  | nil => exact nofun
  | cons b rest ih =>
    rw [dropSlashes_cons]
    cases kept : dropSlashes rest with
    | nil =>
      rw [if_pos rfl]
      split
      · exact nofun
      · rename_i other
        simpa using other
    | cons c tail =>
      rw [kept] at ih
      exact ih

theorem dropSlashes_of_end (ended : path.getLast? ≠ some 47) :
    dropSlashes path = path := by
  induction path with
  | nil => rfl
  | cons b rest ih =>
    rw [dropSlashes_cons]
    cases rest with
    | nil =>
      have other : b ≠ 47 := by simpa using ended
      exact (if_pos rfl).trans (if_neg other)
    | cons c tail =>
      rw [ih ended, if_neg (cons_ne_nil c tail)]

theorem dropSlashes_sublist (path : Path) : (dropSlashes path).Sublist path := by
  induction path with
  | nil => exact .refl _
  | cons b rest ih =>
    rw [dropSlashes_cons]
    split
    · split
      · exact nil_sublist _
      · exact List.Sublist.cons_cons b (nil_sublist _)
    · exact List.Sublist.cons_cons b ih

theorem dropSlashes_eq_nil : dropSlashes path = [] ↔ ∀ b ∈ path, b = 47 := by
  induction path with
  | nil => exact ⟨fun _ => nofun, fun _ => rfl⟩
  | cons b rest ih =>
    rw [dropSlashes_cons, forall_mem_cons]
    split
    · rename_i empty
      rw [← ih, and_iff_left empty]
      split
      · rename_i slash
        simp [slash]
      · rename_i other
        simp [other]
    · rename_i kept
      constructor
      · intro empty
        cases empty
      · rintro ⟨_, slashes⟩
        exact absurd (ih.mpr slashes) kept

theorem dropSlashes_append (front back : Path) :
    dropSlashes (front ++ back) =
      if dropSlashes back = [] then dropSlashes front else front ++ dropSlashes back := by
  induction front with
  | nil =>
    split
    · rename_i empty
      exact empty
    · rfl
  | cons b rest ih =>
    rw [cons_append, dropSlashes_cons, ih]
    by_cases empty : dropSlashes back = []
    · rw [if_pos empty, if_pos empty, dropSlashes_cons]
    · have both : rest ++ dropSlashes back ≠ [] :=
        fun none_ => empty (append_eq_nil_iff.mp none_).2
      rw [if_neg empty, if_neg empty, if_neg both, cons_append]

theorem norm_shape (path : Path) :
    ∃ rest, norm path = 47 :: rest ∧ rest.getLast? ≠ some 47 := by
  have slashed (p : Path) : ∃ rest,
      (if (text "/").isPrefixOf p then p else text "/" ++ p) = 47 :: rest := by
    split
    · rename_i begins
      obtain ⟨rest, same⟩ := isPrefixOf_iff_prefix.mp begins
      exact ⟨rest, same.symm⟩
    · exact ⟨p, rfl⟩
  unfold norm
  simp only
  obtain ⟨rest, same⟩ := slashed (if (text "./").isPrefixOf path then path.drop 1 else path)
  rw [same]
  exact ⟨dropSlashes rest, rfl, dropSlashes_end rest⟩

theorem norm_of_shape (ended : rest.getLast? ≠ some 47) : norm (47 :: rest) = 47 :: rest := by
  have undotted : (text "./").isPrefixOf (47 :: rest) = false := rfl
  have slashed : (text "/").isPrefixOf (47 :: rest) = true := by
    cases rest <;> rfl
  simp [norm, undotted, slashed, dropSlashes_of_end ended]

theorem norm_sublist (path : Path) : (norm path).Sublist (47 :: path) := by
  have cut : (if (text "./").isPrefixOf path then path.drop 1 else path).Sublist path := by
    split
    · exact drop_sublist _ _
    · exact .refl _
  unfold norm
  simp only
  generalize (if (text "./").isPrefixOf path then path.drop 1 else path) = p at cut ⊢
  have whole : (if (text "/").isPrefixOf p then p else text "/" ++ p).Sublist (47 :: path) := by
    split
    · exact List.Sublist.cons 47 cut
    · exact List.Sublist.cons_cons 47 cut
  generalize (if (text "/").isPrefixOf p then p else text "/" ++ p) = v at whole ⊢
  cases v with
  | nil => exact nil_sublist _
  | cons b rest => exact (List.Sublist.cons_cons b (dropSlashes_sublist rest)).trans whole

theorem norm_begins (long : 2 ≤ front.length) :
    ∃ kept, ∀ back, norm (front ++ back) = 47 :: dropSlashes (kept ++ back) := by
  have dot : text "./" = [46, 47] := by decide
  have slash : text "/" = [47] := by decide
  match front, long with
  | a :: b :: rest, _ =>
    by_cases dotted : a = 46 ∧ b = 47
    · refine ⟨rest, fun back => ?_⟩
      simp [norm, dot, slash, dotted.1, dotted.2]
    by_cases slashed : a = 47
    · refine ⟨b :: rest, fun back => ?_⟩
      simp [norm, dot, slash, slashed]
    · refine ⟨a :: b :: rest, fun back => ?_⟩
      have undotted : ¬ (46 = a ∧ 47 = b) := fun both => dotted ⟨both.1.symm, both.2.symm⟩
      have bare : ¬ 47 = a := fun same => slashed same.symm
      simp [norm, dot, slash, undotted, bare]

theorem norm_append (long : 2 ≤ front.length) (back : Path) :
    norm front = norm (front ++ back) ↔ ∀ b ∈ back, b = 47 := by
  obtain ⟨kept, begins⟩ := norm_begins long
  have bare := begins []
  rw [append_nil, append_nil] at bare
  rw [bare, begins back, dropSlashes_append, ← dropSlashes_eq_nil]
  by_cases empty : dropSlashes back = []
  · simp [empty]
  simp only [empty, if_false, List.cons.injEq, true_and, iff_false]
  intro same
  have length := congrArg List.length same
  have shorter := (dropSlashes_sublist kept).length_le
  have longer := length_pos_iff.mpr empty
  rw [length_append] at length
  omega

theorem parent_split (inner : parent k ≠ text "/") :
    ∃ name, k = parent k ++ 47 :: name ∧ 47 ∉ name := by
  have cut := takeWhile_append_dropWhile (p := fun b : UInt8 => decide (b ≠ 47)) (l := k.reverse)
  unfold parent at inner ⊢
  cases tail : k.reverse.dropWhile (· ≠ 47) with
  | nil =>
    rw [tail] at inner
    exact absurd rfl inner
  | cons b up =>
    have slash : b = 47 := by
      have head := head?_dropWhile_not (fun b : UInt8 => decide (b ≠ 47)) k.reverse
      rw [tail] at head
      simpa using head
    rw [tail] at inner cut
    cases up with
    | nil => exact absurd rfl inner
    | cons =>
      refine ⟨(k.reverse.takeWhile (· ≠ 47)).reverse, ?_, ?_⟩
      · rw [slash] at cut
        have whole := congrArg List.reverse cut
        simp only [reverse_append, reverse_reverse, reverse_cons] at whole
        refine whole.symm.trans ?_
        simp
      · intro member
        have := mem_takeWhile_imp (mem_reverse.mp member)
        simp at this

theorem parent_child (nonempty : p ≠ []) (plain : 47 ∉ name) : parent (p ++ 47 :: name) = p := by
  have skipped : (p ++ 47 :: name).reverse.dropWhile (· ≠ 47) = 47 :: p.reverse := by
    rw [reverse_append, reverse_cons, append_assoc, dropWhile_append_of_pos]
    · rfl
    · intro b member
      have other : b ≠ 47 := fun same => plain (same ▸ mem_reverse.mp member)
      simpa using other
  unfold parent
  rw [skipped]
  cases whole : p.reverse with
  | nil => exact absurd (reverse_eq_nil_iff.mp whole) nonempty
  | cons =>
    rw [← reverse_reverse p, whole]
    rfl

def mounts : List Path := [text "/tmp", text "/dev/shm"]

def Inside (k : Path) : Prop := ∃ root ∈ mounts, k = root ∨ ∃ rest, k = root ++ 47 :: rest

structure Key (k : Path) : Prop where
  inside : Inside k
  ended : k.getLast? ≠ some 47

theorem key_slash : ¬ Key (text "/") := by
  intro key
  obtain ⟨root, member, whole | ⟨rest, whole⟩⟩ := key.inside
  · rw [← whole] at member
    exact absurd member (by decide)
  · simp only [mounts, mem_cons, not_mem_nil, or_false] at member
    rcases member with same | same <;> rw [same] at whole <;> cases whole

theorem key_begins (key : Key k) : ∃ rest, k = 47 :: rest := by
  obtain ⟨root, member, same⟩ := key.inside
  simp only [mounts, mem_cons, not_mem_nil, or_false] at member
  rcases member with root' | root' <;> rw [root'] at same <;>
    rcases same with whole | ⟨rest, whole⟩ <;> exact ⟨_, whole⟩

theorem norm_key (key : Key k) : norm k = k := by
  obtain ⟨rest, same⟩ := key_begins key
  have ended := key.ended
  rw [same] at ended ⊢
  cases rest with
  | nil => exact absurd rfl ended
  | cons =>
    exact norm_of_shape ended

theorem mount_alone (mount : root ∈ mounts) : ¬ Key (parent root) := by
  simp only [mounts, mem_cons, not_mem_nil, or_false] at mount
  rcases mount with same | same
  · have up : parent root = text "/" := by
      rw [same]
      decide
    rw [up]
    exact key_slash
  · have up : parent root = text "/dev" := by
      rw [same]
      decide
    rw [up]
    intro key
    obtain ⟨root, member, whole⟩ := key.inside
    simp only [mounts, mem_cons, not_mem_nil, or_false] at member
    rcases member with same | same <;> rw [same] at whole <;>
      rcases whole with whole | ⟨rest, whole⟩ <;> cases whole

theorem key_split (above : Key (parent k)) :
    ∃ name, k = parent k ++ 47 :: name ∧ 47 ∉ name :=
  parent_split fun same => key_slash (same ▸ above)

theorem parent_ne (above : Key (parent k)) : parent k ≠ k := by
  obtain ⟨name, whole, _⟩ := key_split above
  intro same
  have := congrArg List.length whole
  rw [same] at this
  simp at this

theorem key_norm (above : Key (parent (norm path))) : Key (norm path) := by
  obtain ⟨name, whole, _⟩ := key_split above
  obtain ⟨rest, begins, ended⟩ := norm_shape path
  refine ⟨?_, ?_⟩
  · obtain ⟨root, member, same | ⟨tail, same⟩⟩ := above.inside
    · exact ⟨root, member, .inr ⟨name, by rw [← same]; exact whole⟩⟩
    · refine ⟨root, member, .inr ⟨tail ++ 47 :: name, ?_⟩⟩
      rw [whole, same]
      simp
  · rw [begins]
    cases rest with
    | nil =>
      rw [begins] at above
      exact absurd above key_slash
    | cons => rwa [getLast?_cons_cons]

theorem hasChildren_iff :
    hasChildren nodes dir = true ↔
      ∃ k node, nodes.lookup k = some node ∧ (dir ++ text "/") <+: k := by
  simp only [hasChildren, any_eq_true, isPrefixOf_iff_prefix]
  constructor
  · rintro ⟨k, member, below⟩
    obtain ⟨node, found⟩ := Option.isSome_iff_exists.mp (AList.lookup_isSome.mpr member)
    exact ⟨k, node, found, below⟩
  · rintro ⟨k, node, found, below⟩
    exact ⟨k, AList.lookup_isSome.mp (by simp [found]), below⟩

def Keyed (nodes : AList fun _ : Path => Node) : Prop :=
  ∀ k node, nodes.lookup k = some node → Key k

theorem keyed_insert (keyed : Keyed nodes) (key : Key k) : Keyed (nodes.insert k v) := by
  intro p node found
  rw [lookup_write] at found
  split at found
  · rename_i same
    rwa [same]
  · exact keyed p node found

theorem keyed_erase (keyed : Keyed nodes) : Keyed (nodes.erase k) := by
  intro p node found
  rw [lookup_erased] at found
  split at found
  · cases found
  · exact keyed p node found

section Steps
variable {fs : State} {c : Call} {nodes : AList fun _ : Path => Node} {total : Nat} {code : Int}

theorem nodeEffect_keyed (keyed : Keyed fs.nodes) (effect : NodeEffect fs c nodes total code) :
    Keyed nodes := by
  cases effect with
  | same => exact keyed
  | create path flags mode perm up _ absent above dir | mkdir path mode perm up absent above dir =>
    exact keyed_insert keyed (key_norm (keyed _ _ above))
  | rewrite _ path node data _ _ writes present =>
    exact keyed_insert keyed (keyed _ _ present)
  | unlink | rmdir | clobber => exact keyed_erase keyed
  | rename old new src _ can =>
    obtain ⟨up, above, _⟩ := can.above
    exact keyed_insert (keyed_erase (keyed_erase keyed)) (key_norm (keyed _ _ above))

theorem keyed_initial : Keyed initial.nodes := by
  have key : ∀ root ∈ mounts, Key root := by
    intro root mount
    refine ⟨⟨root, mount, .inl rfl⟩, ?_⟩
    revert root
    decide
  exact keyed_insert (keyed_insert (fun _ _ found => by cases found) (key _ (by decide)))
    (key _ (by decide))

def Rooted (nodes : AList fun _ : Path => Node) : Prop :=
  ∀ k node, nodes.lookup k = some node → k ∉ mounts →
    ∃ up, nodes.lookup (parent k) = some up ∧ up.isDir = true

theorem rooted_insert (rooted : Rooted nodes)
    (above : k ∉ mounts → ∃ up, nodes.lookup (parent k) = some up ∧ up.isDir = true)
    (kind : ∀ node, nodes.lookup k = some node → node.isDir = true → v.isDir = true) :
    Rooted (nodes.insert k v) := by
  have kept : ∀ p, (∃ up, nodes.lookup p = some up ∧ up.isDir = true) →
      ∃ up, (nodes.insert k v).lookup p = some up ∧ up.isDir = true := by
    rintro p ⟨up, found, dir⟩
    rw [lookup_write]
    split
    · rename_i same
      exact ⟨v, rfl, kind up (same ▸ found) dir⟩
    · exact ⟨up, found, dir⟩
  intro p node found inner
  rw [lookup_write] at found
  split at found
  · rename_i same
    exact kept _ (same ▸ above (same ▸ inner))
  · exact kept _ (rooted p node found inner)

theorem rooted_erase (rooted : Rooted nodes)
    (leaf : ∀ p node, nodes.lookup p = some node → p ∉ mounts → parent p ≠ k) :
    Rooted (nodes.erase k) := by
  intro p node found inner
  rw [lookup_erased] at found
  split at found
  · cases found
  · obtain ⟨up, there, dir⟩ := rooted p node found inner
    refine ⟨up, ?_, dir⟩
    rw [lookup_erased, if_neg (leaf p node found inner), there]

theorem leaf_of_file (rooted : Rooted nodes) (present : nodes.lookup k = some node)
    (file : node.isDir = false) :
    ∀ p node, nodes.lookup p = some node → p ∉ mounts → parent p ≠ k := by
  intro p other found inner same
  obtain ⟨up, there, dir⟩ := rooted p other found inner
  rw [same, present] at there
  cases there
  rw [file] at dir
  cases dir

theorem leaf_of_vacant (key : Key k) (vacant : hasChildren nodes k = false) :
    ∀ p node, nodes.lookup p = some node → p ∉ mounts → parent p ≠ k := by
  intro p other found inner same
  rw [← same] at key
  obtain ⟨name, whole, _⟩ := key_split key
  have inhabited : hasChildren nodes k = true := by
    refine hasChildren_iff.mpr ⟨p, other, found, name, ?_⟩
    rw [← same, append_assoc]
    exact whole.symm
  rw [vacant] at inhabited
  cases inhabited

theorem leaf_of_either (rooted : Rooted nodes) (keyed : Keyed nodes)
    (present : nodes.lookup k = some node)
    (vacant : node.isDir = true → hasChildren nodes k = false) :
    ∀ p node, nodes.lookup p = some node → p ∉ mounts → parent p ≠ k := by
  cases dir : node.isDir with
  | true => exact leaf_of_vacant (keyed _ _ present) (vacant dir)
  | false => exact leaf_of_file rooted present dir

theorem nodeEffect_rooted (keyed : Keyed fs.nodes) (rooted : Rooted fs.nodes)
    (effect : NodeEffect fs c nodes total code)
    (stays : ∀ old new src, c = .rename old new → Renames fs old new src →
      parent (norm new) ≠ norm old) : Rooted nodes := by
  cases effect with
  | same => exact rooted
  | create path flags mode perm up _ absent above dir | mkdir path mode perm up absent above dir =>
    refine rooted_insert rooted (fun _ => ⟨up, above, dir⟩) ?_
    rw [absent]
    exact nofun
  | rewrite _ path node data _ _ writes present =>
    refine rooted_insert rooted (rooted path node present) ?_
    intro other found dir
    rw [present] at found
    cases found
    exact dir
  | unlink path node _ present file =>
    exact rooted_erase rooted (leaf_of_file rooted present file)
  | rmdir path node present dir inner vacant =>
    exact rooted_erase rooted (leaf_of_vacant (keyed _ _ present) vacant)
  | rename old new src _ can =>
    obtain ⟨up, above, dir⟩ := can.above
    have cleared : Rooted (fs.nodes.erase (norm new)) := by
      cases target : fs.nodes.lookup (norm new) with
      | none => rwa [erase_absent target]
      | some dst =>
        exact rooted_erase rooted (leaf_of_either rooted keyed target (can.replaced dst target).2)
    have still : (fs.nodes.erase (norm new)).lookup (norm old) = some src := by
      rw [lookup_erased, if_neg can.apart, can.source]
    refine rooted_insert (rooted_erase cleared ?_) (fun _ => ⟨up, ?_, dir⟩) ?_
    · exact leaf_of_either cleared (keyed_erase keyed) still can.childless
    · have outside := stays old new src rfl can
      rw [lookup_erased, if_neg outside, lookup_erased, if_neg (parent_ne (keyed _ _ above)), above]
    · rw [lookup_erased, if_neg can.apart.symm, lookup_erased, if_pos rfl]
      exact nofun
  | clobber old new clobbers =>
    obtain ⟨dst, target, _⟩ := clobbers.target
    exact rooted_erase rooted (leaf_of_vacant (keyed _ _ target) clobbers.vacant)

def Mounted (nodes : AList fun _ : Path => Node) : Prop :=
  ∀ root ∈ mounts, ∃ node, nodes.lookup root = some node ∧ node.isDir = true

theorem mounted_insert (mounted : Mounted nodes)
    (kind : ∀ node, nodes.lookup k = some node → node.isDir = true → v.isDir = true) :
    Mounted (nodes.insert k v) := by
  intro root mount
  obtain ⟨node, found, dir⟩ := mounted root mount
  rw [lookup_write]
  split
  · rename_i same
    exact ⟨v, rfl, kind node (same ▸ found) dir⟩
  · exact ⟨node, found, dir⟩

theorem mounted_erase (mounted : Mounted nodes) (inner : k ∉ mounts) :
    Mounted (nodes.erase k) := by
  intro root mount
  have other : root ≠ k := fun same => inner (same ▸ mount)
  rw [lookup_erased, if_neg other]
  exact mounted root mount

theorem inner_of_above (keyed : Keyed nodes) (above : nodes.lookup (parent path) = some up) :
    path ∉ mounts :=
  fun mount => mount_alone mount (keyed _ _ above)

theorem nodeEffect_mounted (keyed : Keyed fs.nodes) (mounted : Mounted fs.nodes)
    (effect : NodeEffect fs c nodes total code)
    (stays : ∀ old new src, c = .rename old new → Renames fs old new src →
      norm old ∉ mounts) : Mounted nodes := by
  cases effect with
  | same => exact mounted
  | create path flags mode perm up _ absent | mkdir path mode perm up absent =>
    refine mounted_insert mounted ?_
    rw [absent]
    exact nofun
  | rewrite _ path node data _ _ writes present =>
    refine mounted_insert mounted ?_
    intro other found dir
    rw [present] at found
    cases found
    exact dir
  | unlink path node _ present file =>
    refine mounted_erase mounted ?_
    intro mount
    obtain ⟨other, found, dir⟩ := mounted _ mount
    rw [present] at found
    cases found
    rw [file] at dir
    cases dir
  | rmdir path node present dir inner =>
    refine mounted_erase mounted ?_
    simp [mounts, inner]
  | rename old new src _ can =>
    obtain ⟨up, above, _⟩ := can.above
    have destination := inner_of_above keyed above
    have origin := stays old new src rfl can
    refine mounted_insert (mounted_erase (mounted_erase mounted destination) origin) ?_
    rw [lookup_erased, if_neg can.apart.symm, lookup_erased, if_pos rfl]
    exact nofun
  | clobber old new clobbers =>
    obtain ⟨up, above, _⟩ := clobbers.above
    exact mounted_erase mounted (inner_of_above keyed above)

end Steps

structure Shaped (fs : State) : Prop where
  sound : Sound fs
  keyed : Keyed fs.nodes

theorem step_shaped (shaped : Shaped fs) (taken : step fs c = some fs') : Shaped fs' := by
  obtain ⟨r, done⟩ := step_call taken
  exact ⟨step_sound shaped.sound taken,
    nodeEffect_keyed shaped.keyed (call_effect shaped.sound done).nodes⟩

theorem shaped_initial : Shaped initial := ⟨sound_initial, keyed_initial⟩

def Moves (fs : State) (c : Call) (old new : Path) : Prop :=
  c = .rename old new ∧ ∃ src, Renames fs old new src

theorem clobbers_stays {fs : State} (clobbers : Clobbers fs old new) (src : Node) :
    ¬ Renames fs old new src := by
  intro can
  obtain ⟨dir, source, isDir⟩ := clobbers.source
  cases source.symm.trans can.source
  cases clobbers.inhabited.symm.trans (can.childless isDir)

theorem moves_nodes {fs : State} (sound : Sound fs) (moves : Moves fs c old new)
    (taken : step fs c = some fs') :
    ∃ src, Renames fs old new src ∧
      fs'.nodes = ((fs.nodes.erase (norm new)).erase (norm old)).insert (norm new) src := by
  obtain ⟨r, done⟩ := step_call taken
  obtain ⟨call, src, can⟩ := moves
  have effect := (call_effect sound done).nodes
  rw [call] at done effect
  generalize fs'.nodes = nodes, fs'.total = total, r.code = code at effect
  cases effect with
  | same _ _ idle => exact absurd can ((idle old new rfl).2 src)
  | rewrite _ path node data _ _ writes => cases writes
  | rename _ _ src _ can => exact ⟨src, can, rfl⟩
  | clobber _ _ clobbers => exact absurd can (clobbers_stays clobbers src)

inductive Reached (fs : State) : Path → Prop where
  | mount {root : Path} {node : Node} (mount : root ∈ mounts)
      (there : fs.nodes.lookup root = some node) : Reached fs root
  | child {dir name : Path} {up : Node} (above : Reached fs dir)
      (there : fs.nodes.lookup dir = some up) (isDir : up.isDir = true)
      (listed : name ∈ fs.childNames dir) : Reached fs (State.stemOf dir ++ name)

/-- A node that is no orphan: its directory is there, it is found by listing directories, and if
    it is a file it can be removed. -/
structure Held (fs : State) (k : Path) (node : Node) : Prop where
  above : ∃ up, fs.nodes.lookup (parent k) = some up ∧ up.isDir = true
  reached : Reached fs k
  removed : node.isDir = false → (fs.unlink k).2 = 0

def NoOrphans (fs : State) : Prop :=
  ∀ k node, fs.nodes.lookup k = some node → k ∉ mounts → Held fs k node

theorem stemOf_key (key : Key k) : State.stemOf k = k ++ text "/" := by
  refine if_neg ?_
  intro same
  rw [same] at key
  exact key_slash key

theorem childNames_child {fs : State} (keyed : Keyed fs.nodes)
    (present : fs.nodes.lookup k = some node) (above : Key (parent k)) :
    ∃ name ∈ fs.childNames (parent k), k = State.stemOf (parent k) ++ name := by
  obtain ⟨name, whole, plain⟩ := key_split above
  have stem := stemOf_key above
  have parts : k = State.stemOf (parent k) ++ name := by
    rw [stem, append_assoc]
    exact whole
  have nonempty : name ≠ [] := by
    intro empty
    have ended := (keyed k node present).ended
    rw [whole, empty] at ended
    simp at ended
  have rest : k.drop (State.stemOf (parent k)).length = name :=
    (congrArg (List.drop _) parts).trans drop_left
  refine ⟨name, ?_, parts⟩
  have member : k ∈ fs.nodes.keys := AList.lookup_isSome.mp (by simp [present])
  refine mem_filterMap.mpr ⟨k, (mem_insertionSort _).mpr member, ?_⟩
  rw [rest, if_pos]
  refine ⟨?_, isPrefixOf_iff_prefix.mpr ⟨name, parts.symm⟩, plain⟩
  have longer : k.length = (State.stemOf (parent k)).length + name.length :=
    (congrArg List.length parts).trans length_append
  have := length_pos_iff.mpr nonempty
  omega

theorem rooted_reached {fs : State} (keyed : Keyed fs.nodes) (rooted : Rooted fs.nodes) (k : Path)
    (node : Node) (present : fs.nodes.lookup k = some node) : Reached fs k := by
  induction size : k.length using Nat.strongRecOn generalizing k node with
  | ind n ih =>
    by_cases mount : k ∈ mounts
    · exact .mount mount present
    obtain ⟨up, there, dir⟩ := rooted k node present mount
    have above := keyed _ _ there
    obtain ⟨name, listed, whole⟩ := childNames_child keyed present above
    have shorter : (parent k).length < n := by
      have longer := congrArg List.length whole
      rw [stemOf_key above, length_append, length_append] at longer
      have slash : (text "/").length = 1 := rfl
      omega
    rw [whole]
    exact .child (ih _ shorter _ up there rfl) there dir listed

theorem rooted_held (keyed : Keyed fs.nodes) (rooted : Rooted fs.nodes) : NoOrphans fs := by
  intro k node present inner
  refine ⟨rooted k node present inner, rooted_reached keyed rooted k node present, ?_⟩
  intro file
  have found : fs.nodes.lookup (norm k) = some node := by
    rw [norm_key (keyed k node present), present]
  simp [State.unlink, found, file]

def MovesInside (fs : State) (c : Call) : Prop :=
  ∃ old new, Moves fs c old new ∧ parent (norm new) = norm old

theorem step_rooted {fs : State} (shaped : Shaped fs) (rooted : Rooted fs.nodes)
    (outside : ¬ MovesInside fs c) (taken : step fs c = some fs') : Rooted fs'.nodes := by
  obtain ⟨r, done⟩ := step_call taken
  refine nodeEffect_rooted shaped.keyed rooted (call_effect shaped.sound done).nodes ?_
  intro old new src call can within
  exact outside ⟨old, new, ⟨call, src, can⟩, within⟩

theorem movesInside_orphan (shaped : Shaped fs) (within : MovesInside fs c)
    (taken : step fs c = some fs') : ¬ NoOrphans fs' := by
  obtain ⟨old, new, moves, same⟩ := within
  obtain ⟨src, can, nodes⟩ := moves_nodes shaped.sound moves taken
  obtain ⟨up, above, _⟩ := can.above
  intro none
  have present : fs'.nodes.lookup (norm new) = some src := by
    rw [nodes, rename_lookup, if_pos rfl]
  obtain ⟨up', there, _⟩ := (none _ src present (inner_of_above shaped.keyed above)).above
  rw [nodes, rename_lookup, same, if_neg can.apart, if_pos rfl] at there
  cases there

theorem rooted_initial : Rooted initial.nodes := by
  intro k node found inner
  simp only [initial, lookup_write] at found
  split at found
  · rename_i same
    exact absurd (by rw [same]; decide) inner
  · split at found
    · rename_i same
      exact absurd (by rw [same]; decide) inner
    · cases found

/-- A run has no orphan in any of its states exactly if none of its renames moved a directory into
    itself. -/
theorem no_orphans_iff {fs : State} {past : List (State × Call)} (run : Run step initial past fs) :
    Throughout NoOrphans past fs ↔ ∀ e ∈ past, ¬ MovesInside e.1 e.2 := by
  refine throughout_iff Shaped NoOrphans MovesInside shaped_initial
    (rooted_held keyed_initial rooted_initial) (fun _ _ _ shaped taken => step_shaped shaped taken)
    ?_ ?_ run
  · intro s c s' shaped none outside taken
    have rooted : Rooted s.nodes := fun k node found inner => (none k node found inner).above
    exact rooted_held (step_shaped shaped taken).keyed (step_rooted shaped rooted outside taken)
  · intro s c s' shaped _ within taken
    exact movesInside_orphan shaped within taken

def movesOut : Call → Bool
  | .rename old new => decide (parent (norm new) ≠ norm old)
  | _ => true

theorem movesOut_outside (out : movesOut c = true) : ¬ MovesInside fs c := by
  rintro ⟨old, new, moves, within⟩
  rw [moves.1] at out
  exact absurd within (of_decide_eq_true out)

theorem file_in_moved_directory : ∃ past fs, Run step initial past fs ∧
    (fs.nodes.lookup (text "/tmp/b/f")).isSome = true ∧ Throughout NoOrphans past fs := by
  obtain ⟨past, fs, run, out, there⟩ := run_of_exec (fun _ c => movesOut c) step initial
    [.mkdir (text "/tmp/a") 0, .rename (text "/tmp/a") (text "/tmp/b"),
      .open_ (text "/tmp/b/f") oCreat 0] (fun fs => (fs.nodes.lookup (text "/tmp/b/f")).isSome)
    (by decide)
  refine ⟨past, fs, run, there, (no_orphans_iff run).mpr ?_⟩
  intro e member
  exact movesOut_outside (out e member)

theorem directory_moved_into_itself : ∃ past fs, Run step initial past fs ∧
    (fs.nodes.lookup (text "/tmp/a/b")).isSome = true ∧ fs.nodes.lookup (text "/tmp/a") = none ∧
    ¬ Throughout NoOrphans past fs := by
  obtain ⟨past, fs, run, _, final⟩ := run_of_exec (fun _ _ => true) step initial
    [.mkdir (text "/tmp/a") 0, .rename (text "/tmp/a") (text "/tmp/a/b")]
    (fun fs => (fs.nodes.lookup (text "/tmp/a/b")).isSome &&
      (fs.nodes.lookup (text "/tmp/a")).isNone) (by decide)
  simp only [Bool.and_eq_true, Option.isNone_iff_eq_none] at final
  refine ⟨past, fs, run, final.1, final.2, ?_⟩
  rintro ⟨none, _⟩
  obtain ⟨node, present⟩ := Option.isSome_iff_exists.mp final.1
  obtain ⟨up, there, _⟩ := (none _ node present (by decide)).above
  have above : parent (text "/tmp/a/b") = text "/tmp/a" := by decide
  rw [above, final.2] at there
  cases there

/-- Both mounts are directories, and to create a file in one of them is not refused with ENOENT or
    ENOTDIR. -/
structure Permanent (fs : State) : Prop where
  mounted : Mounted fs.nodes
  creates : ∀ root ∈ mounts, ∀ path name flags mode, norm path = root ++ 47 :: name →
    name ≠ [] → 47 ∉ name → flags &&& oCreat ≠ 0 → flags &&& oDirectory = 0 →
    fs.open_ path flags mode ≠ (fs, enoent) ∧ fs.open_ path flags mode ≠ (fs, enotdir)

theorem open_under {fs : State} {flags mode : Nat} {code : Int} (mounted : Mounted fs.nodes)
    (mount : root ∈ mounts) (under : norm path = root ++ 47 :: name) (plain : 47 ∉ name)
    (creates : flags &&& oCreat ≠ 0) (file : flags &&& oDirectory = 0)
    (error : code = enoent ∨ code = enotdir) : fs.open_ path flags mode ≠ (fs, code) := by
  have nonempty : root ≠ [] := by
    intro empty
    rw [empty] at mount
    exact absurd mount (by decide)
  obtain ⟨up, there, dir⟩ := mounted root mount
  have above : fs.nodes.lookup (parent (norm path)) = some up := by
    rw [under, parent_child nonempty plain, there]
  rcases open_cases fs path flags mode with
    ⟨_, code', refused, _, strays⟩ | ⟨_, _, pos, _, _, _, pushed, ready⟩
  · rw [refused]
    intro same
    rcases strays ((Prod.mk.inj same).2 ▸ error) with plain | directory | astray
    · exact creates plain
    · exact directory file
    · exact absurd (astray up above) (by rw [dir]; decide)
  · intro same
    have opens := (ready_push ready pos).1
    rw [← pushed, same] at opens
    exact absurd (congrArg List.length opens) (by simp)

theorem mounted_permanent (mounted : Mounted fs.nodes) : Permanent fs := by
  refine ⟨mounted, ?_⟩
  intro root mount path name flags mode under _ plain creates file
  exact ⟨open_under mounted mount under plain creates file (.inl rfl),
    open_under mounted mount under plain creates file (Or.inr rfl)⟩

def MovesMount (fs : State) (c : Call) : Prop := ∃ old new, Moves fs c old new ∧ norm old ∈ mounts

theorem step_mounted {fs : State} (shaped : Shaped fs) (mounted : Mounted fs.nodes)
    (inner : ¬ MovesMount fs c) (taken : step fs c = some fs') : Mounted fs'.nodes := by
  obtain ⟨r, done⟩ := step_call taken
  refine nodeEffect_mounted shaped.keyed mounted (call_effect shaped.sound done).nodes ?_
  intro old new src call can mount
  exact inner ⟨old, new, ⟨call, src, can⟩, mount⟩

theorem movesMount_gone (shaped : Shaped fs) (moved : MovesMount fs c)
    (taken : step fs c = some fs') : ¬ Mounted fs'.nodes := by
  obtain ⟨old, new, moves, mount⟩ := moved
  obtain ⟨src, can, nodes⟩ := moves_nodes shaped.sound moves taken
  intro mounted
  obtain ⟨node, found, _⟩ := mounted _ mount
  rw [nodes, rename_lookup, if_neg can.apart, if_pos rfl] at found
  cases found

theorem mounted_initial : Mounted initial.nodes := by
  intro root mount
  simp only [mounts, mem_cons, not_mem_nil, or_false] at mount
  rcases mount with same | same <;> rw [same] <;> exact ⟨⟨true, [], 0o777⟩, by decide, rfl⟩

/-- The mounts stay exactly if none is renamed. -/
theorem mounts_permanent_iff {fs : State} {past : List (State × Call)}
    (run : Run step initial past fs) :
    Throughout Permanent past fs ↔ ∀ e ∈ past, ¬ MovesMount e.1 e.2 := by
  refine throughout_iff Shaped Permanent MovesMount shaped_initial
    (mounted_permanent mounted_initial) (fun _ _ _ shaped taken => step_shaped shaped taken) ?_ ?_ run
  · intro s c s' shaped permanent inner taken
    exact mounted_permanent (step_mounted shaped permanent.mounted inner taken)
  · intro s c s' shaped _ moved taken permanent
    exact movesMount_gone shaped moved taken permanent.mounted

def keepsMounts : Call → Bool
  | .rename old _ => decide (norm old ∉ mounts)
  | _ => true

theorem keepsMounts_inner (keeps : keepsMounts c = true) : ¬ MovesMount fs c := by
  rintro ⟨old, new, moves, mount⟩
  rw [moves.1] at keeps
  exact absurd mount (of_decide_eq_true keeps)

theorem mounts_after_rmdir : ∃ past fs, Run step initial past fs ∧
    (fs.nodes.lookup (text "/dev/shm/a")).isSome = true ∧ Throughout Permanent past fs := by
  obtain ⟨past, fs, run, keeps, there⟩ := run_of_exec (fun _ c => keepsMounts c) step initial
    [.rmdir (text "/tmp/"), .mkdir (text "/tmp/a") 0, .rename (text "/tmp/a") (text "/dev/shm/a")]
    (fun fs => (fs.nodes.lookup (text "/dev/shm/a")).isSome) (by decide)
  refine ⟨past, fs, run, there, (mounts_permanent_iff run).mpr ?_⟩
  intro e member
  exact keepsMounts_inner (keeps e member)

def Call.routed : Call → Bool
  | .open_ path _ _ | .truncate path _ | .unlink path | .mkdir path _ | .rmdir path => ownsPath path
  | .rename old new => ownsPath old && ownsPath new
  | _ => true

/-- The empty mount is renamed into the other one, and cannot be made again. -/
theorem mount_renamed : ∃ past fs, Run step initial past fs ∧ (∀ e ∈ past, e.2.routed = true) ∧
    fs.nodes.lookup (text "/tmp") = none ∧ (fs.open_ (text "/tmp/f") oCreat 0).2 = enoent ∧
    (fs.mkdir (text "/tmp") 0).2 = enoent ∧ ¬ Throughout Permanent past fs := by
  obtain ⟨past, fs, run, routed, final⟩ := run_of_exec (fun _ c => c.routed) step initial
    [.rename (text "/tmp") (text "/dev/shm/x")]
    (fun fs => (fs.nodes.lookup (text "/tmp")).isNone &&
      (decide ((fs.open_ (text "/tmp/f") oCreat 0).2 = enoent) &&
        decide ((fs.mkdir (text "/tmp") 0).2 = enoent))) (by decide)
  simp only [Bool.and_eq_true, decide_eq_true_eq, Option.isNone_iff_eq_none] at final
  refine ⟨past, fs, run, routed, final.1, final.2.1, final.2.2, ?_⟩
  rintro ⟨permanent, _⟩
  obtain ⟨node, found, _⟩ := permanent.mounted (text "/tmp") (by decide)
  rw [final.1] at found
  cases found

end TynKernel.Tmpfs
