import TynKernel.Tmpfs.Effect

/-!
The account of the bytes. In every reachable state the total is the sum of the lengths of all
files and at most the cap.
-/
namespace TynKernel.Tmpfs
open Bytes List Runs Weights

variable {nodes : AList fun _ : Path => Node} {c : Call} {code : Int} {fs' : State} {len : Nat}
  {path : Path}

section Account
variable {fs : State}

theorem rename_lookup (nodes : AList fun _ : Path => Node) (o nw : Path) (src : Node) (p : Path) :
    (((nodes.erase nw).erase o).insert nw src).lookup p =
      if p = nw then some src else if p = o then none else nodes.lookup p := by
  rw [lookup_write, lookup_erased, lookup_erased]
  by_cases same : p = nw
  · rw [if_pos same, if_pos same]
  · rw [if_neg same, if_neg same, if_neg same]

theorem rename_weight (sound : Sound fs) (apart : o ≠ nw) (source : fs.nodes.lookup o = some src) :
    weight Node.size (((fs.nodes.erase nw).erase o).insert nw src) + fs.lengthAt nw =
      fs.fileBytes := by
  have still : (fs.nodes.erase nw).lookup o = some src := by
    rw [lookup_erased, if_neg apart, source]
  have gone : ((fs.nodes.erase nw).erase o).lookup nw = none := by
    rw [lookup_erased, lookup_erased, if_neg (Ne.symm apart), if_pos rfl]
  rw [weight_insert_new Node.size src gone, ← weight_present Node.size still, State.fileBytes,
    State.lengthAt]
  cases target : fs.nodes.lookup nw with
  | none =>
    rw [erase_absent target]
    rfl
  | some dst =>
    rw [weight_present Node.size target, size_length (sound.dirs nw dst target)]
    exact Nat.add_comm _ _

def EmptyDirs (nodes : AList fun _ : Path => Node) : Prop :=
  ∀ p node, nodes.lookup p = some node → node.isDir = true → node.data = []

theorem emptyDirs_insert (old : EmptyDirs nodes) (k : Path)
    (fresh : new.isDir = true → new.data = []) : EmptyDirs (nodes.insert k new) := by
  intro p node found
  rw [lookup_write] at found
  split at found
  · cases found
    exact fresh
  · exact old p node found

theorem emptyDirs_erase (old : EmptyDirs nodes) (k : Path) :
    EmptyDirs (nodes.erase k) := by
  intro p node found
  rw [lookup_erased] at found
  split at found
  · cases found
  · exact old p node found

theorem weight_erase_dir (present : nodes.lookup k = some node) (dir : node.isDir = true) :
    weight Node.size (nodes.erase k) = weight Node.size nodes := by
  have size : node.size = 0 := by simp [Node.size, dir]
  rw [weight_present Node.size present, size, Nat.zero_add]

theorem nodeEffect_sound (sound : Sound fs) (effect : NodeEffect fs c nodes total code) :
    Sound { fs with nodes := nodes, total := total } := by
  have account : fs.total = weight Node.size fs.nodes := sound.total
  have capped := sound.capped
  have dirs : EmptyDirs fs.nodes := sound.dirs
  cases effect with
  | same => exact sound
  | create path flags mode perm up _ absent | mkdir path mode perm up absent =>
    refine ⟨?_, capped, emptyDirs_insert dirs _ fun _ => rfl⟩
    exact account.trans ((weight_insert_new Node.size _ absent).trans (Nat.zero_add _)).symm
  | rewrite _ path node data _ _ writes present file count fits =>
    refine ⟨?_, fits, emptyDirs_insert dirs _ fun dir => absurd dir (by simp [file])⟩
    have change := weight_insert_over Node.size { node with data := data } present
    have old : node.size = node.data.length := size_length (sound.dirs path node present)
    have new : Node.size { node with data := data } = data.length := by simp [Node.size, file]
    simp only [State.fileBytes]
    omega
  | unlink path node _ present =>
    refine ⟨?_, by simp only; omega, emptyDirs_erase dirs _⟩
    have change := weight_present Node.size present
    have size : node.size = node.data.length := size_length (sound.dirs _ node present)
    simp only [State.fileBytes]
    omega
  | rmdir path node present dir =>
    refine ⟨?_, capped, emptyDirs_erase dirs _⟩
    exact account.trans (weight_erase_dir present dir).symm
  | rename old new src _ can =>
    have change := rename_weight sound can.apart can.source
    refine ⟨?_, by simp only; omega,
      emptyDirs_insert (emptyDirs_erase (emptyDirs_erase dirs _) _) _ ?_⟩
    · rw [← sound.total] at change
      simp only [State.fileBytes]
      omega
    · exact sound.dirs _ src can.source
  | clobber old new clobbers =>
    obtain ⟨dst, target, dir⟩ := clobbers.target
    refine ⟨?_, capped, emptyDirs_erase dirs _⟩
    exact account.trans (weight_erase_dir target dir).symm

theorem effect_sound (sound : Sound fs) (effect : Effect fs c fs' code) : Sound fs' :=
  have next := nodeEffect_sound sound effect.nodes
  ⟨next.total, next.capped, next.dirs⟩

theorem step_call (taken : step fs c = some fs') :
    ∃ r, fs.call c = some (fs', r) := by
  obtain ⟨⟨s, r⟩, done, same⟩ := Option.map_eq_some_iff.mp taken
  cases same
  exact ⟨r, done⟩

theorem step_sound (sound : Sound fs) (taken : step fs c = some fs') :
    Sound fs' := by
  obtain ⟨r, done⟩ := step_call taken
  exact effect_sound sound (call_effect sound done)

theorem sound_initial : Sound initial := by
  refine ⟨rfl, Nat.zero_le _, ?_⟩
  intro path node found dir
  simp only [initial, lookup_write] at found
  split at found
  · cases found
    rfl
  · split at found
    · cases found
      rfl
    · cases found

theorem run_sound (run : Run step initial past fs) : Sound fs :=
  run_invariant Sound sound_initial (fun _ _ _ sound taken => step_sound sound taken) run

end Account

namespace State

def writeSubtractions (fs : State) (path : Path) (pos : Nat) (buf : List UInt8) :
    List (Nat × Nat) :=
  match fs.nodes.lookup path with
  | none => []
  | some node =>
    if node.isDir ∨ buf.length = 0 then []
    else
      let len := node.data.length
      let n := min buf.length (fs.maxN len pos)
      let newEnd := (pos + n) % 2 ^ 64
      (if len ≤ pos then [(pos, len)] else [(len, pos)]) ++
        if n ≠ 0 ∧ len < newEnd then [(newEnd, len)] else []

def readSubtractions (fs : State) (path : Path) (pos : Nat) : List (Nat × Nat) :=
  match fs.nodes.lookup path with
  | none => []
  | some node => if node.data.length ≤ pos then [] else [(node.data.length, pos)]

def resizeSubtractions (fs : State) (path : Path) (len : Nat) : List (Nat × Nat) :=
  match fs.nodes.lookup path with
  | none => []
  | some node =>
    let cur := node.data.length
    if node.isDir then []
    else if cur < len then [(len, cur)]
    else [(cur, len), (fs.total, cur - len)]

def freedSubtractions (fs : State) (path : Path) : List (Nat × Nat) :=
  match fs.nodes.lookup path with
  | none => []
  | some node => if node.isDir then [] else [(fs.total, node.data.length)]

/-- The unsigned subtractions of a call on the total and on lengths, each as the word that is
    reduced and the word by which. Saturating ones are not among them. A call that is refused
    before it comes to one has it here all the same. -/
def subtractions (fs : State) : Call → List (Nat × Nat)
  | .open_ path _ _ => fs.freedSubtractions (norm path)
  | .write fd buf =>
    match fs.descriptor fd with
    | none => []
    | some o =>
      fs.writeSubtractions o.path (if o.append then fs.lengthAt o.path else o.pos) buf
  | .pwrite fd buf offset =>
    match fs.descriptor fd with
    | none => []
    | some o => fs.writeSubtractions o.path offset.toNat buf
  | .read fd _ =>
    match fs.descriptor fd with
    | none => []
    | some o => fs.readSubtractions o.path o.pos
  | .pread fd _ offset =>
    match fs.descriptor fd with
    | none => []
    | some o => fs.readSubtractions o.path offset.toNat
  | .truncate path len => fs.resizeSubtractions (norm path) len.toNat
  | .ftruncate fd len =>
    match fs.descriptor fd with
    | none => []
    | some o => fs.resizeSubtractions o.path len.toNat
  | .unlink path => fs.freedSubtractions (norm path)
  | .rename _ new => fs.freedSubtractions (norm new)
  | .lseek .. | .close _ | .mkdir .. | .rmdir _ | .getdents64 .. => []

end State

section Subtractions
variable {fs : State}

theorem writeSubtractions_exact (fs : State) (path : Path) (pos : Nat) (buf : List UInt8) :
    ∀ d ∈ fs.writeSubtractions path pos buf, d.2 ≤ d.1 := by
  intro d member
  unfold State.writeSubtractions at member
  split at member
  · cases member
  split at member
  · cases member
  simp only [mem_append] at member
  rcases member with first | second
  · split at first <;> rw [mem_singleton.mp first] <;> simp only <;> omega
  split at second
  · rw [mem_singleton.mp second]
    omega
  · cases second

theorem readSubtractions_exact (fs : State) (path : Path) (pos : Nat) :
    ∀ d ∈ fs.readSubtractions path pos, d.2 ≤ d.1 := by
  intro d member
  unfold State.readSubtractions at member
  split at member
  · cases member
  split at member
  · cases member
  · rw [mem_singleton.mp member]
    omega

theorem resizeSubtractions_exact (sound : Sound fs) (path : Path) (len : Nat) :
    ∀ d ∈ fs.resizeSubtractions path len, d.2 ≤ d.1 := by
  intro d member
  unfold State.resizeSubtractions at member
  split at member
  · cases member
  rename_i node present
  have inside := length_le_total sound present
  simp only at member
  split at member
  · cases member
  split at member
  · rw [mem_singleton.mp member]
    omega
  rcases mem_cons.mp member with first | second
  · rw [first]
    omega
  · rw [mem_singleton.mp second]
    omega

theorem freedSubtractions_exact (sound : Sound fs) (path : Path) :
    ∀ d ∈ fs.freedSubtractions path, d.2 ≤ d.1 := by
  intro d member
  unfold State.freedSubtractions at member
  split at member
  · cases member
  rename_i node present
  split at member
  · cases member
  · rw [mem_singleton.mp member]
    exact length_le_total sound present

theorem subtractions_exact (sound : Sound fs) (c : Call) :
    ∀ d ∈ fs.subtractions c, d.2 ≤ d.1 := by
  cases c with
  | open_ path flags mode | unlink path | rename old new => exact freedSubtractions_exact sound _
  | write fd buf | pwrite fd buf offset =>
    simp only [State.subtractions]
    split
    · simp
    · exact writeSubtractions_exact fs _ _ buf
  | read fd count | pread fd count offset =>
    simp only [State.subtractions]
    split
    · simp
    · exact readSubtractions_exact fs _ _
  | truncate => exact resizeSubtractions_exact sound _ _
  | ftruncate =>
    simp only [State.subtractions]
    split
    · simp
    · exact resizeSubtractions_exact sound _ _
  | lseek fd offset whence | close fd | mkdir path mode | rmdir path | getdents64 fd count =>
    simp [State.subtractions]

end Subtractions

def Call.Short : Call → Prop
  | .truncate _ len | .ftruncate _ len => len.toNat < 2 ^ 63
  | _ => True

theorem resizePath_returns (fs : State) (path : Path) (short : len < 2 ^ 63) :
    ∃ r, fs.resizePath path len = some r := by
  rcases resizePath_cases fs path len with ⟨_, _, refused, _⟩ | ⟨_, _, _, _, _, resized⟩
  · exact ⟨_, refused⟩
  · exact ⟨_, resized.trans (if_neg (Nat.not_le.mpr short))⟩

theorem truncate_returns (fs : State) (path : Path) (short : len < 2 ^ 63) :
    ∃ r, fs.truncate path len = some r := by
  unfold State.truncate
  split
  · exact ⟨_, rfl⟩
  · exact resizePath_returns fs _ short

theorem ftruncate_returns (fs : State) (fd : Int) (short : len < 2 ^ 63) :
    ∃ r, fs.ftruncate fd len = some r := by
  unfold State.ftruncate
  split
  · exact ⟨_, rfl⟩
  split
  · exact ⟨_, rfl⟩
  · exact resizePath_returns fs _ short

theorem call_returns (fs : State) (short : c.Short) : ∃ r, fs.call c = some r := by
  cases c with
  | truncate path =>
    obtain ⟨r, returned⟩ := truncate_returns fs path short
    exact ⟨_, Option.map_eq_some_iff.mpr ⟨r, returned, rfl⟩⟩
  | ftruncate fd =>
    obtain ⟨r, returned⟩ := ftruncate_returns fs fd short
    exact ⟨_, Option.map_eq_some_iff.mpr ⟨r, returned, rfl⟩⟩
  | _ => exact ⟨_, rfl⟩

/-- In every reachable state the total is the sum of the lengths of all files and at most the
    cap, and a directory has no data. No subtraction of a call goes below zero there, and every
    call with lengths below 2^63 returns. -/
theorem tmpfs_bytes_accounted (past : List (State × Call)) (s : State)
    (run : Run step initial past s) :
    s.total = s.fileBytes ∧ s.total ≤ cap ∧
      (∀ path node, s.nodes.lookup path = some node → node.isDir = true → node.data = []) ∧
      (∀ c, ∀ d ∈ s.subtractions c, d.2 ≤ d.1) ∧ ∀ c : Call, c.Short → ∃ r, s.call c = some r := by
  have sound := run_sound run
  exact ⟨sound.total, sound.capped, sound.dirs, subtractions_exact sound,
    fun _ short => call_returns s short⟩

def fourBytes : List Call :=
  [.open_ (text "/tmp/a") (oCreat ||| oRdwr) 0, .write 4000 [1, 2], .pwrite 4000 [3] 4,
    .truncate (text "/tmp/a") 4]

theorem four_bytes_accounted : ∃ past s, Run step initial past s ∧ s.total = 4 ∧
    s.fileBytes = 4 := by
  obtain ⟨past, s, run, _, total⟩ := run_of_exec (fun _ _ => true) step initial fourBytes
    (fun s => decide (s.total = 4)) (by decide)
  have count : s.total = 4 := of_decide_eq_true total
  obtain ⟨same, _⟩ := tmpfs_bytes_accounted past s run
  exact ⟨past, s, run, count, same.symm.trans count⟩

/-- The call has made the file as long as it was told, with the old bytes first and zeros behind
    them, and the account is right; or it has failed and changed nothing. -/
def Resized (fs : State) (target : Option Path) (len : Nat)
    (result : Option (State × Reply)) : Prop :=
  ∃ fs' r, result = some (fs', r) ∧
    ((r.code = 0 ∧ ∃ path node data, target = some path ∧ fs.nodes.lookup path = some node ∧
      node.isDir = false ∧ data = node.data.take len ++ List.replicate (len - node.data.length) 0 ∧
      data.length = len ∧ fs'.nodes = fs.nodes.insert path { node with data := data } ∧
      fs'.total = fs'.fileBytes ∧ fs'.total ≤ cap ∧ fs'.opens = fs.opens) ∨
    (r.code < 0 ∧ fs' = fs))

/-- The length and the bytes of all other files together are 2^64 or more. -/
def Wraps (fs : State) (path : Path) (len : Nat) : Prop :=
  ∃ node, fs.nodes.lookup path = some node ∧ node.isDir = false ∧
    2 ^ 64 ≤ fs.total - node.data.length + len

def sysTruncate (fs : State) (path : Path) (len : UInt64) : Option (State × Reply) :=
  if ownsPath path then fs.call (.truncate path len) else some (fs, .of (-13))

section Resize
variable {fs : State}

theorem resized_refused (fs : State) (target : Option Path) (len : Nat) (error : code < 0) :
    Resized fs target len (some (fs, .of code)) :=
  ⟨fs, .of code, rfl, .inr ⟨error, rfl⟩⟩

theorem wraps_stops (sound : Sound fs) (word : len < 2 ^ 64) (wraps : Wraps fs path len) :
    fs.resizePath path len = none := by
  obtain ⟨node, present, file, much⟩ := wraps
  have capped := sound.capped
  unfold cap at capped
  have grows : node.data.length < len := by omega
  have passes : ¬ cap < (fs.total + (len - node.data.length)) % 2 ^ 64 := by
    unfold cap
    omega
  have long : 2 ^ 63 ≤ len := by omega
  simp only [State.resizePath, present, file, Bool.false_eq_true, if_false, if_pos grows,
    if_neg passes, if_pos long]

theorem resizePath_resized (sound : Sound fs) (writes : c.writes = true) (word : len < 2 ^ 64)
    (exact_ : ¬ Wraps fs path len) :
    Resized fs (some path) len ((fs.resizePath path len).map fun r => (r.1, .of r.2)) := by
  rcases resizePath_cases fs path len with
    ⟨_, code, refused, error⟩ | ⟨node, total, present, file, fits, resized⟩
  · rw [refused]
    exact resized_refused fs _ _ error
  have inside := length_le_total sound present
  have capped := sound.capped
  have possible : ¬ 2 ^ 63 ≤ len := by
    intro long
    refine exact_ ⟨node, present, file, ?_⟩
    unfold cap at *
    split at fits <;> omega
  rw [if_neg possible] at resized
  have sound' := effect_sound sound ((resizePath_outcome writes word resized).effect sound)
  rw [resized]
  exact ⟨_, _, rfl, .inl ⟨rfl, path, node, _, rfl, present, file, rfl, resized_length _ _, rfl,
    sound'.total, sound'.capped, rfl⟩⟩

theorem truncate_resized_iff (sound : Sound fs) (path : Path) (len : UInt64) :
    Resized fs (some (norm path)) len.toNat (sysTruncate fs path len) ↔
      ¬ (ownsPath path = true ∧ Wraps fs (norm path) len.toNat) := by
  unfold sysTruncate
  split
  · rename_i owned
    simp only [State.call, State.truncate]
    split
    · rename_i absent
      refine iff_of_true (resized_refused fs _ _ (by decide : enoent < 0)) ?_
      rintro ⟨_, node, present, _⟩
      rw [present] at absent
      cases absent
    · constructor
      · rintro ⟨fs', r, returned, _⟩ ⟨_, wraps⟩
        rw [wraps_stops sound len.toNat_lt wraps] at returned
        cases returned
      · intro fine
        exact resizePath_resized (c := .truncate path len) sound rfl len.toNat_lt
          fun wraps => fine ⟨owned, wraps⟩
  · rename_i foreign
    exact iff_of_true (resized_refused fs _ _ (by decide)) fun wrong => foreign wrong.1

theorem ftruncate_resized_iff (sound : Sound fs) (fd : Int) (len : UInt64) :
    Resized fs ((fs.descriptor fd).map OpenFd.path) len.toNat (fs.call (.ftruncate fd len)) ↔
      ¬ ∃ o, fs.descriptor fd = some o ∧ o.isDir = false ∧ Wraps fs o.path len.toNat := by
  simp only [State.call, State.ftruncate]
  split
  · rename_i unknown
    refine iff_of_true (resized_refused fs _ _ (by decide : ebadf < 0)) ?_
    rintro ⟨o, found, _⟩
    rw [unknown] at found
    cases found
  rename_i o found
  rw [found]
  split
  · rename_i dir
    refine iff_of_true (resized_refused fs _ _ (by decide : eisdir < 0)) ?_
    rintro ⟨o', same, file, _⟩
    cases same
    rw [dir] at file
    cases file
  · rename_i file
    constructor
    · rintro ⟨fs', r, returned, _⟩ ⟨o', same, _, wraps⟩
      cases same
      rw [wraps_stops sound len.toNat_lt wraps] at returned
      cases returned
    · intro fine
      exact resizePath_resized (c := .ftruncate fd len) sound rfl len.toNat_lt
        fun wraps => fine ⟨o, rfl, Bool.eq_false_iff.mpr file, wraps⟩

end Resize

/-- In every reachable state a resize by path or by descriptor, to any length of 64 bits, does
    what it is told or fails without an effect, if and only if the new length and the bytes of
    the other files together stay below 2^64. -/
theorem resize_respects_cap (past : List (State × Call)) (s : State)
    (run : Run step initial past s) (len : UInt64) :
    (∀ path, Resized s (some (norm path)) len.toNat (sysTruncate s path len) ↔
      ¬ (ownsPath path = true ∧ Wraps s (norm path) len.toNat)) ∧
    ∀ fd, Resized s ((s.descriptor fd).map OpenFd.path) len.toNat (s.call (.ftruncate fd len)) ↔
      ¬ ∃ o, s.descriptor fd = some o ∧ o.isDir = false ∧ Wraps s o.path len.toNat := by
  have sound := run_sound run
  exact ⟨fun path => truncate_resized_iff sound path len,
    fun fd => ftruncate_resized_iff sound fd len⟩

def oneByte : List Call :=
  [.open_ (text "/tmp/a") (oCreat ||| oRdwr) 0, .write 4000 [1],
    .open_ (text "/tmp/b") (oCreat ||| oRdwr) 0]

theorem resize_beside_one_byte : ∃ past s, Run step initial past s ∧ s.total = 1 ∧
    Resized s (some (norm (text "/tmp/b"))) 8 (sysTruncate s (text "/tmp/b") 8) := by
  obtain ⟨past, s, run, _, total⟩ := run_of_exec (fun _ _ => true) step initial oneByte
    (fun s => decide (s.total = 1)) (by decide)
  have count : s.total = 1 := of_decide_eq_true total
  refine ⟨past, s, run, count, ((resize_respects_cap past s run 8).1 (text "/tmp/b")).mpr ?_⟩
  rintro ⟨_, node, _, _, much⟩
  have small : (8 : UInt64).toNat = 8 := rfl
  omega

/-- The empty file is resized to minus one: the sum for the cap wraps to zero, and the kernel
    stops in the vector. -/
theorem resize_to_minus_one_stops : ∃ past s, Run step initial past s ∧ s.total = 1 ∧
    ownsPath (text "/tmp/b") = true ∧ sysTruncate s (text "/tmp/b") (-1) = none ∧
    s.call (.ftruncate 4001 (-1)) = none := by
  obtain ⟨past, s, run, _, holds⟩ := run_of_exec (fun _ _ => true) step initial oneByte
    (fun s => decide (s.total = 1) && (ownsPath (text "/tmp/b") &&
      ((sysTruncate s (text "/tmp/b") (-1)).isNone && (s.call (.ftruncate 4001 (-1))).isNone)))
    (by decide)
  simp only [Bool.and_eq_true, decide_eq_true_eq, Option.isNone_iff_eq_none] at holds
  exact ⟨past, s, run, holds⟩

end TynKernel.Tmpfs
