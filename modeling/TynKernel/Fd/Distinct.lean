import TynKernel.Fd.Syscalls
import TynKernel.Lib.Runs

/-!
All live descriptors as one table. While every counter stays inside the band of numbers that
it shares with no other, the numbers of all live descriptors differ and none is reserved.
-/
namespace TynKernel.Fd
open Bytes Numbers Option Runs

inductive Object where
  | tmpfs (path : List UInt8)
  | file (place : Nat × Nat)
  | dir (stem : List UInt8)
  | pipeEnd (e : Pipes.End)
  | socket
  deriving DecidableEq, Repr

/-- The write end of a pipe is the one kind of descriptor that close leaves alone. -/
def Object.closable : Object → Bool
  | .pipeEnd e => !e.writes
  | _ => true

def Object.readTarget (fd : Int) : Object → Target
  | .tmpfs path => .tmpfs path
  | .file place => .file place
  | .dir _ => .nothing 0
  | .pipeEnd e => if e.writes then .nothing (-9) else .pipe e.slot
  | .socket => .socket fd

def Object.writeTarget (fd : Int) : Object → Target
  | .tmpfs path => .tmpfs path
  | .file _ => .nothing (-9)
  | .dir _ => .nothing (-9)
  | .pipeEnd e => if e.writes then .pipe e.slot else .nothing (-9)
  | .socket => .socket fd

def tag {O : Type} (f : O → Object) (t : List (Int × O)) : List (Int × Object) :=
  t.map fun e => (e.1, f e.2)

def live (t : Tables) : List (Int × Object) :=
  tag .pipeEnd t.pipes.ends ++ (tag (fun _ => .socket) t.sockets.descriptors ++
    (tag .dir t.vfs.dirs ++ (tag .file t.vfs.files ++ tag .tmpfs t.tmpfs.descriptors)))

def InBand (t : Tables) : Call → Prop
  | .open_ path _ _ =>
    if Tmpfs.ownsPath (copyPath path) then t.tmpfs.nextFd < 2 ^ 31 - 1 else t.vfs.nextVfsFd < 4000
  | .stat _ | .dup _ => t.vfs.nextVfsFd < 4000
  | .pipe _ => t.pipes.nextPipeFd + 1 < 500
  | .socket _ _ | .accept _ _ _ => t.sockets.recycledFds = [] → t.sockets.nextSockFd < 900
  | .listen _ _ | .close _ => True

instance (t : Tables) (call : Call) : Decidable (InBand t call) :=
  match call with
  | .open_ path _ _ => inferInstanceAs (Decidable
      (if Tmpfs.ownsPath (copyPath path) then t.tmpfs.nextFd < 2 ^ 31 - 1
        else t.vfs.nextVfsFd < 4000))
  | .stat _ | .dup _ => inferInstanceAs (Decidable (_ < _))
  | .pipe _ => inferInstanceAs (Decidable (_ < _))
  | .socket _ _ | .accept _ _ _ => inferInstanceAs (Decidable (_ → _))
  | .listen _ _ | .close _ => inferInstanceAs (Decidable True)

def Hands (call : Call) (reply : Reply) (fd : Int) : Prop :=
  match call with
  | .open_ _ _ _ | .dup _ | .socket _ _ | .accept _ _ _ => reply.code = fd
  | .pipe _ => ∃ pair, reply.pair = some pair ∧ (pair.1 = fd ∨ pair.2 = fd)
  | .stat _ | .listen _ _ | .close _ => False

def Opens (fd : Int) (o : Object) (t : Tables) (call : Call) : Prop :=
  ∃ t' reply, dispatch t call = some (t', reply) ∧ Hands call reply fd ∧ (fd, o) ∉ live t ∧
    (fd, o) ∈ live t'

def Closes (fd : Int) (o : Object) (_ : Tables) (call : Call) : Prop :=
  call = .close fd ∧ o.closable = true

variable {fd code : Int} {o : Object} {t t' : Tables} {given : Int → Prop} {path : List UInt8}
  {call : Call}

theorem keys_tag (f : O → Object) (t : List (Int × O)) : keys (tag f t) = keys t := by
  simp [keys, tag]

theorem mem_tag {O : Type} {f : O → Object} {t : List (Int × O)} :
    (fd, o) ∈ tag f t ↔ ∃ x, (fd, x) ∈ t ∧ f x = o := by
  simp only [tag, List.mem_map, Prod.exists, Prod.mk.injEq]
  constructor
  · rintro ⟨k, x, member, rfl, same⟩
    exact ⟨x, member, same⟩
  · rintro ⟨x, member, same⟩
    exact ⟨fd, x, member, rfl, same⟩

theorem mem_live :
    (fd, o) ∈ live t ↔ (∃ e, (fd, e) ∈ t.pipes.ends ∧ .pipeEnd e = o) ∨
      (∃ u, (fd, u) ∈ t.sockets.descriptors ∧ .socket = o) ∨
      (∃ stem, (fd, stem) ∈ t.vfs.dirs ∧ .dir stem = o) ∨
      (∃ place, (fd, place) ∈ t.vfs.files ∧ .file place = o) ∨
      (∃ path, (fd, path) ∈ t.tmpfs.descriptors ∧ .tmpfs path = o) := by
  simp [live, List.mem_append, mem_tag]

structure Banded (t : Tables) : Prop where
  pipes : Pipes.Numbered t.pipes
  pipesEnd : t.pipes.nextPipeFd ≤ 500
  sockets : Sockets.Numbered t.sockets
  socketsEnd : t.sockets.nextSockFd ≤ 900
  vfs : Vfs.Numbered t.vfs
  filesEnd : t.vfs.nextVfsFd ≤ 4000
  tmpfs : Tmpfs.Numbered t.tmpfs
  tmpfsEnd : t.tmpfs.nextFd < 2 ^ 31

theorem banded_boot (archive resolvConf : List UInt8) (network : Bool) :
    Banded (boot archive resolvConf network) where
  pipes := Pipes.numbered_initial
  pipesEnd := by simp [boot, Pipes.initial]
  sockets := Sockets.numbered_initial network
  socketsEnd := by simp [boot, Sockets.initial, Sockets.Table.empty, Sockets.sockFdBase]
  vfs := Vfs.numbered_initial archive
  filesEnd := by simp [boot, Vfs.initial]
  tmpfs := Tmpfs.numbered_initial
  tmpfsEnd := by simp [boot, Tmpfs.initial, Tmpfs.tmpfsFdBase]

theorem live_boot (archive resolvConf : List UInt8) (network : Bool) :
    live (boot archive resolvConf network) = [] := by
  have files := Vfs.files_initial archive
  have dirs := Vfs.dirs_initial archive
  simp only [live, boot, files, dirs, Pipes.ends_initial]
  rfl

section
variable (banded : Banded t)
include banded

theorem pipes_band : Issued 200 500 (keys t.pipes.ends) := by
  have last := banded.pipesEnd
  exact issued_mono banded.pipes.issued (by omega)

theorem sockets_band :
    Issued 500 900 (keys t.sockets.descriptors) :=
  issued_mono (Sockets.descriptors_issued banded.sockets) banded.socketsEnd

theorem files_band : Issued 1000 4000 (keys t.vfs.files) := by
  have last := banded.filesEnd
  exact issued_mono banded.vfs.files (by omega)

theorem tmpfs_band :
    Issued 4000 (2 ^ 31) (keys t.tmpfs.descriptors) :=
  issued_mono banded.tmpfs.issued (Int.le_of_lt banded.tmpfsEnd)

theorem live_issued : Issued 200 (2 ^ 31) (keys (live t)) := by
  have dirs := Vfs.dirs_issued banded.vfs
  simp only [live, keys_append, keys_tag]
  have fromFiles := issued_append (files_band banded) (tmpfs_band banded) (by decide) (by decide)
    (by decide)
  have fromDirs := issued_append dirs fromFiles (by decide) (by decide) (by decide)
  have fromSockets := issued_append (sockets_band banded) fromDirs (by decide) (by decide) (by decide)
  exact issued_append (pipes_band banded) fromSockets (by decide) (by decide) (by decide)

theorem live_not_reserved (member : fd ∈ keys (live t)) :
    fd ∉ reserved := by
  have low := (live_issued banded).low fd member
  intro special
  simp only [reserved, fdEpoll, fdTimer, fdDevnull, fdSynthZero, fdSynthDir, fdDevRandom,
    fdResolvConf, List.mem_cons, List.not_mem_nil, or_false] at special
  omega

end

theorem close_banded (banded : Banded t) (fd : Int) : Banded (sysClose t fd) := by
  obtain ⟨sockets, socketsNext⟩ := Sockets.close_numbered banded.sockets fd
  have files := Vfs.close_rest t.vfs fd
  have dirs := Vfs.closeDir_rest (t.vfs.close fd) fd
  refine ⟨Pipes.close_numbered banded.pipes fd, banded.pipesEnd, sockets, ?_,
    Vfs.closeDir_numbered (Vfs.close_numbered banded.vfs fd) fd, ?_,
    Tmpfs.close_numbered banded.tmpfs fd, ?_⟩
  · show (t.sockets.close fd).nextSockFd ≤ 900
    rw [socketsNext]
    exact banded.socketsEnd
  · show ((t.vfs.close fd).closeDir fd).nextVfsFd ≤ 4000
    rw [dirs.2.2, files.2.2]
    exact banded.filesEnd
  have next : (t.tmpfs.close fd).nextFd = t.tmpfs.nextFd := by
    unfold Tmpfs.State.close
    split <;> rfl
  show (t.tmpfs.close fd).nextFd < 2 ^ 31
  rw [next]
  exact banded.tmpfsEnd

theorem mem_live_close (banded : Banded t) :
    (k, o) ∈ live (sysClose t fd) ↔ (k, o) ∈ live t ∧ ¬ (k = fd ∧ o.closable = true) := by
  have filesKept := (Vfs.closeDir_rest (t.vfs.close fd) fd).2.1
  have dirsKept := (Vfs.close_rest t.vfs fd).2.1
  have pipes : ∀ e, (k, e) ∈ (sysClose t fd).pipes.ends ↔
      (k, e) ∈ t.pipes.ends ∧ ¬ (k = fd ∧ e.writes = false) := by
    intro e
    show (k, e) ∈ (t.pipes.close fd).ends ↔ _
    rw [Pipes.close_ends, List.mem_filter]
    by_cases same : k = fd <;> simp [same]
  have sockets : ∀ u, (k, u) ∈ (sysClose t fd).sockets.descriptors ↔
      (k, u) ∈ t.sockets.descriptors ∧ k ≠ fd := fun u =>
    taken_mem (Sockets.descriptors_issued banded.sockets).distinct (Sockets.close_taken ..) (k, u)
  have dirs : ∀ stem, (k, stem) ∈ (sysClose t fd).vfs.dirs ↔ (k, stem) ∈ t.vfs.dirs ∧ k ≠ fd := by
    intro stem
    have same : (t.vfs.close fd).dirs = t.vfs.dirs := by rw [Vfs.State.dirs, dirsKept]; rfl
    have taken := Vfs.closeDir_taken (t.vfs.close fd) fd
    rw [same] at taken
    exact taken_mem (Vfs.dirs_issued banded.vfs).distinct taken (k, stem)
  have files : ∀ place, (k, place) ∈ (sysClose t fd).vfs.files ↔
      (k, place) ∈ t.vfs.files ∧ k ≠ fd := by
    intro place
    have same : ((t.vfs.close fd).closeDir fd).files = (t.vfs.close fd).files := by
      rw [Vfs.State.files, filesKept]
      rfl
    show (k, place) ∈ ((t.vfs.close fd).closeDir fd).files ↔ _
    rw [same]
    exact taken_mem banded.vfs.files.distinct (Vfs.close_taken ..) (k, place)
  have tmpfs : ∀ path, (k, path) ∈ (sysClose t fd).tmpfs.descriptors ↔
      (k, path) ∈ t.tmpfs.descriptors ∧ k ≠ fd := fun path =>
    taken_mem banded.tmpfs.issued.distinct (Tmpfs.close_taken banded.tmpfs fd) (k, path)
  simp only [mem_live, pipes, sockets, dirs, files, tmpfs]
  cases o <;> simp [Object.closable]

theorem close_takes (banded : Banded t) (member : (fd, o) ∈ live t) (closable : o.closable = true) :
    (live t).Perm ((fd, o) :: live (sysClose t fd)) := by
  have before := (live_issued banded).distinct
  have after := (live_issued (close_banded banded fd)).distinct
  have gone : (fd, o) ∉ live (sysClose t fd) := by
    rw [mem_live_close banded]
    exact fun still => still.2 ⟨rfl, closable⟩
  refine (List.perm_ext_iff_of_nodup before.of_map
    (List.nodup_cons.mpr ⟨gone, after.of_map⟩)).mpr ?_
  rintro ⟨k, x⟩
  rw [List.mem_cons, mem_live_close banded]
  constructor
  · intro isLive
    by_cases same : k = fd
    · subst same
      exact .inl (by rw [entry_unique before isLive member])
    · exact .inr ⟨isLive, fun closed => same closed.1⟩
  · rintro (same | kept)
    · rw [same]
      exact member
    · exact kept.1

theorem close_ignores (banded : Banded t) (member : (fd, o) ∈ live t) (kept : o.closable = false) :
    (live (sysClose t fd)).Perm (live t) := by
  have before := (live_issued banded).distinct
  have after := (live_issued (close_banded banded fd)).distinct
  refine (List.perm_ext_iff_of_nodup after.of_map before.of_map).mpr ?_
  rintro ⟨k, x⟩
  rw [mem_live_close banded]
  refine and_iff_left_of_imp fun isLive closed => ?_
  obtain ⟨rfl, closable⟩ := closed
  rw [entry_unique before isLive member, kept] at closable
  cases closable

inductive Kind where
  | tmpfs | file | dir | pipe | socket
  deriving DecidableEq

def Object.kind : Object → Kind
  | .tmpfs _ => .tmpfs
  | .file _ => .file
  | .dir _ => .dir
  | .pipeEnd _ => .pipe
  | .socket => .socket

theorem known_iff (banded : Banded t) (member : (fd, o) ∈ live t) {O : Type}
    {table : List (Int × O)} {f : O → Object} {k : Kind} (kind : ∀ x, (f x).kind = k)
    (inside : ∀ x, (fd, x) ∈ table → (fd, f x) ∈ live t) (own : o.kind = k → fd ∈ keys table) :
    fd ∈ keys table ↔ o.kind = k := by
  refine ⟨fun known => ?_, own⟩
  obtain ⟨x, entry⟩ := mem_keys.mp known
  rw [entry_unique (live_issued banded).distinct member (inside x entry)]
  exact kind x

theorem live_known (banded : Banded t) (member : (fd, o) ∈ live t) :
    t.tmpfs.isTmpfsFd fd = decide (o.kind = .tmpfs) ∧ t.vfs.isVfsFd fd = decide (o.kind = .file) ∧
      t.pipes.isPipeFd fd = decide (o.kind = .pipe) ∧
      t.sockets.isSocketFd fd = decide (o.kind = .socket) := by
  have above := (live_issued banded).low fd (mem_keys.mpr ⟨o, member⟩)
  have own := mem_live.mp member
  refine ⟨?_, ?_, ?_, ?_⟩
  · rw [Bool.eq_iff_iff, decide_eq_true_eq, Tmpfs.isTmpfsFd_iff banded.tmpfs]
    refine known_iff (f := .tmpfs) banded member (fun _ => rfl) (fun path entry => ?_) ?_
    · exact mem_live.mpr (.inr (.inr (.inr (.inr ⟨path, entry, rfl⟩))))
    · intro kind
      cases o with
      | tmpfs path => exact mem_keys.mpr ⟨path, by simpa using own⟩
      | _ => cases kind
  · rw [Bool.eq_iff_iff, decide_eq_true_eq, Vfs.isVfsFd_iff]
    refine known_iff (f := .file) banded member (fun _ => rfl) (fun place entry => ?_) ?_
    · exact mem_live.mpr (.inr (.inr (.inr (.inl ⟨place, entry, rfl⟩))))
    · intro kind
      cases o with
      | file place => exact mem_keys.mpr ⟨place, by simpa using own⟩
      | _ => cases kind
  · rw [Bool.eq_iff_iff, decide_eq_true_eq, Pipes.isPipeFd_iff (by omega)]
    refine known_iff (f := .pipeEnd) banded member (fun _ => rfl) (fun e entry => ?_) ?_
    · exact mem_live.mpr (.inl ⟨e, entry, rfl⟩)
    · intro kind
      cases o with
      | pipeEnd e => exact mem_keys.mpr ⟨e, by simpa using own⟩
      | _ => cases kind
  · rw [Bool.eq_iff_iff, decide_eq_true_eq, Sockets.isSocketFd_iff]
    refine known_iff (f := fun _ => .socket) banded member (fun _ => rfl) (fun u entry => ?_) ?_
    · exact mem_live.mpr (.inr (.inl ⟨u, entry, rfl⟩))
    · intro kind
      cases o with
      | socket => exact mem_keys.mpr (by simpa using own)
      | _ => cases kind

theorem not_special (above : 200 ≤ fd) :
    fd ≠ 0 ∧ ¬ (fd = 1 ∨ fd = 2) ∧ fd ≠ fdDevnull ∧ fd ≠ fdDevRandom ∧ fd ≠ fdResolvConf ∧
      fd ≠ fdSynthZero ∧ fd ≠ fdTimer := by
  simp only [fdDevnull, fdDevRandom, fdResolvConf, fdSynthZero, fdTimer]
  omega

theorem read_reaches (banded : Banded t) (member : (fd, o) ∈ live t) :
    readTarget t fd = o.readTarget fd := by
  obtain ⟨isTmpfs, isFile, isPipe, isSocket⟩ := live_known banded member
  have above := (live_issued banded).low fd (mem_keys.mpr ⟨o, member⟩)
  obtain ⟨notZero, _, _, notRandom, notResolv, notSynth, notTimer⟩ := not_special above
  unfold readTarget
  rw [if_neg notZero, isTmpfs, isFile, isPipe, isSocket]
  rcases mem_live.mp member with ⟨e, inside, rfl⟩ | ⟨u, inside, rfl⟩ | ⟨stem, inside, rfl⟩ |
    ⟨place, inside, rfl⟩ | ⟨path, inside, rfl⟩
  · rw [Pipes.readSlot_of_mem banded.pipes inside, Object.readTarget]
    cases e.writes <;> rfl
  · simp [Object.kind, notRandom, notResolv, notSynth, notTimer, Object.readTarget]
  · simp [Object.kind, notRandom, notResolv, notSynth, notTimer, Object.readTarget]
  · obtain ⟨f, found, rfl⟩ := Vfs.file_of_mem banded.vfs inside
    rw [found]
    rfl
  · obtain ⟨d, found, rfl⟩ := Tmpfs.descriptor_of_mem banded.tmpfs inside
    rw [found]
    rfl

theorem write_reaches (banded : Banded t) (member : (fd, o) ∈ live t) :
    writeTarget t fd = o.writeTarget fd := by
  obtain ⟨isTmpfs, _, isPipe, isSocket⟩ := live_known banded member
  have above := (live_issued banded).low fd (mem_keys.mpr ⟨o, member⟩)
  obtain ⟨_, notOutput, notNull, _⟩ := not_special above
  unfold writeTarget
  rw [isTmpfs, if_neg notOutput, if_neg notNull, isPipe, isSocket]
  rcases mem_live.mp member with ⟨e, inside, rfl⟩ | ⟨u, inside, rfl⟩ | ⟨stem, inside, rfl⟩ |
    ⟨place, inside, rfl⟩ | ⟨path, inside, rfl⟩
  · rw [Pipes.writeSlot_of_mem banded.pipes inside, Object.writeTarget]
    cases e.writes <;> rfl
  · rfl
  · rfl
  · rfl
  · obtain ⟨d, found, rfl⟩ := Tmpfs.descriptor_of_mem banded.tmpfs inside
    rw [found]
    rfl

def Arrives (t t' : Tables) (given : Int → Prop) : Prop :=
  ∀ fd o, (fd, o) ∈ live t' → (fd, o) ∈ live t ∨ given fd

theorem arrives_same (given : Int → Prop) (same : live t' = live t) :
    Arrives t t' given := gains_same given same

theorem gains_tag {t t' : List (Int × O)} (f : O → Object) (gains : Gains given t t') :
    Gains given (tag f t) (tag f t') := by
  intro fd o member
  rw [mem_tag] at member ⊢
  obtain ⟨x, inside, same⟩ := member
  rcases gains fd x inside with old | handed
  · exact .inl ⟨x, old, same⟩
  · exact .inr handed

theorem arrives_of (pipes : Gains given t.pipes.ends t'.pipes.ends)
    (sockets : Gains given t.sockets.descriptors t'.sockets.descriptors)
    (dirs : Gains given t.vfs.dirs t'.vfs.dirs) (files : Gains given t.vfs.files t'.vfs.files)
    (tmpfs : Gains given t.tmpfs.descriptors t'.tmpfs.descriptors) : Arrives t t' given :=
  gains_append (gains_tag _ pipes) (gains_append (gains_tag _ sockets) (gains_append
    (gains_tag _ dirs) (gains_append (gains_tag _ files) (gains_tag _ tmpfs))))

theorem arrives_pipes (new : Gains given t.pipes.ends pipes.ends) :
    Arrives t { t with pipes := pipes } given :=
  arrives_of new (gains_same _ rfl) (gains_same _ rfl) (gains_same _ rfl) (gains_same _ rfl)

theorem arrives_sockets (new : Gains given t.sockets.descriptors sockets.descriptors) :
    Arrives t { t with sockets := sockets } given :=
  arrives_of (gains_same _ rfl) new (gains_same _ rfl) (gains_same _ rfl) (gains_same _ rfl)

theorem arrives_vfs (dirs : Gains given t.vfs.dirs vfs.dirs)
    (files : Gains given t.vfs.files vfs.files) : Arrives t { t with vfs := vfs } given :=
  arrives_of (gains_same _ rfl) (gains_same _ rfl) dirs files (gains_same _ rfl)

theorem arrives_tmpfs (new : Gains given t.tmpfs.descriptors tmpfs.descriptors) :
    Arrives t { t with tmpfs := tmpfs } given :=
  arrives_of (gains_same _ rfl) (gains_same _ rfl) (gains_same _ rfl) (gains_same _ rfl) new

theorem banded_vfs (banded : Banded t) (numbered : Vfs.Numbered vfs) (last : vfs.nextVfsFd ≤ 4000) :
    Banded { t with vfs := vfs } :=
  ⟨banded.pipes, banded.pipesEnd, banded.sockets, banded.socketsEnd, numbered, last, banded.tmpfs,
    banded.tmpfsEnd⟩

theorem installed_arrives (banded : Banded t) (room : t.vfs.nextVfsFd < 4000)
    (installed : Vfs.Installed t.vfs place code vfs) :
    Banded { t with vfs := vfs } ∧ Arrives t { t with vfs := vfs } (code = ·) := by
  have next := installed.next
  refine ⟨banded_vfs banded (Vfs.installed_numbered banded.vfs installed) (by omega), ?_⟩
  refine arrives_vfs (gains_same _ ?_) (gains_added installed.added)
  rw [Vfs.State.dirs, installed.dirSlots]
  rfl

theorem vfsOpen_outcome (room : v.nextVfsFd < 4000) (done : v.open_ path = some (v', code)) :
    (v' = v ∧ code < 0) ∨ ∃ place, Vfs.Installed v place code v' := by
  obtain ⟨found, _, eq⟩ := map_eq_some_iff.mp done
  cases found with
  | none =>
    obtain ⟨rfl, rfl⟩ := Prod.mk.inj eq
    exact .inl ⟨rfl, by decide⟩
  | some place => exact .inr ⟨place, Vfs.install_outcome room eq⟩

theorem vfsOpen_failed (banded : Banded t) (room : t.vfs.nextVfsFd < 4000)
    (done : t.vfs.open_ path = some (vfs, code)) (error : ¬ 0 ≤ code) :
    Banded { t with vfs := vfs } ∧ vfs.files = t.vfs.files ∧ vfs.dirs = t.vfs.dirs := by
  rcases vfsOpen_outcome room done with ⟨rfl, _⟩ | ⟨place, installed⟩
  · exact ⟨banded, rfl, rfl⟩
  have dirs : vfs.dirs = t.vfs.dirs := by
    unfold Vfs.State.dirs
    rw [installed.dirSlots]
  cases installed.added with
  | put valid => exact absurd valid error
  | refused _ same => exact ⟨(installed_arrives banded room installed).1, same, dirs⟩

theorem openDir_arrives (banded : Banded { t with vfs := vfs }) (files : vfs.files = t.vfs.files)
    (dirs : vfs.dirs = t.vfs.dirs) (done : vfs.openDir path = (vfs', code)) :
    Banded { t with vfs := vfs' } ∧ Arrives t { t with vfs := vfs' } (code = ·) := by
  obtain ⟨_, openFiles, next, stem, added⟩ := Vfs.openDir_outcome done
  have last : vfs'.nextVfsFd ≤ 4000 := by
    rw [next]
    exact banded.filesEnd
  refine ⟨banded_vfs (t := { t with vfs := vfs }) banded (Vfs.openDir_numbered banded.vfs done)
    last, ?_⟩
  refine arrives_vfs ?_ (gains_same _ ?_)
  · rw [dirs] at added
    exact gains_added added
  · rw [Vfs.State.files, openFiles]
    exact files

section
variable (banded : Banded t)
include banded

theorem sysOpen_outcome (inBand : InBand t (.open_ path flags mode))
    (done : sysOpen t path flags mode = some (t', code)) : Banded t' ∧ Arrives t t' (code = ·) := by
  have unchanged : ∀ {number : Int}, some (t, number) = some (t', code) →
      Banded t' ∧ Arrives t t' (code = ·) := by
    intro number eq
    obtain ⟨rfl, _⟩ := Prod.mk.inj (Option.some.inj eq)
    exact ⟨banded, arrives_same _ rfl⟩
  unfold sysOpen at done
  simp only at done
  split at done
  · exact unchanged done
  split at done
  · exact unchanged done
  split at done
  · exact unchanged done
  split at done
  · exact unchanged done
  split at done
  · exact unchanged done
  split at done
  · rename_i owns
    rw [InBand, if_pos owns] at inBand
    obtain ⟨rfl, rfl⟩ := Prod.mk.inj (Option.some.inj done)
    have opened := Tmpfs.open_opened (copyPath path) flags mode banded.tmpfs inBand
    have last : (t.tmpfs.open_ (copyPath path) flags mode).1.nextFd < 2 ^ 31 := by
      by_cases valid : 0 ≤ (t.tmpfs.open_ (copyPath path) flags mode).2
      · have := (opened.number valid).2
        omega
      · have := opened.kept (by omega)
        omega
    exact ⟨⟨banded.pipes, banded.pipesEnd, banded.sockets, banded.socketsEnd, banded.vfs,
      banded.filesEnd, Tmpfs.opened_numbered banded.tmpfs opened, last⟩,
      arrives_tmpfs (gains_added opened.added)⟩
  · rename_i foreign
    rw [InBand, if_neg foreign] at inBand
    unfold openArchive at done
    split at done
    · cases done
    rename_i vfs fd opened
    split at done
    · -- the file is open
      obtain ⟨rfl, rfl⟩ := Prod.mk.inj (Option.some.inj done)
      rcases vfsOpen_outcome inBand opened with ⟨_, error⟩ | ⟨place, installed⟩
      · omega
      · exact installed_arrives banded inBand installed
    · rename_i error
      obtain ⟨spent, files, dirs⟩ := vfsOpen_failed banded inBand opened error
      split at done
      · cases done
      · -- the path is that of a directory
        obtain ⟨rfl, rfl⟩ := Prod.mk.inj (Option.some.inj done)
        exact openDir_arrives spent files dirs rfl
      · obtain ⟨rfl, rfl⟩ := Prod.mk.inj (Option.some.inj done)
        exact ⟨spent, arrives_vfs (gains_same _ dirs) (gains_same _ files)⟩

theorem sysStat_outcome (room : t.vfs.nextVfsFd < 4000)
    (done : sysStat t path = some (t', code, info)) : Banded t' ∧ Arrives t t' fun _ => False := by
  have unchanged : ∀ {number : Int} {found : Option Stat},
      some (t, number, found) = some (t', code, info) → Banded t' ∧ Arrives t t' fun _ => False := by
    intro number found eq
    obtain ⟨rfl, _⟩ := Prod.mk.inj (Option.some.inj eq)
    exact ⟨banded, arrives_same _ rfl⟩
  unfold sysStat at done
  simp only at done
  split at done
  · split at done
    · exact unchanged done
    · exact unchanged done
  split at done
  · exact unchanged done
  split at done
  · exact unchanged done
  unfold statArchive at done
  split at done
  · cases done
  rename_i vfs fd opened
  split at done
  · -- the file was opened for its size, and is closed again
    obtain ⟨rfl, _⟩ := Prod.mk.inj (Option.some.inj done)
    rcases vfsOpen_outcome room opened with ⟨_, error⟩ | ⟨place, installed⟩
    · omega
    have numbered := Vfs.installed_numbered banded.vfs installed
    obtain ⟨_, dirSlots, next⟩ := Vfs.close_rest vfs fd
    have last := installed.next
    refine ⟨banded_vfs banded (Vfs.close_numbered numbered fd) (by omega), ?_⟩
    refine arrives_vfs (gains_same _ ?_) (fun k place' member => .inl ?_)
    · rw [Vfs.State.dirs, dirSlots, installed.dirSlots]
      rfl
    obtain ⟨inside, other⟩ := (taken_mem numbered.files.distinct (Vfs.close_taken vfs fd)
      (k, place')).mp member
    rcases gains_added installed.added k place' inside with old | new
    · exact old
    · exact absurd new.symm other
  · rename_i error
    obtain ⟨spent, files, dirs⟩ := vfsOpen_failed banded room opened error
    have kept : Arrives t { t with vfs := vfs } fun _ => False :=
      arrives_vfs (gains_same _ dirs) (gains_same _ files)
    split at done
    · cases done
    split at done
    · obtain ⟨rfl, _⟩ := Prod.mk.inj (Option.some.inj done)
      exact ⟨spent, kept⟩
    · obtain ⟨rfl, _⟩ := Prod.mk.inj (Option.some.inj done)
      exact ⟨spent, kept⟩

theorem sysDup_outcome (room : t.vfs.nextVfsFd < 4000) :
    Banded (sysDup t fd).1 ∧ Arrives t (sysDup t fd).1 ((sysDup t fd).2 = ·) := by
  unfold sysDup
  split
  · simp only [Vfs.State.dup]
    split
    · exact installed_arrives banded room (Vfs.install_outcome room rfl)
    · exact ⟨banded, arrives_same _ rfl⟩
  · exact ⟨banded, arrives_same _ rfl⟩

theorem create_arrives (room : t.pipes.nextPipeFd + 1 < 500)
    (done : t.pipes.create = (pipes, (readFd, writeFd))) :
    Banded { t with pipes := pipes } ∧
      Arrives t { t with pipes := pipes } fun fd => readFd = fd ∨ writeFd = fd := by
  obtain ⟨_, _, next, change⟩ := Pipes.create_outcome room done
  have last : pipes.nextPipeFd ≤ 500 := by omega
  refine ⟨⟨Pipes.create_numbered banded.pipes room done, last, banded.sockets,
    banded.socketsEnd, banded.vfs, banded.filesEnd, banded.tmpfs, banded.tmpfsEnd⟩, ?_⟩
  refine arrives_pipes fun fd e member => ?_
  rcases change with ⟨i, lost, kept, _, before, after⟩ | same
  · rcases List.mem_cons.mp (after.mem_iff.mp member) with read | more
    · exact .inr (.inl (Prod.mk.inj read).1.symm)
    · rcases List.mem_cons.mp more with write | old
      · exact .inr (.inr (Prod.mk.inj write).1.symm)
      · exact .inl (before.mem_iff.mpr (List.mem_append_right _ old))
  · exact .inl (same ▸ member)

theorem sysPipe_outcome (room : t.pipes.nextPipeFd + 1 < 500)
    (done : sysPipe t null = (t', code, pair)) :
    Banded t' ∧ Arrives t t' fun fd => ∃ numbers, pair = some numbers ∧
      (numbers.1 = fd ∨ numbers.2 = fd) := by
  unfold sysPipe at done
  split at done
  · obtain ⟨rfl, _⟩ := Prod.mk.inj done
    exact ⟨banded, arrives_same _ rfl⟩
  obtain ⟨rfl, rest⟩ := Prod.mk.inj done
  obtain ⟨_, rfl⟩ := Prod.mk.inj rest
  obtain ⟨banded', arrives⟩ := create_arrives banded room rfl
  refine ⟨banded', fun fd o member => ?_⟩
  exact (arrives fd o member).imp_right fun handed => ⟨_, rfl, handed⟩

theorem sockets_outcome (opened : Sockets.Opened t.sockets result) :
    Banded { t with sockets := result.1 } ∧
      Arrives t { t with sockets := result.1 } (result.2 = ·) :=
  ⟨⟨banded.pipes, banded.pipesEnd, opened.numbered, opened.bound, banded.vfs, banded.filesEnd,
    banded.tmpfs, banded.tmpfsEnd⟩, arrives_sockets (gains_added opened.added)⟩

/-- A call keeps the counters in their bands, and what is live after it was live before and is
    not what the call closes, or has a number that the call returns. -/
theorem dispatch_outcome (inBand : InBand t call)
    (done : dispatch t call = some (t', reply)) :
    Banded t' ∧ ∀ fd o, (fd, o) ∈ live t' →
      ((fd, o) ∈ live t ∧ ¬ Closes fd o t call) ∨ Hands call reply fd := by
  have other : ∀ {given : Int → Prop}, (∀ fd, call ≠ .close fd) → Banded t' ∧ Arrives t t' given →
      (∀ fd, given fd → Hands call reply fd) → Banded t' ∧ ∀ fd o, (fd, o) ∈ live t' →
        ((fd, o) ∈ live t ∧ ¬ Closes fd o t call) ∨ Hands call reply fd := by
    intro given notClose outcome handed
    refine ⟨outcome.1, fun fd o member => ?_⟩
    rcases outcome.2 fd o member with old | new
    · exact .inl ⟨old, fun closes => notClose fd closes.1⟩
    · exact .inr (handed fd new)
  cases call with
  | open_ =>
    obtain ⟨⟨t₁, code⟩, opened, eq⟩ := map_eq_some_iff.mp done
    obtain ⟨rfl, rfl⟩ := Prod.mk.inj eq
    exact other (fun _ h => nomatch h) (sysOpen_outcome banded inBand opened) fun _ same => same
  | stat =>
    obtain ⟨⟨t₁, code, info⟩, opened, eq⟩ := map_eq_some_iff.mp done
    obtain ⟨rfl, rfl⟩ := Prod.mk.inj eq
    exact other (fun _ h => nomatch h) (sysStat_outcome banded inBand opened) fun _ no => no
  | dup =>
    obtain ⟨rfl, rfl⟩ := Prod.mk.inj (Option.some.inj done)
    exact other (fun _ h => nomatch h) (sysDup_outcome banded inBand) fun _ same => same
  | pipe =>
    obtain ⟨rfl, rfl⟩ := Prod.mk.inj (Option.some.inj done)
    exact other (fun _ h => nomatch h) (sysPipe_outcome banded inBand rfl) fun _ pair => pair
  | socket domain sockType =>
    obtain ⟨rfl, rfl⟩ := Prod.mk.inj (Option.some.inj done)
    have opened : Sockets.Opened t.sockets (t.sockets.sysSocket domain sockType) :=
      Sockets.sysSocket_opened banded.sockets banded.socketsEnd inBand
    exact other (fun _ h => nomatch h) (sockets_outcome banded opened) fun _ same => same
  | listen =>
    obtain ⟨⟨sockets, code⟩, listened, eq⟩ := map_eq_some_iff.mp done
    obtain ⟨rfl, rfl⟩ := Prod.mk.inj eq
    obtain ⟨descriptors, next, recycled, _⟩ := Sockets.sysListen_same listened
    have numbered : Sockets.Numbered sockets := by
      refine ⟨?_, ?_⟩
      · rw [descriptors, next, recycled]
        exact banded.sockets.issued
      · rw [next]
        exact banded.sockets.started
    have kept : Arrives t { t with sockets := sockets } fun _ => False :=
      arrives_sockets (gains_same _ descriptors)
    exact other (fun _ h => nomatch h) ⟨⟨banded.pipes, banded.pipesEnd, numbered,
      next ▸ banded.socketsEnd, banded.vfs, banded.filesEnd, banded.tmpfs, banded.tmpfsEnd⟩, kept⟩
      fun _ no => no.elim
  | accept =>
    obtain ⟨result, accepted, eq⟩ := map_eq_some_iff.mp done
    obtain ⟨rfl, rfl⟩ := Prod.mk.inj eq
    have opened := Sockets.sysAccept_opened banded.sockets banded.socketsEnd inBand accepted
    exact other (fun _ h => nomatch h) (sockets_outcome banded opened) fun _ same => same
  | close fd =>
    obtain ⟨rfl, rfl⟩ := Prod.mk.inj (Option.some.inj done)
    refine ⟨close_banded banded fd, fun k o member => .inl ?_⟩
    obtain ⟨isLive, notClosed⟩ := (mem_live_close banded).mp member
    refine ⟨isLive, fun closes => notClosed ?_⟩
    exact ⟨(Call.close.inj closes.1).symm, closes.2⟩

end

theorem step_banded (banded : Banded t) (inBand : InBand t call) (taken : step t call = some t') :
    Banded t' := by
  obtain ⟨⟨t₁, reply⟩, done, rfl⟩ := map_eq_some_iff.mp taken
  exact (dispatch_outcome banded inBand done).1

theorem step_opens (banded : Banded t) (inBand : InBand t call) (taken : step t call = some t')
    (member : (fd, o) ∈ live t') :
    Opens fd o t call ∨ ((fd, o) ∈ live t ∧ ¬ Closes fd o t call) := by
  obtain ⟨⟨t₁, reply⟩, done, rfl⟩ := map_eq_some_iff.mp taken
  have outcome := (dispatch_outcome banded inBand done).2 fd o member
  by_cases old : (fd, o) ∈ live t
  · refine .inr ⟨old, ?_⟩
    rintro ⟨rfl, closable⟩
    obtain ⟨rfl, _⟩ := Prod.mk.inj (Option.some.inj done)
    exact ((mem_live_close banded).mp member).2 ⟨rfl, closable⟩
  · rcases outcome with kept | handed
    · exact absurd kept.1 old
    · exact .inl ⟨t₁, reply, done, handed, old, member⟩

/-- In a run in which every counter stays inside its band, all live descriptors have different
    numbers and none is reserved. Closing a number takes out that descriptor and no other, except
    that closing the write end of a pipe does nothing. A read or a write goes to what the
    descriptor was opened on: by a call that returned the number, which has not been closed since. -/
theorem descriptors_stay_apart {archive resolvConf : List UInt8} {network : Bool}
    {past : List (Tables × Call)} {t : Tables}
    (run : Run step (boot archive resolvConf network) past t)
    (inBand : ∀ e ∈ past, InBand e.1 e.2) :
    (keys (live t)).Nodup ∧ (∀ fd ∈ keys (live t), fd ∉ reserved) ∧
      ∀ fd o, (fd, o) ∈ live t →
        (o.closable = true → (live t).Perm ((fd, o) :: live (sysClose t fd))) ∧
        (o.closable = false → (live (sysClose t fd)).Perm (live t)) ∧
        readTarget t fd = o.readTarget fd ∧ writeTarget t fd = o.writeTarget fd ∧
        Since (Opens fd o) (Closes fd o) past := by
  have start := banded_boot archive resolvConf network
  have banded := run_invariant_of InBand Banded start
    (fun _ _ _ banded inBand taken => step_banded banded inBand taken) run inBand
  refine ⟨(live_issued banded).distinct, fun fd member => live_not_reserved banded member, ?_⟩
  intro fd o member
  refine ⟨close_takes banded member, close_ignores banded member, read_reaches banded member,
    write_reaches banded member, ?_⟩
  have closed : (fd, o) ∉ live (boot archive resolvConf network) := by
    rw [live_boot]
    exact List.not_mem_nil
  exact run_since InBand Banded (fun t => (fd, o) ∈ live t) (Opens fd o) (Closes fd o) start closed
    (fun _ _ _ banded inBand taken => step_banded banded inBand taken)
    (fun _ _ _ banded inBand taken member => step_opens banded inBand taken member) run inBand member

def smallArchive : List UInt8 :=
  text "070701000000000000000000000000000000000000000000000000" ++ text "00000001" ++
    text "00000000000000000000000000000000" ++ text "00000002" ++ text "00000000" ++
    text "a" ++ [0, 120, 0, 0, 0]

def fourKinds : List Call :=
  [.open_ (text "/a") 0 0, .open_ (text "/tmp/x") Tmpfs.oCreat 0, .pipe false, .socket 2 1,
    .close 200]

theorem four_kinds_apart :
    ∃ past t, Run step (boot smallArchive [] true) past t ∧
      (∀ e ∈ past, InBand e.1 e.2) ∧ keys (live t) = [201, 500, 1000, 4000] ∧
      (live t).Perm ((500, .socket) :: live (sysClose t 500)) ∧
      readTarget t 1000 = .file (112, 1) ∧ writeTarget t 4000 = .tmpfs (text "/tmp/x") := by
  have done : (exec (fun t c => decide (InBand t c)) step (boot smallArchive [] true) fourKinds).any
      (fun t : Tables => decide (live t = [(201, .pipeEnd ⟨0, true⟩), (500, .socket),
        (1000, .file (112, 1)), (4000, .tmpfs (text "/tmp/x"))])) = true := by
    decide +kernel
  obtain ⟨past, t, run, tested, test⟩ := run_of_exec _ step _ fourKinds _ done
  have inBand : ∀ e ∈ past, InBand e.1 e.2 := fun e member => of_decide_eq_true (tested e member)
  have isLive := of_decide_eq_true test
  have each := (descriptors_stay_apart run inBand).2.2
  refine ⟨past, t, run, inBand, by rw [isLive]; rfl, ?_, ?_, ?_⟩
  · exact (each 500 .socket (by rw [isLive]; decide)).1 rfl
  · exact (each 1000 (.file (112, 1)) (by rw [isLive]; decide)).2.2.1
  · exact (each 4000 (.tmpfs (text "/tmp/x")) (by rw [isLive]; decide)).2.2.2.1

def manyPipes : List Call :=
  .socket 2 1 :: (List.range 150).flatMap (fun k => [.pipe false, .close (200 + 2 * k)]) ++
    [.pipe false]

/-- Closing the write end of a pipe leaves it live. And a socket and the read end of a pipe can
    have the same number: then reads of the socket go to the pipe, and closing the number closes
    both. -/
theorem write_end_stays_and_numbers_collide :
    (∃ past t, Run step (boot [] [] true) past t ∧ (201, .pipeEnd ⟨0, true⟩) ∈ live t ∧
      live (sysClose t 201) = live t) ∧
    ∃ past t, Run step (boot [] [] true) past t ∧ (500, .socket) ∈ live t ∧
      (500, .pipeEnd ⟨0, false⟩) ∈ live t ∧ readTarget t 500 = .pipe 0 ∧
      (live t).length = (live (sysClose t 500)).length + 2 := by
  constructor
  · have done : (exec (fun _ _ => true) step (boot [] [] true) [.pipe false]).any
        (fun t : Tables => decide ((201, .pipeEnd ⟨0, true⟩) ∈ live t ∧
          live (sysClose t 201) = live t)) = true := by
      decide +kernel
    obtain ⟨past, t, run, _, test⟩ := run_of_exec _ step _ _ _ done
    exact ⟨past, t, run, of_decide_eq_true test⟩
  · have done : (exec (fun _ _ => true) step (boot [] [] true) manyPipes).any
        (fun t : Tables => decide ((500, .socket) ∈ live t ∧ (500, .pipeEnd ⟨0, false⟩) ∈ live t ∧
          readTarget t 500 = .pipe 0 ∧
          (live t).length = (live (sysClose t 500)).length + 2)) = true := by
      decide +kernel
    obtain ⟨past, t, run, _, test⟩ := run_of_exec _ step _ manyPipes _ done
    exact ⟨past, t, run, of_decide_eq_true test⟩

end TynKernel.Fd
