import TynKernel.Fd.Syscalls
import TynKernel.Vfs.Descriptors

/-!
stat as a query. It finds the size of an archive file by opening it for a moment, so that what
it reports depends on the files that are open.
-/
namespace TynKernel.Fd
open Bytes Numbers Option Rows Runs Vfs

structure SameTrees (t u : Tables) : Prop where
  archive : t.vfs.archive = u.vfs.archive
  nodes : t.tmpfs.nodes = u.tmpfs.nodes
  resolvConf : t.resolvConf = u.resolvConf

structure SameDescriptors (t u : Tables) : Prop where
  openFiles : t.vfs.openFiles = u.vfs.openFiles
  dirSlots : t.vfs.dirSlots = u.vfs.dirSlots
  tmpfs : t.tmpfs = u.tmpfs
  pipes : t.pipes = u.pipes
  sockets : t.sockets = u.sockets

def statResult (t : Tables) (user : List UInt8) : Option (Int × Option Stat) :=
  (sysStat t user).map Prod.snd

def Untouched (t : Tables) (user : List UInt8) : Prop :=
  ∀ t' r, sysStat t user = some (t', r) → SameDescriptors t' t ∧ SameTrees t' t

def Query (t u : Tables) (user : List UInt8) : Prop :=
  statResult t user = statResult u user ∧ Untouched t user ∧ Untouched u user

def inArchive (path : List UInt8) : Prop :=
  ¬ Tmpfs.ownsPath path = true ∧
    ¬ (path = text "/dev/urandom" ∨ path = text "/dev/random" ∨ path = text "/dev/null") ∧
    ¬ path = text "/tyn/resolv.conf"

/-- There is a slot for one more file. Its number is not negative, and it is not that of a file
    before the slot. -/
def Spare (v : Vfs.State) : Prop :=
  ∃ i, v.openFiles.cells.findIdx? Option.isNone = some i ∧ 0 ≤ asI32 v.nextVfsFd ∧
    ∀ j f, j < i → v.openFiles.cells[j]? = some (some f) → f.fd ≠ asI32 v.nextVfsFd

def Calm (t : Tables) (user : List UInt8) : Prop :=
  inArchive (copyPath user) → ∀ place,
    cpioLookup t.vfs.archive (copyPath user) = some (some place) → Spare t.vfs

variable {user : List UInt8} {i k : Nat} {w : Vfs.State} {code : Int}

theorem sysStat_archive (inside : inArchive (copyPath user)) :
    sysStat t user = statArchive t (copyPath user) := by
  obtain ⟨notOwned, notDevice, notResolv⟩ := inside
  unfold sysStat
  rw [if_neg notOwned, if_neg notDevice, if_neg notResolv]

theorem sysOpen_archive
    (inside : inArchive (copyPath user)) (notFile : ¬ isSynthFile (copyPath user) = true)
    (notDir : ¬ isSynthDir (copyPath user) = true) :
    sysOpen t user flags mode = openArchive t (copyPath user) := by
  obtain ⟨notOwned, notDevice, notResolv⟩ := inside
  have notNull : ¬ copyPath user = text "/dev/null" := fun eq => notDevice (.inr (.inr eq))
  have notRandom : ¬ (copyPath user = text "/dev/urandom" ∨ copyPath user = text "/dev/random") := by
    rintro (eq | eq)
    · exact notDevice (.inl eq)
    · exact notDevice (.inr (.inl eq))
  unfold sysOpen
  rw [if_neg notNull, if_neg notRandom, if_neg notResolv, if_neg notFile, if_neg notDir,
    if_neg notOwned]

theorem same_self (t : Tables) : SameDescriptors t t ∧ SameTrees t t :=
  ⟨⟨rfl, rfl, rfl, rfl, rfl⟩, ⟨rfl, rfl, rfl⟩⟩

theorem sysStat_elsewhere (outside : ¬ inArchive (copyPath user)) :
    Untouched t user ∧ ∀ u, SameTrees t u → statResult t user = statResult u user := by
  unfold Untouched statResult sysStat
  by_cases owned : Tmpfs.ownsPath (copyPath user) = true
  · constructor
    · intro t' r done
      rw [if_pos owned] at done
      split at done <;> cases done <;> exact same_self t
    · intro u same
      rw [if_pos owned, if_pos owned, Tmpfs.State.stat, Tmpfs.State.stat, same.nodes]
      split <;> rfl
  · by_cases device : copyPath user = text "/dev/urandom" ∨ copyPath user = text "/dev/random" ∨
        copyPath user = text "/dev/null"
    · constructor
      · intro t' r done
        rw [if_neg owned, if_pos device] at done
        cases done
        exact same_self t
      · intro u _
        rw [if_neg owned, if_pos device, if_neg owned, if_pos device]
        rfl
    · by_cases resolv : copyPath user = text "/tyn/resolv.conf"
      · constructor
        · intro t' r done
          rw [if_neg owned, if_neg device, if_pos resolv] at done
          cases done
          exact same_self t
        · intro u same
          rw [if_neg owned, if_neg device, if_pos resolv, if_neg owned, if_neg device,
            if_pos resolv, same.resolvConf]
          rfl
      · exact absurd ⟨owned, device, resolv⟩ outside

section Opened
variable {v : Vfs.State} {place : Nat × Nat}

theorem install_at (found : v.openFiles.cells.findIdx? Option.isNone = some i) (place : Nat × Nat) :
    ∃ w f, v.install place.1 place.2 0 = (w, f.fd) ∧ f.fd = asI32 v.nextVfsFd ∧
      f.dataLen = place.2 ∧ w.openFiles = v.openFiles.set i (some f) ∧
      w.dirSlots = v.dirSlots ∧ w.archive = v.archive := by
  simp only [State.install, found]
  generalize asI32 v.nextVfsFd = n
  exact ⟨_, ⟨n, place.1, place.2, 0⟩, rfl, rfl, rfl, rfl, rfl, rfl⟩

theorem slot_new (found : v.openFiles.cells.findIdx? Option.isNone = some i)
    (files : w.openFiles = v.openFiles.set i (some f))
    (others : ∀ j g, j < i → v.openFiles.cells[j]? = some (some g) → g.fd ≠ f.fd) :
    w.slot f.fd = some i ∧ w.file f.fd = some f ∧ w.openFiles.set i none = v.openFiles := by
  obtain ⟨slot, get, free, earlier⟩ := findIdx_iff.mp found
  rw [isNone_iff_eq_none] at free
  subst free
  obtain ⟨bound, same⟩ := List.getElem?_eq_some_iff.mp get
  have own : w.slot f.fd = some i := by
    rw [State.slot, files]
    refine findIdx_write_here get (decide_eq_true rfl) ?_
    intro j b less here
    cases b with
    | none => exact absurd (earlier j none less here) (by decide)
    | some g => exact decide_eq_false (others j g less here)
  refine ⟨own, ?_, ?_⟩
  · obtain ⟨g, _, here, opened⟩ := slot_some own
    rw [files, Row.set, List.getElem?_set_self bound, Option.some.injEq, Option.some.injEq] at here
    rw [opened, here]
  · rw [files, Row.mk.injEq]
    exact (List.set_set ..).trans ((congrArg _ same.symm).trans (List.set_getElem_self bound))

theorem spare_restores (spare : Spare v) (place : Nat × Nat) :
    ∃ w n, v.install place.1 place.2 0 = (w, n) ∧ 0 ≤ n ∧ w.fstatSize n = some place.2 ∧
      (w.close n).openFiles = v.openFiles ∧ (w.close n).dirSlots = v.dirSlots ∧
      (w.close n).archive = v.archive := by
  obtain ⟨i, found, positive, others⟩ := spare
  obtain ⟨w, f, done, number, size, files, dirs, image⟩ := install_at found place
  rw [← number] at positive others
  obtain ⟨own, opened, restored⟩ := slot_new found files others
  have closed : w.close f.fd = { w with openFiles := w.openFiles.set i none } := by
    rw [State.slot] at own
    rw [State.close, own]
  refine ⟨w, f.fd, done, positive, ?_, ?_, ?_, ?_⟩
  · rw [State.fstatSize, opened, map_some, size]
  · rw [closed]
    exact restored
  · rw [closed]
    exact dirs
  · rw [closed]
    exact image

theorem spare_of_restored (done : v.install place.1 place.2 0 = (w, code)) (positive : 0 ≤ code)
    (restored : (w.close code).openFiles = v.openFiles) : Spare v := by
  cases found : v.openFiles.cells.findIdx? Option.isNone with
  | none =>
    simp only [State.install, found] at done
    have refused : -24 = code := (Prod.mk.inj done).2
    omega
  | some i =>
    obtain ⟨w₁, new, installed, number, _, files, _⟩ := install_at found place
    obtain ⟨same, given⟩ := Prod.mk.inj (installed.symm.trans done)
    rw [same] at files
    rw [Spare, ← number, given]
    refine ⟨i, found, positive, ?_⟩
    intro j f less here clash
    have kept : w.openFiles.cells[j]? = some (some f) := by
      rw [files]
      exact (List.getElem?_set_ne (Nat.ne_of_gt less)).trans here
    cases first : w.slot code with
    | none => exact absent_cell (slot_none.mp first) kept clash.symm
    | some k =>
      obtain ⟨g, _, there, _⟩ := slot_some first
      have before : k ≤ j := by
        obtain ⟨_, _, _, earlier⟩ := findIdx_iff.mp first
        apply Nat.le_of_not_lt
        intro less
        have fails := earlier j (some f) less kept
        rw [any_some, decide_eq_false_iff_not] at fails
        exact fails clash
      have apart : i ≠ k := by omega
      have old : v.openFiles.cells[k]? = some (some g) := by
        rw [files] at there
        exact (List.getElem?_set_ne apart).symm.trans there
      have closed : (w.close code).openFiles = w.openFiles.set k none := by
        rw [State.slot] at first
        rw [State.close, first]
      rw [closed] at restored
      rw [← restored, Row.set,
        List.getElem?_set_self (List.getElem?_eq_some_iff.mp there).1] at old
      cases old

end Opened

section Archive
variable {t : Tables} {path : List UInt8} {place : Nat × Nat}

theorem statArchive_missing (missing : ∀ place, cpioLookup t.vfs.archive path ≠ some (some place)) :
    (∀ t' r, statArchive t path = some (t', r) → t' = t) ∧
      ∀ u : Tables, t.vfs.archive = u.vfs.archive →
        (statArchive t path).map Prod.snd = (statArchive u path).map Prod.snd := by
  cases looked : cpioLookup t.vfs.archive path with
  | none =>
    have stopped : ∀ u : Tables, t.vfs.archive = u.vfs.archive → statArchive u path = none := by
      intro u same
      rw [statArchive, State.open_, ← same, looked]
      rfl
    constructor
    · intro t' r done
      rw [stopped t rfl] at done
      cases done
    · intro u same
      rw [stopped t rfl, stopped u same]
  | some result =>
    cases result with
    | some place => exact absurd looked (missing place)
    | none =>
      have answered : ∀ u : Tables, t.vfs.archive = u.vfs.archive → statArchive u path =
          (Vfs.isDirPrefix t.vfs.archive path).map fun known =>
            (u, if known || isSynthDir path then (0, some (0o40755, 0)) else (-2, none)) := by
        intro u same
        have opened : u.vfs.open_ path = some (u.vfs, -2) := by
          rw [State.open_, ← same, looked]
          rfl
        rw [statArchive, opened, same]
        simp only
        rw [if_neg (by decide)]
        cases Vfs.isDirPrefix u.vfs.archive path with
        | none => rfl
        | some =>
          simp only [map_some]
          split <;> rfl
      constructor
      · intro t' r done
        rw [answered t rfl, map_eq_some_iff] at done
        obtain ⟨_, _, same⟩ := done
        exact (Prod.mk.inj same).1.symm
      · intro u same
        rw [answered t rfl, answered u same, map_map, map_map]
        rfl

theorem statArchive_spare (found : cpioLookup t.vfs.archive path = some (some place))
    (spare : Spare t.vfs) :
    ∃ w, statArchive t path = some ({ t with vfs := w }, 0, some (0o100644, place.2)) ∧
      w.openFiles = t.vfs.openFiles ∧ w.dirSlots = t.vfs.dirSlots ∧
      w.archive = t.vfs.archive := by
  obtain ⟨w, n, done, positive, size, restored⟩ := spare_restores spare place
  refine ⟨w.close n, ?_, restored⟩
  rw [statArchive, (open_found found).1, done]
  simp only
  rw [if_pos positive, size]
  rfl

theorem spare_of_stat (found : cpioLookup t.vfs.archive path = some (some place))
    (result : (statArchive t path).map Prod.snd = some (0, some (0o100644, size)))
    (kept : ∀ t' r, statArchive t path = some (t', r) → t'.vfs.openFiles = t.vfs.openFiles) :
    Spare t.vfs := by
  rw [statArchive, (open_found found).1] at result kept
  cases done : t.vfs.install place.1 place.2 0 with
  | mk w code =>
    rw [done] at result kept
    simp only at result kept
    by_cases positive : 0 ≤ code
    · rw [if_pos positive] at kept
      exact spare_of_restored done positive (kept _ _ rfl)
    rw [if_neg positive] at result
    split at result
    · cases result
    · split at result
      · cases result
      · cases result

end Archive

theorem calm_untouched (calm : Calm t user) : Untouched t user := by
  by_cases inside : inArchive (copyPath user)
  · intro t' r done
    rw [sysStat_archive inside] at done
    by_cases found : ∃ place, cpioLookup t.vfs.archive (copyPath user) = some (some place)
    · obtain ⟨place, found⟩ := found
      obtain ⟨w, answered, files, dirs, image⟩ :=
        statArchive_spare found (calm inside place found)
      rw [answered] at done
      cases done
      exact ⟨⟨files, dirs, rfl, rfl, rfl⟩, ⟨image, rfl, rfl⟩⟩
    · rw [not_exists] at found
      rw [(statArchive_missing found).1 t' r done]
      exact same_self t
  · exact (sysStat_elsewhere inside).1

theorem calm_result (same : SameTrees t u) (calm : Calm t user) (calm' : Calm u user) :
    statResult t user = statResult u user := by
  by_cases inside : inArchive (copyPath user)
  · rw [statResult, statResult, sysStat_archive inside, sysStat_archive inside]
    by_cases found : ∃ place, cpioLookup t.vfs.archive (copyPath user) = some (some place)
    · obtain ⟨place, found⟩ := found
      have found' := found
      rw [same.archive] at found'
      obtain ⟨w, answered, _⟩ := statArchive_spare found (calm inside place found)
      obtain ⟨w', answered', _⟩ := statArchive_spare found' (calm' inside place found')
      rw [answered, answered']
      rfl
    · rw [not_exists] at found
      exact (statArchive_missing found).2 u same.archive
  · exact (sysStat_elsewhere inside).2 u same

def emptied (t : Tables) : Tables :=
  { t with vfs := { Vfs.initial t.vfs.archive with dirSlots := t.vfs.dirSlots } }

theorem emptied_spare (t : Tables) : Spare (emptied t).vfs := by
  have positive : 0 ≤ asI32 ((1000 : Nat) : Int) := by decide
  refine ⟨0, rfl, positive, ?_⟩
  omega

/-- stat is a query, against all states in which it can open what it finds, exactly from the
    states in which it can do so itself. -/
theorem stat_query_iff (t : Tables) (user : List UInt8) :
    (∀ u, SameTrees t u → Calm u user → Query t u user) ↔ Calm t user := by
  constructor
  · intro query inside place found
    have trees : SameTrees t (emptied t) := ⟨rfl, rfl, rfl⟩
    obtain ⟨result, untouched, _⟩ := query _ trees (fun _ _ _ => emptied_spare t)
    obtain ⟨w, answered, _⟩ := statArchive_spare (t := emptied t) found (emptied_spare t)
    rw [statResult, statResult, sysStat_archive inside, sysStat_archive inside, answered] at result
    refine spare_of_stat found result ?_
    intro t' r done
    rw [← sysStat_archive inside] at done
    exact (untouched t' r done).1.openFiles
  · intro calm u same calm'
    exact ⟨calm_result same calm calm', calm_untouched calm, calm_untouched calm'⟩

section Filled
variable {image : List UInt8} {place : Nat × Nat}

structure Filled (image : List UInt8) (k : Nat) (t : Tables) : Prop where
  trees : SameTrees (boot image [] false) t
  next : t.vfs.nextVfsFd = 1000 + k
  free : t.vfs.openFiles.cells.countP Option.isNone = 256 - k

theorem install_fills {v : Vfs.State} (room : v.hasRoom = true)
    (done : v.install dataOffset dataLen pos = (w, code)) :
    w.openFiles.cells.countP Option.isNone + 1 = v.openFiles.cells.countP Option.isNone := by
  obtain ⟨i, w', free, installed, files⟩ := install_room dataOffset dataLen pos room
  rw [installed] at done
  rw [← (Prod.mk.inj done).1, files]
  obtain ⟨rest, before, after⟩ := set_exchange free
  rw [State.put, Row.set, (after _).countP_eq, before.countP_eq, List.countP_cons_of_neg,
    List.countP_cons_of_pos]
  · rfl
  · exact Bool.false_ne_true

theorem plain_path : inArchive (copyPath (text "c")) ∧
    ¬ isSynthFile (copyPath (text "c")) = true ∧ ¬ isSynthDir (copyPath (text "c")) = true := by
  refine ⟨⟨?_, ?_, ?_⟩, ?_, ?_⟩ <;> decide

theorem fill_one (found : cpioLookup image (copyPath (text "c")) = some (some place)) {t : Tables}
    (few : k < 256) (filled : Filled image k t) :
    ∃ t', step t (.open_ (text "c") 0 0) = some t' ∧ Filled image (k + 1) t' := by
  obtain ⟨inside, notFile, notDir⟩ := plain_path
  have free := filled.free
  have next := filled.next
  have archive : t.vfs.archive = image := filled.trees.archive.symm
  have room : t.vfs.hasRoom = true := by
    obtain ⟨slot, member, test⟩ := List.countP_pos_iff.mp (by omega :
      0 < t.vfs.openFiles.cells.countP Option.isNone)
    exact List.any_eq_true.mpr ⟨slot, member, test⟩
  rw [← archive] at found
  cases done : t.vfs.install place.1 place.2 0 with
  | mk w code =>
    have number : code = asI32 t.vfs.nextVfsFd := by
      obtain ⟨_, _, _, installed, _⟩ := install_room place.1 place.2 0 room
      exact (Prod.mk.inj (done.symm.trans installed)).2
    have positive : 0 ≤ code := by
      rw [number, next, asI32_of_lt (by omega) (by omega)]
      omega
    have opened : sysOpen t (text "c") 0 0 = some ({ t with vfs := w }, code) := by
      rw [sysOpen_archive inside notFile notDir, openArchive, (open_found found).1, done]
      simp only
      rw [if_pos positive]
    have counted := install_fills room done
    obtain ⟨image', _, next'⟩ := install_rest t.vfs place.1 place.2 0
    rw [done] at image' next'
    refine ⟨{ t with vfs := w }, ?_, ?_, ?_, ?_⟩
    · rw [step, dispatch, opened]
      rfl
    · exact ⟨filled.trees.archive.trans image'.symm, filled.trees.nodes, filled.trees.resolvConf⟩
    · rw [next', next, Nat.mod_eq_of_lt (by omega), Nat.add_assoc]
    · simp only
      omega

theorem fill (found : cpioLookup image (copyPath (text "c")) = some (some place)) (few : k ≤ 256) :
    ∃ past t, Run step (boot image [] false) past t ∧ Filled image k t := by
  induction k with
  | zero =>
    refine ⟨[], _, .nil, ⟨rfl, rfl, rfl⟩, rfl, ?_⟩
    exact List.countP_replicate ..
  | succ k ih =>
    obtain ⟨past, t, run, filled⟩ := ih (by omega)
    obtain ⟨t', taken, more⟩ := fill_one found (by omega) filled
    exact ⟨_, t', .snoc run taken, more⟩

theorem not_below : Vfs.isDirPrefix (archive twoFiles plainTrailer []) (text "c") = some false := by
  have files : ∀ r ∈ twoFiles, r.name ≠ text "TRAILER!!!" := fun r member =>
    (twoFiles_proper r member).file
  have plain : ¬ (text "/").isPrefixOf (text "c") = true := by decide
  have short : ¬ 127 ≤ (text "c").length := by decide
  have noSlash : ¬ (text "/").isSuffixOf (text "c") = true := by decide
  unfold Vfs.isDirPrefix
  rw [if_neg plain, if_neg short, if_neg noSlash, isDirPrefixFrom_walk,
    archive_walk plainTrailer_last files [] (archive_length twoFiles plainTrailer [])]
  rfl

/-- With 256 files open stat does not find a file that it finds otherwise. -/
theorem stat_misses_file : ∃ image past t, WellFormed image ∧
    Run step (boot image [] false) past t ∧ SameTrees (boot image [] false) t ∧
      statResult (boot image [] false) (text "c") = some (0, some (0o100644, 1)) ∧
      statResult t (text "c") = some (-2, none) := by
  obtain ⟨formed, first, looked⟩ := lookup_second
  obtain ⟨inside, notFile, notDir⟩ := plain_path
  have path : copyPath (text "c") = text "c" := by decide
  rw [← path] at looked
  obtain ⟨past, t, run, filled⟩ := fill looked (Nat.le_refl 256)
  have same := filled.trees.archive
  refine ⟨_, past, t, formed, run, filled.trees, ?_, ?_⟩
  · have spare : Spare (boot (archive twoFiles plainTrailer []) [] false).vfs :=
      emptied_spare (boot (archive twoFiles plainTrailer []) [] false)
    obtain ⟨w, answered, _⟩ := statArchive_spare
      (t := boot (archive twoFiles plainTrailer []) [] false) looked spare
    rw [statResult, sysStat_archive inside, answered]
    rfl
  · have full : t.vfs.hasRoom = false := by
      have none := filled.free
      rw [Nat.sub_self, List.countP_eq_zero] at none
      rw [State.hasRoom, List.any_eq_false]
      exact none
    obtain ⟨w, refused, _⟩ := install_full first 1 0 full
    have image' := (install_rest t.vfs first 1 0).1
    rw [refused] at image'
    have found : cpioLookup t.vfs.archive (copyPath (text "c")) = some (some (first, 1)) := by
      rw [← same]
      exact looked
    have below : Vfs.isDirPrefix w.archive (copyPath (text "c")) = some false := by
      rw [image', ← same, path]
      exact not_below
    rw [statResult, sysStat_archive inside, statArchive, (open_found found).1, refused]
    simp only
    rw [if_neg (by decide), below]
    simp only [Bool.false_or]
    rfl

end Filled

end TynKernel.Fd
