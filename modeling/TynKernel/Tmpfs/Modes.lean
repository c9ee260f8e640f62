import TynKernel.Tmpfs.Writes

/-!
The access modes of descriptors. To speak about the flags a descriptor was opened with, a run
is logged: beside the open table stands a list with the flags of every open, and whether it
made the file.
-/
namespace TynKernel.Tmpfs
open Runs

structure Origin where
  flags : Nat
  created : Bool
  deriving DecidableEq, Repr

def Origin.writes (g : Origin) : Bool := g.flags &&& 0o3 = oWronly || g.flags &&& 0o3 = oRdwr

def Origin.appends (g : Origin) : Bool := g.flags &&& oAppend ≠ 0

structure Logged where
  fs : State
  origins : List Origin

namespace Logged

def entries (t : Logged) : List (OpenFd × Origin) := t.fs.opens.zip t.origins

def entry (t : Logged) (fd : Int) : Option (OpenFd × Origin) :=
  t.entries.find? fun e => e.1.fd = fd

def follow (t : Logged) (fs' : State) : Call → List Origin
  | .open_ path flags _ =>
    if fs'.opens.length = t.fs.opens.length then t.origins
    else t.origins ++ [⟨flags, (t.fs.nodes.lookup (norm path)).isNone⟩]
  | .close fd =>
    if fd < tmpfsFdBase then t.origins
    else (t.entries.eraseP fun e => e.1.fd = fd).map Prod.snd
  | _ => t.origins

end Logged

def log (t : Logged) (c : Call) : Option Logged :=
  (t.fs.call c).map fun r => ⟨r.1, t.follow r.1 c⟩

def unopened : Logged := ⟨initial, []⟩

variable {t t' : Logged} {c : Call} {past : List (Logged × Call)} {o : OpenFd} {g : Origin}
  {fd : Int} {fs₁ fs' : State} {path : Path}

theorem log_fs (t : Logged) (c : Call) : (log t c).map Logged.fs = step t.fs c := by
  unfold log step
  rw [Option.map_map]
  rfl

theorem log_call (taken : log t c = some t') :
    ∃ r, t.fs.call c = some (t'.fs, r) ∧ t'.origins = t.follow t'.fs c := by
  obtain ⟨⟨fs', r⟩, done, same⟩ := Option.map_eq_some_iff.mp taken
  cases same
  exact ⟨r, done, rfl⟩

theorem logged_sound (run : Run log unopened past t) :
    Sound t.fs := by
  refine run_invariant (fun t => Sound t.fs) sound_initial ?_ run
  intro t c t' sound taken
  apply step_sound sound (c := c)
  rw [← log_fs, taken]
  rfl

inductive Recorded (o : OpenFd) (g : Origin) : Prop where
  | dir (isDir : o.isDir = true) (created : g.created = false) (append : o.append = false)
      (writable : o.writable = false) (access : g.writes = false)
  | fresh (isDir : o.isDir = false) (created : g.created = true) (append : o.append = false)
      (writable : o.writable = true)
  | file (isDir : o.isDir = false) (created : g.created = false) (append : o.append = g.appends)
      (writable : o.writable = g.writes)

theorem recorded_moved (recorded : Recorded o g) (pos dirPos : Nat) :
    Recorded { o with pos := pos, dirPos := dirPos } g := by
  cases recorded with
  | dir isDir created append writable access => exact .dir isDir created append writable access
  | fresh isDir created append writable => exact .fresh isDir created append writable
  | file isDir created append writable => exact .file isDir created append writable

section Parallel
variable {opens : List OpenFd} {origins : List Origin}

theorem recorded_edit (fd : Int) (steady : ∀ o g, Recorded o g → Recorded (f o) g)
    (held : List.Forall₂ Recorded opens origins) :
    List.Forall₂ Recorded (editFirst fd f opens) origins := by
  induction held with
  | nil => exact List.Forall₂.nil
  | @cons o g opens origins here rest ih =>
    rw [editFirst]
    split
    · exact List.Forall₂.cons (steady o g here) rest
    · exact List.Forall₂.cons here ih

theorem recorded_erase (fd : Int) (held : List.Forall₂ Recorded opens origins) :
    List.Forall₂ Recorded (opens.eraseP fun o => o.fd = fd)
      (((opens.zip origins).eraseP fun e => e.1.fd = fd).map Prod.snd) := by
  induction held with
  | nil => exact List.Forall₂.nil
  | @cons o g opens origins here rest ih =>
    by_cases same : o.fd = fd
    · have all : (opens.zip origins).map Prod.snd = origins :=
        List.map_snd_zip (Nat.le_of_eq rest.length_eq.symm)
      simpa [same, all] using rest
    · rw [List.eraseP_cons_of_neg (by simpa using same), List.zip_cons_cons,
        List.eraseP_cons_of_neg (by simpa using same)]
      exact List.Forall₂.cons here ih

theorem recorded_find (held : List.Forall₂ Recorded opens origins)
    (found : (opens.zip origins).find? (fun e => e.1.fd = fd) = some (o, g)) :
    opens.find? (fun o => o.fd = fd) = some o ∧ Recorded o g := by
  induction held with
  | nil => cases found
  | @cons o' g' opens origins here rest ih =>
    by_cases same : o'.fd = fd
    · have first : (o', g') = (o, g) := by simpa [same] using found
      cases first
      exact ⟨by simp [same], here⟩
    · have later : (opens.zip origins).find? (fun e => e.1.fd = fd) = some (o, g) := by
        simpa [same] using found
      simpa [same] using ih later

end Parallel

theorem open_recorded (fs : State) (path : Path) (flags mode : Nat) :
    (fs.open_ path flags mode).1.opens = fs.opens ∨
    ∃ o, (fs.open_ path flags mode).1.opens = fs.opens ++ [o] ∧
      Recorded o ⟨flags, (fs.nodes.lookup (norm path)).isNone⟩ := by
  rcases open_cases fs path flags mode with
    ⟨_, code, refused, _⟩ | ⟨_, _, pos, _, _, _, pushed, ready⟩
  · rw [refused]
    exact .inl rfl
  rw [pushed]
  refine .inr ⟨_, (ready_push ready pos).1, ?_⟩
  cases ready with
  | dir node present isDir reads =>
    rw [present]
    exact .dir rfl rfl rfl rfl reads
  | file node present =>
    rw [present]
    exact .file rfl rfl rfl rfl
  | emptied node present =>
    rw [present]
    exact .file rfl rfl rfl rfl
  | created up perm absent =>
    rw [absent]
    exact .fresh rfl rfl rfl rfl

theorem tableStep_recorded (table : TableStep fs c fs')
    (held : List.Forall₂ Recorded fs.opens origins) : List.Forall₂ Recorded fs'.opens origins := by
  cases table with
  | same _ _ opens =>
    rw [opens]
    exact held
  | moved _ _ fd f position opens =>
    rw [opens]
    refine recorded_edit fd ?_ held
    intro o g recorded
    obtain ⟨pos, moved⟩ := position o
    rw [moved]
    exact recorded_moved recorded pos o.dirPos
  | turned fd count _ place opens =>
    rw [opens]
    exact recorded_edit fd (fun o _ recorded => recorded_moved recorded o.pos place) held

theorem log_recorded (held : List.Forall₂ Recorded t.fs.opens t.origins)
    (taken : log t c = some t') : List.Forall₂ Recorded t'.fs.opens t'.origins := by
  obtain ⟨r, done, origins⟩ := log_call taken
  rw [origins]
  cases c with
  | open_ path flags mode =>
    have after : t'.fs = (t.fs.open_ path flags mode).1 :=
      (congrArg Prod.fst (Option.some.inj done)).symm
    rcases open_recorded t.fs path flags mode with same | ⟨o, added, recorded⟩
    · rw [← after] at same
      simp only [Logged.follow, same, if_true]
      exact held
    rw [← after] at added
    have longer : ¬ t'.fs.opens.length = t.fs.opens.length := by
      rw [added, List.length_append, List.length_singleton]
      omega
    simp only [Logged.follow, if_neg longer]
    rw [added]
    exact List.rel_append held (List.Forall₂.cons recorded List.Forall₂.nil)
  | close fd =>
    have after : t'.fs = t.fs.close fd := (congrArg Prod.fst (Option.some.inj done)).symm
    rw [after]
    simp only [Logged.follow, State.close]
    split
    · exact held
    · exact recorded_erase fd held
  | _ => exact tableStep_recorded ((call_outcome done).table rfl) held

theorem run_recorded (run : Run log unopened past t) :
    List.Forall₂ Recorded t.fs.opens t.origins :=
  run_invariant (fun t => List.Forall₂ Recorded t.fs.opens t.origins) List.Forall₂.nil
    (fun _ _ _ held taken => log_recorded held taken) run

theorem entry_recorded (held : List.Forall₂ Recorded t.fs.opens t.origins)
    (entry : t.entry fd = some (o, g)) :
    t.fs.descriptor fd = some o ∧ Recorded o g :=
  recorded_find held entry

end TynKernel.Tmpfs
