import TynKernel.Tmpfs.Accounting

/-!
Calls that fail, which they report by a value between -4095 and -1, and the two kinds of calls
that report one and have changed something.
-/
namespace TynKernel.Tmpfs
open Bytes Runs Weights

def IsError (code : Int) : Prop := -4095 ≤ code ∧ code < 0

instance (code : Int) : Decidable (IsError code) := inferInstanceAs (Decidable (_ ∧ _))

theorem open_admits (fs : State) (path : Path) (flags mode : Nat) :
    if fs.admits path flags then
      (fs.open_ path flags mode).2 = fs.nextFd ∧
        (fs.open_ path flags mode).1.opens.length = fs.opens.length + 1
    else (fs.open_ path flags mode).1 = fs := by
  rcases open_cases fs path flags mode with
    ⟨closed, code, refused, _⟩ | ⟨admitted, _, pos, _, _, _, pushed, ready⟩
  · simp [closed, refused]
  · obtain ⟨opens, _, number⟩ := ready_push ready pos
    simp [admitted, pushed, opens, number]

theorem clobbers_rename (clobbers : Clobbers fs old new) :
    fs.rename old new = ({ fs with nodes := fs.nodes.erase (norm new) }, einval) := by
  obtain ⟨src, source, srcDir⟩ := clobbers.source
  obtain ⟨up, above, dir⟩ := clobbers.above
  obtain ⟨dst, target, dstDir⟩ := clobbers.target
  simp [State.rename, State.move, clobbers.apart, source, above, dir, target, dstDir, srcDir,
    clobbers.vacant, clobbers.inhabited]

def Harmful (fs : State) : Call → Prop
  | .open_ path flags _ => IsError fs.nextFd ∧ fs.admits path flags = true
  | .rename old new => Clobbers fs old new
  | _ => False

structure Unchanged (fs fs' : State) : Prop where
  nodes : fs'.nodes = fs.nodes
  total : fs'.total = fs.total
  opens : fs'.opens = fs.opens

theorem harmful_changes (harmful : Harmful fs c) (done : fs.call c = some (fs', r)) :
    IsError r.code ∧ ¬ Unchanged fs fs' := by
  cases c with
  | open_ path flags mode =>
    obtain ⟨error, admitted⟩ := harmful
    have result := open_admits fs path flags mode
    rw [if_pos admitted] at result
    cases done
    refine ⟨?_, fun unchanged => ?_⟩
    · rw [result.1]
      exact error
    · have longer := result.2
      rw [unchanged.opens] at longer
      omega
  | rename old new =>
    have result := clobbers_rename harmful
    obtain ⟨dst, target, _⟩ := harmful.target
    cases done
    rw [result]
    refine ⟨(by decide : IsError einval), fun unchanged => ?_⟩
    have kept : fs.nodes.erase (norm new) = fs.nodes := unchanged.nodes
    rw [← kept, lookup_erased, if_pos rfl] at target
    cases target
  | _ => exact harmful.elim

theorem harmless_unchanged (sound : Sound fs) (harmless : ¬ Harmful fs c)
    (done : fs.call c = some (fs', r)) (error : IsError r.code) : Unchanged fs fs' := by
  rcases (call_effect sound done).failed error.2 with same | opened | clobbered
  · rw [same]
    exact ⟨rfl, rfl, rfl⟩
  · obtain ⟨path, flags, mode, call, number, longer⟩ := opened
    rw [call] at harmless done
    have result := open_admits fs path flags mode
    cases done
    split at result
    · rename_i admitted
      rw [number] at error
      exact absurd ⟨error, admitted⟩ harmless
    · rw [result] at longer
      omega
  · obtain ⟨old, new, call, clobbers, _⟩ := clobbered
    rw [call] at harmless
    exact absurd clobbers harmless

/-- A call that reports an error has changed nothing, exactly if it is none of the two kinds. -/
theorem failures_unchanged_iff {fs fs' : State} {past : List (State × Call)} {c : Call} {r : Reply}
    (run : Run step initial past fs) (done : fs.call c = some (fs', r)) :
    (IsError r.code → Unchanged fs fs') ↔ ¬ Harmful fs c := by
  constructor
  · intro unchanged harmful
    obtain ⟨error, changed⟩ := harmful_changes harmful done
    exact changed (unchanged error)
  · intro harmless error
    exact harmless_unchanged (run_sound run) harmless done error

theorem mkdir_again_unchanged : ∃ past fs fs', Run step initial past fs ∧
    fs.call (.mkdir (text "/tmp/a") 0) = some (fs', .of eexist) ∧ Unchanged fs fs' := by
  obtain ⟨past, fs, run, _, final⟩ := run_of_exec (fun _ _ => true) step initial
    [.mkdir (text "/tmp/a") 0] (fun fs => decide ((fs.mkdir (text "/tmp/a") 0).2 = eexist))
    (by decide)
  have code := of_decide_eq_true final
  have done : fs.call (.mkdir (text "/tmp/a") 0) =
      some ((fs.mkdir (text "/tmp/a") 0).1, .of eexist) := by
    rw [State.call, code]
  exact ⟨past, fs, _, run, done, (failures_unchanged_iff run done).mpr id (by decide)⟩

/-- The rename fails since the source has a child, and the destination is gone. -/
theorem failed_rename_removes : ∃ past fs fs', Run step initial past fs ∧
    fs.call (.rename (text "/tmp/a") (text "/tmp/b")) = some (fs', .of einval) ∧
    (fs.nodes.lookup (text "/tmp/b")).isSome = true ∧ fs'.nodes.lookup (text "/tmp/b") = none := by
  obtain ⟨past, fs, run, _, final⟩ := run_of_exec (fun _ _ => true) step initial
    [.mkdir (text "/tmp/a") 0, .mkdir (text "/tmp/b") 0, .mkdir (text "/tmp/a/c") 0]
    (fun fs => decide ((fs.rename (text "/tmp/a") (text "/tmp/b")).2 = einval) &&
      ((fs.nodes.lookup (text "/tmp/b")).isSome &&
        ((fs.rename (text "/tmp/a") (text "/tmp/b")).1.nodes.lookup (text "/tmp/b")).isNone))
    (by decide)
  simp only [Bool.and_eq_true, decide_eq_true_eq, Option.isNone_iff_eq_none] at final
  refine ⟨past, fs, (fs.rename (text "/tmp/a") (text "/tmp/b")).1, run, ?_, final.2⟩
  rw [State.call, final.1]

end TynKernel.Tmpfs
