import Mathlib.Data.List.Nodup

/-!
Run queues of several processors, without locks and code: where each task is, and the moves by
which tasks start, run, sleep, wake and end.
-/
namespace TynKernel.RunQueues
open Function List
variable {C T : Type}

inductive Status where
  | ready | asleep | dead
  deriving DecidableEq, Repr

/-- Status none is a task that does not exist; spawns c is a task that processor c has
    created and not yet put in a queue. -/
@[ext] structure Board (C T : Type) where
  status : T → Option Status
  home : T → C
  queue : C → List T
  runs : C → Option T
  spawns : C → Option T

variable {c : C} {t : T} {st : Status} {b b' : Board C T}

namespace Board

def setStatus [DecidableEq T] (b : Board C T) (t : T) (s : Status) : Board C T :=
  { b with status := Function.update b.status t (some s) }

def setHome [DecidableEq T] (b : Board C T) (t : T) (c : C) : Board C T :=
  { b with home := Function.update b.home t c }

def setQueue [DecidableEq C] (b : Board C T) (c : C) (ts : List T) : Board C T :=
  { b with queue := Function.update b.queue c ts }

def setRuns [DecidableEq C] (b : Board C T) (c : C) (t : Option T) : Board C T :=
  { b with runs := Function.update b.runs c t }

def setSpawns [DecidableEq C] (b : Board C T) (c : C) (t : Option T) : Board C T :=
  { b with spawns := Function.update b.spawns c t }

theorem setRuns_self [DecidableEq C] (b : Board C T) {t : Option T} (same : b.runs c = t) :
    b.setRuns c t = b := by
  subst same
  simp only [setRuns]
  congr 1
  exact update_eq_self c _

theorem setSpawns_self [DecidableEq C] (b : Board C T) {t : Option T} (same : b.spawns c = t) :
    b.setSpawns c t = b := by
  subst same
  simp only [setSpawns]
  congr 1
  exact update_eq_self c _

theorem setStatus_self [DecidableEq T] (b : Board C T) (same : b.status t = some st) :
    b.setStatus t st = b := by
  simp only [setStatus, ← same]
  congr 1
  exact update_eq_self t _

end Board

inductive Move [DecidableEq C] [DecidableEq T] (b : Board C T) : Board C T → Prop where
  | keep : Move b b
  | pop (c : C) (t : T) (rest : List T) (head : b.queue c = t :: rest) (free : b.runs c = none) :
      Move b ((b.setQueue c rest).setRuns c (some t))
  | rotate (c : C) (t cur : T) (rest : List T) (head : b.queue c = t :: rest)
      (busy : b.runs c = some cur) :
      Move b ((b.setQueue c (rest ++ [cur])).setRuns c (some t))
  | sleep (c : C) (t : T) (busy : b.runs c = some t) :
      Move b ((b.setStatus t .asleep).setRuns c none)
  | wake (t : T) (asleep : b.status t = some .asleep) :
      Move b ((b.setStatus t .ready).setQueue (b.home t) (b.queue (b.home t) ++ [t]))
  | exit (c : C) (t : T) (busy : b.runs c = some t) :
      Move b ((b.setStatus t .dead).setRuns c none)
  | create (c : C) (t : T) (home : C) (absent : b.status t = none) (free : b.spawns c = none) :
      Move b (((b.setStatus t .ready).setHome t home).setSpawns c (some t))
  | settle (c : C) (t : T) (home : C) (own : b.spawns c = some t) : Move b (b.setHome t home)
  | start (c : C) (t : T) (own : b.spawns c = some t) :
      Move b ((b.setQueue (b.home t) (b.queue (b.home t) ++ [t])).setSpawns c none)

/-- Every task that can run is in exactly one place: it is being created, or it waits in
    the queue of its home, or its home runs it. -/
structure Placed (b : Board C T) : Prop where
  nodup : ∀ c, (b.queue c).Nodup
  queued : ∀ c t, t ∈ b.queue c → b.status t = some .ready ∧ b.home t = c
  running : ∀ c t, b.runs c = some t → b.status t = some .ready ∧ b.home t = c ∧ t ∉ b.queue c
  spawning : ∀ c t, b.spawns c = some t → b.status t = some .ready ∧ (∀ d, t ∉ b.queue d) ∧
    (∀ d, b.runs d ≠ some t) ∧ ∀ d, b.spawns d = some t → d = c
  placed : ∀ t, b.status t = some .ready → (∃ c, b.spawns c = some t) ∨ t ∈ b.queue (b.home t) ∨
    b.runs (b.home t) = some t

/-! ### What a processor holds

The task a processor runs and the tasks in its queue are one list; a move changes the lists of
at most one processor. -/

def Board.held (b : Board C T) (c : C) : List T := (b.runs c).toList ++ b.queue c

structure Kept (b : Board C T) : Prop where
  nodup : ∀ c, (b.held c).Nodup
  home : ∀ c t, t ∈ b.held c → b.status t = some .ready ∧ b.home t = c
  spawning : ∀ c t, b.spawns c = some t → b.status t = some .ready ∧ (∀ d, t ∉ b.held d) ∧
    ∀ d, b.spawns d = some t → d = c
  placed : ∀ t, b.status t = some .ready → (∃ c, b.spawns c = some t) ∨ t ∈ b.held (b.home t)

theorem mem_held :
    t ∈ b.held c ↔ b.runs c = some t ∨ t ∈ b.queue c := by
  simp [Board.held]

theorem nodup_held :
    (b.held c).Nodup ↔ (b.queue c).Nodup ∧ ∀ t, b.runs c = some t → t ∉ b.queue c := by
  unfold Board.held
  cases b.runs c with
  | none => simp
  | some => simp [and_comm]

theorem held_congr (queue : b'.queue c = b.queue c) (runs : b'.runs c = b.runs c) :
    b'.held c = b.held c := by
  rw [Board.held, Board.held, queue, runs]

theorem placed_iff_kept : Placed b ↔ Kept b := by
  constructor
  · intro ok
    refine ⟨?_, ?_, ?_, ?_⟩
    · intro c
      exact nodup_held.mpr ⟨ok.nodup c, fun t runs => (ok.running c t runs).2.2⟩
    · intro c t held
      rcases mem_held.mp held with runs | queued
      · exact ⟨(ok.running c t runs).1, (ok.running c t runs).2.1⟩
      · exact ok.queued c t queued
    · intro c t spawns
      obtain ⟨ready, noQueue, noRun, alone⟩ := ok.spawning c t spawns
      refine ⟨ready, fun d held => ?_, alone⟩
      rcases mem_held.mp held with runs | queued
      · exact noRun d runs
      · exact noQueue d queued
    · intro t ready
      rw [mem_held]
      rcases ok.placed t ready with spawns | queued | runs
      · exact .inl spawns
      · exact .inr (.inr queued)
      · exact .inr (.inl runs)
  · intro ok
    refine ⟨?_, ?_, ?_, ?_, ?_⟩
    · intro c
      exact (nodup_held.mp (ok.nodup c)).1
    · intro c t queued
      exact ok.home c t (mem_held.mpr (.inr queued))
    · intro c t runs
      obtain ⟨ready, home⟩ := ok.home c t (mem_held.mpr (.inl runs))
      exact ⟨ready, home, (nodup_held.mp (ok.nodup c)).2 t runs⟩
    · intro c t spawns
      obtain ⟨ready, free, alone⟩ := ok.spawning c t spawns
      exact ⟨ready, fun d queued => free d (mem_held.mpr (.inr queued)),
        fun d runs => free d (mem_held.mpr (.inl runs)), alone⟩
    · intro t ready
      rcases ok.placed t ready with spawns | held
      · exact .inl spawns
      · rcases mem_held.mp held with runs | queued
        · exact .inr (.inr runs)
        · exact .inr (.inl queued)

theorem kept_rearranged (ok : Kept b) (status : b'.status = b.status) (home : b'.home = b.home)
    (spawns : b'.spawns = b.spawns) (same : ∀ c, (b'.held c).Perm (b.held c)) : Kept b' := by
  refine ⟨?_, ?_, ?_, ?_⟩
  · intro c
    exact (same c).nodup_iff.mpr (ok.nodup c)
  · intro c t held
    rw [status, home]
    exact ok.home c t ((same c).mem_iff.mp held)
  · intro c t own
    rw [spawns] at own ⊢
    obtain ⟨ready, free, alone⟩ := ok.spawning c t own
    rw [status]
    exact ⟨ready, fun d held => free d ((same d).mem_iff.mp held), alone⟩
  · intro t ready
    rw [status] at ready
    rw [spawns, home, (same _).mem_iff]
    exact ok.placed t ready

theorem kept_stop [DecidableEq C] [DecidableEq T] (ok : Kept b) (busy : b.runs c = some t)
    (stopped : st ≠ .ready) :
    Kept ((b.setStatus t st).setRuns c none) := by
  have left : b.held c = t :: b.queue c := by
    rw [Board.held, busy]
    rfl
  have own : t ∈ b.held c := left ▸ mem_cons_self
  have once := ok.nodup c
  rw [left, nodup_cons] at once
  have here : ((b.setStatus t st).setRuns c none).held c = b.queue c := by
    simp [Board.held, Board.setStatus, Board.setRuns]
  have others : ∀ d, d ≠ c → ((b.setStatus t st).setRuns c none).held d = b.held d :=
    fun d other => held_congr rfl (update_of_ne other _ _)
  have before : ∀ d u, u ∈ ((b.setStatus t st).setRuns c none).held d → u ∈ b.held d ∧ u ≠ t := by
    intro d u held
    by_cases same : d = c
    · subst same
      rw [here] at held
      exact ⟨left ▸ mem_cons_of_mem t held, fun equal => once.1 (equal ▸ held)⟩
    · rw [others d same] at held
      refine ⟨held, fun equal => same ?_⟩
      exact (ok.home d t (equal ▸ held)).2.symm.trans (ok.home c t own).2
  have status : ∀ u, u ≠ t → ((b.setStatus t st).setRuns c none).status u = b.status u :=
    fun u other => update_of_ne other _ _
  refine ⟨?_, ?_, ?_, ?_⟩
  · intro d
    by_cases same : d = c
    · rw [same, here]
      exact once.2
    · rw [others d same]
      exact ok.nodup d
  · intro d u held
    obtain ⟨old, other⟩ := before d u held
    rw [status u other]
    exact ok.home d u old
  · intro d u creates
    obtain ⟨ready, free, alone⟩ := ok.spawning d u creates
    have other : u ≠ t := fun same => free c (same ▸ own)
    rw [status u other]
    exact ⟨ready, fun e held => free e (before e u held).1, alone⟩
  · intro u ready
    have other : u ≠ t := by
      intro same
      subst same
      have now : ((b.setStatus u st).setRuns c none).status u = some st := update_self ..
      exact stopped (Option.some.inj (now.symm.trans ready))
    rw [status u other] at ready
    rcases ok.placed u ready with creates | held
    · exact .inl creates
    refine .inr ?_
    show u ∈ ((b.setStatus t st).setRuns c none).held (b.home u)
    by_cases same : b.home u = c
    · rw [same, left] at held
      rw [same, here]
      exact (mem_cons.mp held).resolve_left other
    · rw [others _ same]
      exact held

theorem kept_joins (ok : Kept b) (out : ∀ d, t ∉ b.held d) (ready : b'.status t = some .ready)
    (status : ∀ u, u ≠ t → b'.status u = b.status u) (home : b'.home = b.home)
    (spawns : ∀ c u, b'.spawns c = some u ↔ b.spawns c = some u ∧ u ≠ t)
    (joined : b'.held (b.home t) = b.held (b.home t) ++ [t])
    (others : ∀ d, d ≠ b.home t → b'.held d = b.held d) : Kept b' := by
  have member : ∀ d u, u ∈ b'.held d ↔ u ∈ b.held d ∨ (u = t ∧ d = b.home t) := by
    intro d u
    by_cases here : d = b.home t
    · subst here
      simp [joined]
    · simp [others d here, here, and_false]
  refine ⟨?_, ?_, ?_, ?_⟩
  · intro d
    by_cases here : d = b.home t
    · subst here
      rw [joined]
      rw [← concat_eq_append]
      exact (nodup_concat _ _).mpr ⟨out _, ok.nodup _⟩
    · rw [others d here]
      exact ok.nodup d
  · intro d u held
    rw [home]
    rcases (member d u).mp held with old | ⟨same, here⟩
    · have other : u ≠ t := fun same => out d (same ▸ old)
      rw [status u other]
      exact ok.home d u old
    · subst same
      exact ⟨ready, here.symm⟩
  · intro c u creates
    obtain ⟨old, other⟩ := (spawns c u).mp creates
    obtain ⟨stillReady, free, alone⟩ := ok.spawning c u old
    rw [status u other]
    refine ⟨stillReady, fun d held => ?_, fun d again => alone d ((spawns d u).mp again).1⟩
    rcases (member d u).mp held with old | ⟨same, _⟩
    · exact free d old
    · exact other same
  · intro u nowReady
    rw [home]
    by_cases same : u = t
    · subst same
      exact .inr ((member _ _).mpr (.inr ⟨rfl, rfl⟩))
    · rw [status u same] at nowReady
      rcases ok.placed u nowReady with ⟨c, creates⟩ | held
      · exact .inl ⟨c, (spawns c u).mpr ⟨creates, same⟩⟩
      · exact .inr ((member _ _).mpr (.inl held))

theorem kept_create [DecidableEq C] [DecidableEq T] (ok : Kept b)
    (absent : b.status t = none) (free : b.spawns c = none) :
    Kept (((b.setStatus t .ready).setHome t home).setSpawns c (some t)) := by
  have out : ∀ d, t ∉ b.held d := by
    intro d held
    cases absent.symm.trans (ok.home d t held).1
  have notNew : ∀ d, b.spawns d ≠ some t := by
    intro d creates
    cases absent.symm.trans (ok.spawning d t creates).1
  refine ⟨ok.nodup, ?_, ?_, ?_⟩
  · intro d u held
    have other : u ≠ t := fun same => out d (same ▸ held)
    simp only [Board.setSpawns, Board.setHome, Board.setStatus, update_of_ne other]
    exact ok.home d u held
  · intro d u creates
    simp only [Board.setSpawns, Board.setHome, Board.setStatus, update_apply] at creates ⊢
    by_cases here : d = c
    · rw [if_pos here] at creates
      obtain rfl := Option.some.inj creates
      refine ⟨if_pos rfl, out, fun e again => ?_⟩
      by_cases same : e = c
      · exact same.trans here.symm
      · rw [if_neg same] at again
        exact absurd again (notNew e)
    · rw [if_neg here] at creates
      obtain ⟨ready, nowhere, alone⟩ := ok.spawning d u creates
      have other : u ≠ t := fun same => notNew d (same ▸ creates)
      refine ⟨(if_neg other).trans ready, nowhere, fun e again => ?_⟩
      by_cases same : e = c
      · rw [if_pos same] at again
        exact absurd (Option.some.inj again).symm other
      · rw [if_neg same] at again
        exact alone e again
  · intro u ready
    simp only [Board.setSpawns, Board.setHome, Board.setStatus, update_apply] at ready ⊢
    by_cases same : u = t
    · exact .inl ⟨c, by rw [if_pos rfl, same]⟩
    rw [if_neg same] at ready ⊢
    rcases ok.placed u ready with ⟨d, creates⟩ | held
    · refine .inl ⟨d, ?_⟩
      have other : d ≠ c := by
        intro here
        cases free.symm.trans (here ▸ creates)
      rw [if_neg other]
      exact creates
    · exact .inr held

theorem kept_settle [DecidableEq T] (ok : Kept b) (own : b.spawns c = some t) :
    Kept (b.setHome t home) := by
  obtain ⟨_, out, _⟩ := ok.spawning c t own
  refine ⟨ok.nodup, ?_, ok.spawning, ?_⟩
  · intro d u held
    have other : u ≠ t := fun same => out d (same ▸ held)
    simp only [Board.setHome, update_of_ne other]
    exact ok.home d u held
  · intro u ready
    by_cases same : u = t
    · exact .inl ⟨c, same ▸ own⟩
    · simp only [Board.setHome, update_of_ne same]
      exact ok.placed u ready

variable [DecidableEq C] [DecidableEq T]

theorem kept_move (ok : Kept b) (move : Move b b') : Kept b' := by
  cases move with
  | keep => exact ok
  | pop c t rest head free =>
    refine kept_rearranged ok rfl rfl rfl fun d => ?_
    by_cases here : d = c
    · subst here
      simp [Board.held, Board.setQueue, Board.setRuns, head, free]
    · rw [held_congr (b := b) (update_of_ne here _ _) (update_of_ne here _ _)]
  | rotate c t cur rest head busy =>
    refine kept_rearranged ok rfl rfl rfl fun d => ?_
    by_cases here : d = c
    · subst here
      simp only [Board.held, Board.setQueue, Board.setRuns, update_self, head, busy,
        Option.toList_some, singleton_append]
      exact perm_append_singleton cur (t :: rest)
    · rw [held_congr (b := b) (update_of_ne here _ _) (update_of_ne here _ _)]
  | sleep c t busy | exit c t busy => exact kept_stop ok busy (by decide)
  | wake t asleep =>
    have notReady : b.status t ≠ some .ready := by
      rw [asleep]
      decide
    refine kept_joins ok (fun d held => notReady (ok.home d t held).1) (update_self ..)
      (fun u other => update_of_ne other _ _) rfl ?_ ?_ ?_
    · intro c u
      refine ⟨fun creates => ⟨creates, ?_⟩, And.left⟩
      exact fun same => notReady (same ▸ (ok.spawning c u creates).1)
    · simp [Board.held, Board.setStatus, Board.setQueue]
    · exact fun d other => held_congr (update_of_ne other _ _) rfl
  | create c t home absent free => exact kept_create ok absent free
  | settle c t home own => exact kept_settle ok own
  | start c t own =>
    obtain ⟨ready, out, alone⟩ := ok.spawning c t own
    refine kept_joins ok out ready (fun _ _ => rfl) rfl ?_ ?_ ?_
    · intro d u
      simp only [Board.setSpawns, Board.setQueue, update_apply]
      by_cases here : d = c
      · subst here
        simp [own, eq_comm]
      · rw [if_neg here]
        exact ⟨fun creates => ⟨creates, fun same => here (alone d (same ▸ creates))⟩, And.left⟩
    · simp [Board.held, Board.setSpawns, Board.setQueue]
    · exact fun d other => held_congr (update_of_ne other _ _) rfl

theorem placed_move (ok : Placed b) (move : Move b b') : Placed b' :=
  placed_iff_kept.mpr (kept_move (placed_iff_kept.mp ok) move)

end TynKernel.RunQueues
