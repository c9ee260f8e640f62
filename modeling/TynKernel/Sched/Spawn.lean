import TynKernel.Sched.Effect

/-!
The home CPU of a thread. spawn looks at the CPUs once each, in order, and takes the first
idle one, or else the first with the shortest queue.
-/
namespace TynKernel.Sched
open Runs
variable {n c t u : Nat} {idle : Nat → Bool} {running : List Nat} {p p' : Pc} {k k' : Kernel}
  {s s' : System} {new r' : Thread} {a : Action}

def spawnScanned (n : Nat) (idle : Nat → Bool) (len : Nat → Nat) : Nat × Nat × Bool :=
  (List.range n).foldl
    (fun found cpu => spawnConsider cpu (len cpu) (idle cpu) found.1 found.2.1 found.2.2)
    (0, 2 ^ 64 - 1, false)

def spawnChoice (n : Nat) (idle : Nat → Bool) (len : Nat → Nat) : Nat :=
  (spawnScanned n idle len).1

theorem spawnScanned_succ (n : Nat) (idle : Nat → Bool) (len : Nat → Nat) :
    spawnScanned (n + 1) idle len =
      spawnConsider n (len n) (idle n) (spawnScanned n idle len).1 (spawnScanned n idle len).2.1
        (spawnScanned n idle len).2.2 := by
  simp [spawnScanned, List.range_succ, List.foldl_append, List.foldl_cons, List.foldl_nil]

theorem spawnChoice_lt (n : Nat) (idle : Nat → Bool) (len : Nat → Nat) :
    spawnChoice n idle len < max n 1 := by
  unfold spawnChoice
  induction n with
  | zero => exact Nat.zero_lt_one
  | succ =>
    rw [spawnScanned_succ]
    unfold spawnConsider
    split
    · simp
    · split
      · simp
      · omega

theorem spawnScanned_idle (n : Nat) (idle : Nat → Bool) (len : Nat → Nat) :
    (∀ c, c < n → idle c = true → (spawnScanned n idle len).2.2 = true) ∧
      ((spawnScanned n idle len).2.2 = true → idle (spawnScanned n idle len).1 = true) := by
  induction n with
  | zero => exact ⟨fun c less => absurd less (Nat.not_lt_zero c), fun found => nomatch found⟩
  | succ n ih =>
    obtain ⟨seen, good⟩ := ih
    rw [spawnScanned_succ]
    unfold spawnConsider
    generalize spawnScanned n idle len = found at seen good
    split
    · rename_i first
      simp only [Bool.and_eq_true] at first
      exact ⟨fun _ _ _ => rfl, fun _ => first.1⟩
    rename_i notFirst
    have old : ∀ c, c < n + 1 → idle c = true → found.2.2 = true := by
      intro c less isIdle
      rcases Nat.lt_succ_iff_lt_or_eq.mp less with before | same
      · exact seen c before isIdle
      · subst same
        simpa [isIdle] using notFirst
    split
    · rename_i shorter
      simp only [Bool.and_eq_true, Bool.not_eq_true'] at shorter
      exact ⟨old, fun yes => absurd (yes.symm.trans shorter.1) (by simp)⟩
    · exact ⟨old, good⟩

theorem spawnChoice_idle (len : Nat → Nat) (less : c < n) (isIdle : idle c = true) :
    idle (spawnChoice n idle len) = true :=
  (spawnScanned_idle n idle len).2 ((spawnScanned_idle n idle len).1 c less isIdle)

def Seen (running : List Nat) (idle : Nat → Bool) : Prop :=
  ∀ c, c ∉ running → idle c = (boot 1).kernel.idle c

def Choice (n : Nat) (running : List Nat) (home : Nat) : Prop :=
  ∃ idle len, Seen running idle ∧ spawnChoice n idle len = home

structure Written (p : Pc) (t : Nat) (r r' : Thread) : Prop where
  tid : r'.tid = r.tid
  ctx : r'.ctx = r.ctx ∨ r'.ctx = .waited ∨ r'.ctx = .exited ∨
    ∃ y next, p = .yieldSwitch y t next ∧ r'.ctx = .yielded y
  state : r'.state = r.state ∨ r'.state ≠ .running
  home : r'.homeCpu = r.homeCpu ∨ ∃ u req, p = .spawnHome u t req r'.homeCpu

theorem written_same (p : Pc) (t : Nat) (r : Thread) : Written p t r r :=
  ⟨rfl, .inl rfl, .inl rfl, .inl rfl⟩

def Recorded (k : Kernel) (p : Pc) (t : Nat) (r' : Thread) : Prop :=
  (∃ r, k.threads t = some r ∧ Written p t r r') ∨
    (∃ u req, p = .spawnInsert u t req) ∧ r'.tid = t ∧ r'.ctx = .child ∧ r'.state = .ready ∧
      r'.homeCpu = 0

theorem recorded_same (p : Pc) (get : k.threads t = some r) :
    Recorded k p t r := .inl ⟨r, get, written_same p t r⟩

theorem setThread_get (get' : (k.setThread u new).threads t = some r') :
    t = u ∧ new = r' ∨ k.threads t = some r' := by
  by_cases same : t = u
  · subst same
    simp only [Kernel.setThread, Function.update_self, Option.some.injEq] at get'
    exact .inl ⟨rfl, get'⟩
  · simp only [Kernel.setThread, Function.update_of_ne same] at get'
    exact .inr get'

theorem recorded_setThread (get : k.threads u = some old)
    (get' : (k.setThread u new).threads t = some r') (written : Written p u old new) :
    Recorded k p t r' := by
  rcases setThread_get get' with ⟨rfl, rfl⟩ | kept
  · exact .inl ⟨old, get, written⟩
  · exact recorded_same p kept

theorem rescue_threads (k : Kernel) (i : Nat) (r : Thread) :
    (k.rescue i r).threads = (k.setThread i (r.rescued k.now)).threads := by
  unfold Kernel.rescue
  split <;> rfl

theorem settid_threads (k : Kernel) (tid : Nat) (req : CloneRequest) :
    (k.settid tid req).threads = k.threads := by
  obtain ⟨mem, eq⟩ := settid_eq k tid req
  rw [eq]

theorem effect_record (effect : Effect k c p k' p') (get' : k'.threads t = some r') :
    Recorded k p t r' := by
  cases effect with
  | rescue i addr r th get blocked threads queue rescued =>
    have same : (k.rescue i th).threads = threads := by rw [rescued]
    have written : threads t = some r' := get'
    rw [← same, rescue_threads] at written
    exact recorded_setThread get written
      ⟨rfl, .inl rfl, .inr ThreadState.noConfusion, .inl rfl⟩
  | switch y cur next r n get =>
    exact recorded_setThread get get'
      ⟨rfl, .inr (.inr (.inr ⟨y, next, rfl, rfl⟩)), .inl rfl, .inl rfl⟩
  | mark u addr val deadline tid r cur get | wake u addr count i woken th get blocked same room
  | exit u tid r cur get =>
    exact recorded_setThread get get'
      ⟨rfl, .inl rfl, .inr ThreadState.noConfusion, .inl rfl⟩
  | sleepSwitch tid next r n get other | sleepIdle tid r get =>
    exact recorded_setThread get get' ⟨rfl, .inr (.inl rfl), .inl rfl, .inl rfl⟩
  | finish u r get =>
    exact recorded_setThread get get' ⟨rfl, .inl rfl, .inl rfl, .inl rfl⟩
  | exitIdle tid r get =>
    exact recorded_setThread get get'
      ⟨rfl, .inr (.inr (.inl rfl)), .inl rfl, .inl rfl⟩
  | insert u tid req =>
    rcases setThread_get get' with ⟨rfl, rfl⟩ | kept
    · exact .inr ⟨⟨u, req, rfl⟩, rfl, rfl, rfl, rfl⟩
    · exact recorded_same _ kept
  | home u tid req best threads mem written =>
    have same : ((k.setHome tid best).settid tid req).threads = threads := by rw [written]
    have stored : threads t = some r' := get'
    rw [← same, settid_threads] at stored
    unfold Kernel.setHome at stored
    split at stored
    · rename_i r get
      exact recorded_setThread get stored ⟨rfl, .inl rfl, .inl rfl, .inr ⟨u, req, rfl⟩⟩
    · exact recorded_same _ stored
  | _ => exact recorded_same _ get'

end TynKernel.Sched
