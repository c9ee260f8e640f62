import TynKernel.Mmap.Window

/-!
The bytes behind the mappings. sys_mmap clears a reused range of at most 64 MiB with the lock
released, and does not clear a range from the bump pointer.
-/
namespace TynKernel.Mmap.Zeroed
open Function Option Regions Runs

structure Fill where
  addr : Nat
  len : Nat
  done : Nat

/-- The allocator, the memory, what each thread has still to clear before its call returns,
    and the length of each thread's last call of mmap, which is not part of the kernel. -/
structure Machine where
  kernel : State
  ram : Nat → UInt8
  fill : Nat → Option Fill
  asked : Nat → Nat

inductive Act where
  | call (a : Action)
  | fill (i : Nat)
  | store (i x : Nat) (v : UInt8)

def zeroCap : Nat := 0x4000000

def reclaimed (s : State) : Action → Option Region
  | .mmap _ addr length flags =>
    if Fixed addr flags then
      if mmapLimit < saturatingAdd addr (pageAlign length) then none
      else some (addr, pageAlign length)
    else (freeRegionsTake s.free (pageAlign length)).map fun taken => (taken.1, pageAlign length)
  | _ => none

def eagerZero (s : State) (a : Action) : Option Fill :=
  (reclaimed s a).bind fun r => if r.2 ≤ zeroCap then some ⟨r.1, r.2, 0⟩ else none

def askedAfter (asked : Nat → Nat) : Action → Nat → Nat
  | .mmap i _ length _ => Function.update asked i length
  | _ => asked

def step (m : Machine) : Act → Option Machine
  | .call a =>
    match m.fill a.thread with
    | some _ => none
    | none =>
      (Mmap.step m.kernel a).map fun kernel =>
        { m with
          kernel := kernel
          fill := Function.update m.fill a.thread (eagerZero m.kernel a)
          asked := askedAfter m.asked a }
  | .fill i =>
    (m.fill i).map fun f =>
      if f.done < f.len then
        { m with
          ram := Function.update m.ram (f.addr + f.done) 0
          fill := Function.update m.fill i (some { f with done := f.done + 1 }) }
      else { m with fill := Function.update m.fill i none }
  | .store i x v =>
    match m.fill i, m.kernel.pc i with
    | none, .user _ => some { m with ram := Function.update m.ram x v }
    | _, _ => none

def boot (ram : Nat → UInt8) : Machine := ⟨Mmap.initial, ram, fun _ => none, fun _ => 0⟩

def Pending (m : Machine) (x : Nat) : Prop :=
  ∃ i f, m.fill i = some f ∧ Inside x (f.addr, f.len)

/-- No fixed addresses, lengths below 2^63, and user code that unmaps and writes only what a
    call has returned to it. -/
def Allowed (m : Machine) : Act → Prop
  | .call (.mmap _ addr length flags) => ¬ Fixed addr flags ∧ length < 2 ^ 63
  | .call (.munmap _ addr length) =>
    Mapped m.kernel addr length ∧ ∀ x, Inside x (addr, length) → ¬ Pending m x
  | .call (.resume _) => True
  | .fill _ => True
  | .store _ x _ => Covers m.kernel.live x ∧ ¬ Pending m x

def Act.serving : Act → Option Nat
  | .call (.mmap i _ _ _) => some i
  | .call (.resume i) => some i
  | .fill i => some i
  | _ => none

structure Clean (m : Machine) : Prop where
  tiled : Tiled m.kernel
  above : ∀ x, m.kernel.next ≤ x → x < mmapLimit → m.ram x = 0
  filled : ∀ i f, m.fill i = some f →
    f.len = pageAlign (m.asked i) ∧ m.kernel.pc i = .user f.addr ∧ f.done ≤ f.len ∧
      ∀ k, k < f.done → m.ram (f.addr + k) = 0
  loops : ∀ i len, Looping i len m.kernel → len = pageAlign (m.asked i)

variable {m m' : Machine} {a : Action} {i x : Nat} {s' : State} {f : Fill}
  {past : List (Machine × Act)}

theorem clean_boot (zero : ∀ x, mmapBase ≤ x → x < mmapLimit → ram x = 0) : Clean (boot ram) := by
  constructor
  · exact tiled_initial
  · exact zero
  · intro i f busy
    cases busy
  · intro i len inside
    simp [Looping, boot, initial] at inside

theorem allowed_managed (allowed : Allowed m (.call a)) :
    Managed m.kernel a ∧ FixedBelowNext m.kernel a := by
  cases a with
  | mmap =>
    have size := allowed.2
    exact ⟨⟨by omega, fun fixed => absurd fixed allowed.1⟩, fun fixed => absurd fixed allowed.1⟩
  | munmap => exact ⟨allowed.1, trivial⟩
  | resume => exact ⟨trivial, trivial⟩

theorem call_taken (taken : step m (.call a) = some m') :
    ∃ kernel, Mmap.step m.kernel a = some kernel ∧ m' =
      { m with
        kernel := kernel
        fill := update m.fill a.thread (eagerZero m.kernel a)
        asked := askedAfter m.asked a } := by
  simp only [step] at taken
  split at taken
  · cases taken
  · obtain ⟨kernel, done, eq⟩ := map_eq_some_iff.mp taken
    exact ⟨kernel, done, eq.symm⟩

theorem asked_other (other : i ≠ a.thread) : askedAfter asked a i = asked i := by
  cases a with
  | mmap => exact update_of_ne other _ _
  | munmap j addr length | resume j => rfl

theorem step_next_le (tiled : Tiled s) (taken : Mmap.step s a = some s') : s.next ≤ s'.next := by
  cases step_outcome taken with
  | bump =>
    have limit := tiled.limit
    simp only [State.goto, saturatingAdd, mmapLimit] at *
    omega
  | reject | replace | reuse | search | ignore | release | full | read | retry =>
    exact Nat.le_refl _

theorem eagerZero_own (allowed : Allowed m (.call a)) (taken : Mmap.step m.kernel a = some s')
    (busy : eagerZero m.kernel a = some f) :
    f.len = pageAlign (askedAfter m.asked a a.thread) ∧ s'.pc a.thread = .user f.addr ∧
      f.done = 0 := by
  obtain ⟨r, range, rest⟩ := bind_eq_some_iff.mp busy
  split at rest
  · obtain rfl := Option.some.inj rest
    cases step_outcome taken with
    | reject fixed | replace fixed accepted => exact absurd fixed allowed.1
    | @reuse i addr length reused flags free notFixed found =>
      simp only [reclaimed, if_neg notFixed, found, map_some, Option.some.injEq] at range
      subst range
      have asked : askedAfter m.asked (.mmap i addr length flags) i = length :=
        update_self _ _ _
      rw [Action.thread, asked]
      exact ⟨rfl, update_self _ _ _, rfl⟩
    | search notFixed missing => simp [reclaimed, notFixed, missing] at range
    | ignore | release | full | read | bump | retry => cases range
  · cases rest

theorem call_loops
    (loops : ∀ len, Looping a.thread len m.kernel → len = pageAlign (m.asked a.thread))
    (taken : Mmap.step m.kernel a = some s') (inside : Looping a.thread len s') :
    len = pageAlign (askedAfter m.asked a a.thread) := by
  rcases (looping_own taken inside).2 with ⟨addr, length, flags, call, rfl, _⟩ | ⟨resumes, before⟩
  · rw [call, askedAfter, Action.thread, update_self]
  · rw [loops len before, resumes]
    rfl

theorem call_clean (clean : Clean m) (allowed : Allowed m (.call a))
    (taken : step m (.call a) = some m') : Clean m' := by
  obtain ⟨kernel, done, rfl⟩ := call_taken taken
  have managed := allowed_managed allowed
  constructor
  · exact step_tiled clean.tiled managed.1 managed.2 done
  · intro x low high
    exact clean.above x (Nat.le_trans (step_next_le clean.tiled done) low) high
  · intro i f busy
    by_cases own : i = a.thread
    · subst own
      simp only [update_self] at busy
      obtain ⟨len, pc, zero⟩ := eagerZero_own allowed done busy
      exact ⟨len, pc, by omega, fun k less => absurd less (by omega)⟩
    · simp only [update_of_ne own] at busy
      obtain ⟨len, pc, rest⟩ := clean.filled i f busy
      simp only [asked_other own, step_other_pc own done]
      exact ⟨len, pc, rest⟩
  · intro i len inside
    by_cases own : i = a.thread
    · subst own
      exact call_loops (clean.loops a.thread) done inside
    · simp only [Looping, step_other_pc own done] at inside
      simp only [asked_other own]
      exact clean.loops i len inside

theorem update_zero {ram : Nat → UInt8} (zero : ram x = 0) :
    update ram y 0 x = 0 := by
  by_cases same : x = y
  · subst same
    exact update_self _ _ _
  · rw [update_of_ne same, zero]

theorem fill_clean (clean : Clean m) (taken : step m (.fill i) = some m') : Clean m' := by
  obtain ⟨f, busy, eq⟩ := map_eq_some_iff.mp taken
  obtain ⟨len, pc, part, zero⟩ := clean.filled i f busy
  split at eq
  · rename_i more
    subst eq
    refine ⟨clean.tiled, fun x low high => update_zero (clean.above x low high), ?_, clean.loops⟩
    intro j g busy'
    by_cases own : j = i
    · subst own
      simp only [update_self, Option.some.injEq] at busy'
      subst busy'
      refine ⟨len, pc, more, ?_⟩
      intro k less
      simp only at less ⊢
      by_cases last : k = f.done
      · subst last
        exact update_self _ _ _
      · exact update_zero (zero k (by omega))
    · simp only [update_of_ne own] at busy'
      obtain ⟨len', pc', part', zero'⟩ := clean.filled j g busy'
      exact ⟨len', pc', part', fun k less => update_zero (zero' k less)⟩
  · subst eq
    refine ⟨clean.tiled, clean.above, ?_, clean.loops⟩
    intro j g busy'
    by_cases own : j = i
    · subst own
      simp only [update_self, reduceCtorEq] at busy'
    · simp only [update_of_ne own] at busy'
      exact clean.filled j g busy'

theorem store_clean (clean : Clean m) (allowed : Allowed m (.store i x v))
    (taken : step m (.store i x v) = some m') : Clean m' := by
  obtain ⟨live, free⟩ := allowed
  have below := ((clean.tiled.tiles.exact_cover x).mp (by
    rw [covers_append]
    exact .inl live)).2
  simp only [step] at taken
  split at taken
  · obtain rfl := Option.some.inj taken
    refine ⟨clean.tiled, ?_, ?_, clean.loops⟩
    · intro y low high
      simp only at low ⊢
      rw [update_of_ne (by omega)]
      exact clean.above y low high
    · intro j f busy
      obtain ⟨len, pc, part, zero⟩ := clean.filled j f busy
      refine ⟨len, pc, part, ?_⟩
      intro k less
      have apart : f.addr + k ≠ x := by
        intro same
        apply free
        refine ⟨j, f, busy, ?_⟩
        simp only [Inside]
        omega
      simp only [update_of_ne apart]
      exact zero k less
  · cases taken

theorem step_clean {a : Act} (clean : Clean m) (allowed : Allowed m a)
    (taken : step m a = some m') : Clean m' := by
  cases a with
  | call => exact call_clean clean allowed taken
  | fill => exact fill_clean clean taken
  | store => exact store_clean clean allowed taken

theorem run_clean (zero : ∀ x, mmapBase ≤ x → x < mmapLimit → ram x = 0)
    (run : Run step (boot ram) past m) (allowed : ∀ e ∈ past, Allowed e.1 e.2) : Clean m :=
  run_invariant_of Allowed Clean (clean_boot zero)
    (fun _ _ _ clean ok taken => step_clean clean ok taken) run allowed

theorem pageAlign_le_cap (small : length ≤ zeroCap) : pageAlign length ≤ zeroCap := by
  simp only [pageAlign, zeroCap] at *
  omega

theorem reuse_busy {addr length : Nat} {flags : BitVec 32} {a : Nat}
    (allowed : Allowed m (.call (.mmap i addr length flags)))
    (taken : step m (.call (.mmap i addr length flags)) = some m') (back : m'.kernel.pc i = .user a)
    (small : m'.asked i ≤ zeroCap) : m'.fill i ≠ none := by
  obtain ⟨kernel, done, rfl⟩ := call_taken taken
  simp only [askedAfter, update_self] at small
  cases step_outcome done with
  | reject fixed | replace fixed accepted => exact absurd fixed allowed.1
  | reuse notFixed found =>
    simp [eagerZero, reclaimed, notFixed, found, Action.thread, pageAlign_le_cap small]
  | search => simp [State.goto] at back

theorem resume_zero {a : Nat} (clean : Clean m) (taken : step m (.call (.resume i)) = some m')
    (back : m'.kernel.pc i = .user a) (small : m'.asked i ≤ zeroCap) :
    ∀ x, Inside x (a, m'.asked i) → m'.ram x = 0 := by
  obtain ⟨kernel, done, rfl⟩ := call_taken taken
  cases step_outcome done with
  | full =>
    simp only [State.goto, update_self, Pc.user.injEq] at back
    omega
  | read here room | retry here moved => simp [State.goto] at back
  | @bump i len here =>
    simp only [State.goto, update_self, Pc.user.injEq, Int.natCast_inj] at back
    subst back
    have rounded := clean.loops i len (.inr ⟨_, here⟩)
    have checked := clean.tiled.checked i
    rw [here] at checked
    have whole : m.asked i ≤ pageAlign (m.asked i) := by
      apply le_pageAlign
      simp only [askedAfter, zeroCap] at small
      omega
    intro x inside
    have room := checked.2
    simp only [Inside, askedAfter] at inside
    exact clean.above x inside.1 (by omega)

theorem fill_zero {a : Nat} (clean : Clean m) (taken : step m (.fill i) = some m')
    (back : m'.kernel.pc i = .user a) (finished : m'.fill i = none) (small : m'.asked i ≤ zeroCap) :
    ∀ x, Inside x (a, m'.asked i) → m'.ram x = 0 := by
  obtain ⟨f, busy, eq⟩ := map_eq_some_iff.mp taken
  obtain ⟨len, pc, part, zero⟩ := clean.filled i f busy
  split at eq
  · subst eq
    simp only [update_self, reduceCtorEq] at finished
  subst eq
  simp only [pc, Pc.user.injEq, Int.natCast_inj] at back
  subst back
  have whole : m.asked i ≤ pageAlign (m.asked i) := by
    apply le_pageAlign
    simp only [zeroCap] at small
    omega
  intro x inside
  simp only [Inside] at inside
  have here := zero (x - f.addr) (by omega)
  rwa [Nat.add_sub_cancel' inside.1] at here

/-- A call of mmap for at most 64 MiB returns memory that is all zero, wherever it came from. -/
theorem fresh_mappings_zero {past : List (Machine × Act)} {m m' : Machine} {a : Act} {i addr : Nat}
    {ram : Nat → UInt8} (zero : ∀ x, mmapBase ≤ x → x < mmapLimit → ram x = 0)
    (run : Run step (boot ram) past m) (allowed : ∀ e ∈ past, Allowed e.1 e.2)
    (here : Allowed m a) (taken : step m a = some m') (serving : a.serving = some i)
    (back : m'.kernel.pc i = .user addr) (finished : m'.fill i = none)
    (small : m'.asked i ≤ 0x4000000) : ∀ x, Inside x (addr, m'.asked i) → m'.ram x = 0 := by
  have clean := run_clean zero run allowed
  cases a with
  | call a =>
    cases a with
    | mmap =>
      obtain rfl := Option.some.inj serving
      exact absurd finished (reuse_busy here taken back small)
    | munmap => cases serving
    | resume =>
      obtain rfl := Option.some.inj serving
      exact resume_zero clean taken back small
  | fill =>
    obtain rfl := Option.some.inj serving
    exact fill_zero clean taken back finished small
  | store => cases serving

theorem fill_completes (before : Run step start past m) (busy : m.fill i = some f) :
    ∃ later w f', Run step start (later ++ past) w ∧ (∀ e ∈ later, e.2 = .fill i) ∧
      w.kernel = m.kernel ∧ w.asked = m.asked ∧ w.fill i = some f' ∧ ¬ f'.done < f'.len := by
  induction left : f.len - f.done generalizing m f past with
  | zero => exact ⟨[], m, f, before, by simp, rfl, rfl, busy, by omega⟩
  | succ n ih =>
    let next : Machine :=
      { m with
        ram := update m.ram (f.addr + f.done) 0
        fill := update m.fill i (some { f with done := f.done + 1 }) }
    have taken : step m (.fill i) = some next := by
      simp [step, busy, if_pos (show f.done < f.len by omega), next]
    obtain ⟨later, w, f', run, own, kernel, asked, busy', complete⟩ :=
      ih (.snoc before taken) (update_self _ _ _) (by simp only; omega)
    refine ⟨later ++ [(m, .fill i)], w, f', by simpa using run, ?_, kernel, asked, busy', complete⟩
    intro e member
    rcases List.mem_append.mp member with late | early
    · exact own e late
    · rw [List.mem_singleton.mp early]

theorem stored_byte_zero_in_next_mapping :
    ∃ past m m', Run step (boot fun _ => 0) past m ∧
      (∃ e ∈ past, e.2 = .store 0 mmapBase 7) ∧ step m (.fill 1) = some m' ∧
      m'.kernel.pc 1 = .user mmapBase ∧ m'.ram mmapBase = 0 := by
  have first : Run step (boot fun _ => 0) _ _ :=
    Run.snoc (a := .call (.mmap 0 0 0x1000 0x22)) Run.nil rfl
  have second := Run.snoc (a := .call (.resume 0)) (Run.snoc (a := .call (.resume 0)) first rfl) rfl
  have third := Run.snoc (a := .store 0 mmapBase 7) second rfl
  have fourth := Run.snoc (a := .call (.munmap 0 mmapBase 0x1000)) third rfl
  have asks := Run.snoc (a := .call (.mmap 1 0 0x1000 0x22)) fourth rfl
  obtain ⟨later, w, f, run, own, kernel, asked, busy, complete⟩ :=
    fill_completes (i := 1) (f := ⟨mmapBase, 0x1000, 0⟩) asks rfl
  have taken : step w (.fill 1) = some { w with fill := update w.fill 1 none } := by
    simp [step, busy, if_neg complete]
  have back : w.kernel.pc 1 = .user mmapBase := by
    rw [kernel]
    decide
  have length : w.asked 1 = 0x1000 := by
    rw [asked]
    decide
  refine ⟨_, w, _, run, ?_, taken, back, ?_⟩
  · exact ⟨_, List.mem_append_right _ (List.mem_cons_of_mem _ (List.mem_cons_of_mem _
      List.mem_cons_self)), rfl⟩
  refine fresh_mappings_zero (a := .fill 1) (fun _ _ _ => rfl) run ?_ trivial taken rfl back
    (by simp only [update_self]) (by simp only [length]; decide) mmapBase
    (by simp only [Inside, length]; decide)
  intro e member
  have idle : ∀ {m : Machine} {x : Nat}, (∀ i, m.fill i = none) → ¬ Pending m x := by
    rintro m x all ⟨i, f, busy, _⟩
    rw [all i] at busy
    cases busy
  have page : ∀ x, Inside x (mmapBase, 0x1000) → Covers [(mmapBase, 0x1000)] x :=
    fun x inside => ⟨_, List.mem_singleton_self _, inside⟩
  rcases List.mem_append.mp member with late | early
  · rw [own e late]
    trivial
  simp only [List.mem_cons, List.not_mem_nil, or_false] at early
  rcases early with rfl | rfl | rfl | rfl | rfl | rfl
  · exact ⟨by decide, by decide⟩
  · refine ⟨page, fun x _ => idle ?_⟩
    intro i
    by_cases zero : i = 0
    · subst zero
      rfl
    · simp [update_of_ne zero, Action.thread, boot]
  · refine ⟨page _ (by decide), idle ?_⟩
    intro i
    by_cases zero : i = 0
    · subst zero
      rfl
    · simp [update_of_ne zero, Action.thread, boot]
  · exact trivial
  · exact trivial
  · exact ⟨by decide, by decide⟩

end TynKernel.Mmap.Zeroed
