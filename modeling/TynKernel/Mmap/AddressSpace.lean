import TynKernel.Lib.Runs
import TynKernel.Lib.Tiling
import TynKernel.Mmap.FreeRegions

/-!
sys_mmap and sys_munmap as threads interleave in them. A step is one critical section of the
FREE_REGIONS lock, one load of MMAP_NEXT or one compare-exchange on it. The field live is not
part of the kernel, and what mmap writes into the mapped memory is left out.
-/
namespace TynKernel.Mmap
open Function Regions Runs

def mmapBase : Nat := 0x1A000000
def mmapLimit : Nat := 0xA0000000
def mapFixed : BitVec 32 := 0x10

def pageAlign (length : Nat) : Nat := (length + 0xFFF) % 2 ^ 64 / 4096 * 4096

def saturatingAdd (a b : Nat) : Nat := min (a + b) (2 ^ 64 - 1)

/-- Where a thread stands: outside the calls with the last result in rax, before a load of
    MMAP_NEXT, or before the compare-exchange that follows a load of cur. -/
inductive Pc where
  | user (rax : Int)
  | load (len : Nat)
  | cas (len cur : Nat)
  deriving DecidableEq, Repr

structure State where
  next : Nat
  free : List Region
  live : List Region
  pc : Nat → Pc

inductive Action where
  | mmap (i addr length : Nat) (flags : BitVec 32)
  | munmap (i addr length : Nat)
  | resume (i : Nat)

def Action.thread : Action → Nat
  | .mmap i _ _ _ => i
  | .munmap i _ _ => i
  | .resume i => i

def initial : State := ⟨mmapBase, [], [], fun _ => .user 0⟩

def State.goto (s : State) (i : Nat) (pc : Pc) : State := { s with pc := Function.update s.pc i pc }

def Fixed (addr : Nat) (flags : BitVec 32) : Prop := addr ≠ 0 ∧ flags &&& mapFixed ≠ 0

instance (addr : Nat) (flags : BitVec 32) : Decidable (Fixed addr flags) :=
  inferInstanceAs (Decidable (_ ∧ _))

def sysMmap (s : State) (i addr length : Nat) (flags : BitVec 32) : State :=
  let aligned := pageAlign length
  if Fixed addr flags then
    if mmapLimit < saturatingAdd addr aligned then s.goto i (.user (-12))
    else
      { s with
        free := freeRegionsDropRange s.free addr aligned
        live := add (addr, aligned) (punch (addr, aligned) s.live) }.goto i (.user addr)
  else
    match freeRegionsTake s.free aligned with
    | some (reused, free) =>
      { s with free := free, live := add (reused, aligned) s.live }.goto i (.user reused)
    | none => s.goto i (.load aligned)

def mmapLoad (s : State) (i len : Nat) : State :=
  if mmapLimit < saturatingAdd s.next len then s.goto i (.user (-12))
  else s.goto i (.cas len s.next)

def mmapCas (s : State) (i len cur : Nat) : State :=
  if s.next = cur then
    { s with next := saturatingAdd cur len, live := add (cur, len) s.live }.goto i (.user cur)
  else s.goto i (.load len)

def sysMunmap (s : State) (i addr length : Nat) : State :=
  if addr = 0 ∨ length = 0 then s.goto i (.user (-22))
  else
    let alignedAddr := addr / 4096 * 4096
    let alignedLen := pageAlign (length + (addr - alignedAddr))
    if mmapBase ≤ alignedAddr ∧ (alignedAddr + alignedLen) % 2 ^ 64 ≤ mmapLimit then
      { s with
        free := freeRegionsAdd s.free alignedAddr alignedLen
        live := punch (alignedAddr, alignedLen) s.live }.goto i (.user 0)
    else s.goto i (.user 0)

def step (s : State) : Action → Option State
  | .mmap i addr length flags =>
    match s.pc i with
    | .user _ => some (sysMmap s i addr length flags)
    | _ => none
  | .munmap i addr length =>
    match s.pc i with
    | .user _ => some (sysMunmap s i addr length)
    | _ => none
  | .resume i =>
    match s.pc i with
    | .user _ => none
    | .load len => some (mmapLoad s i len)
    | .cas len cur => some (mmapCas s i len cur)

def Mapped (s : State) (addr length : Nat) : Prop :=
  ∀ x, Inside x (addr, length) → Covers s.live x

/-- What callers keep to: sizes are u64 values, fixed addresses are page aligned and lie in
    the managed range, and munmap names mapped memory. -/
def Managed (s : State) : Action → Prop
  | .mmap _ addr length flags =>
    length < 2 ^ 64 ∧
      (Fixed addr flags → 4096 ∣ addr ∧ mmapBase ≤ addr ∧ addr < mmapLimit)
  | .munmap _ addr length => Mapped s addr length
  | .resume _ => True

def FixedBelowNext (s : State) : Action → Prop
  | .mmap _ addr length flags =>
    Fixed addr flags → saturatingAdd addr (pageAlign length) ≤ mmapLimit →
      addr + pageAlign length ≤ s.next
  | _ => True

inductive Outcome (s : State) : Action → State → Prop where
  | reject {i addr length : Nat} {flags : BitVec 32} (fixed : Fixed addr flags) :
      Outcome s (.mmap i addr length flags) (s.goto i (.user (-12)))
  | replace {i addr length : Nat} {flags : BitVec 32} (fixed : Fixed addr flags)
      (accepted : saturatingAdd addr (pageAlign length) ≤ mmapLimit) :
      Outcome s (.mmap i addr length flags)
        ({ s with
          free := freeRegionsDropRange s.free addr (pageAlign length)
          live := add (addr, pageAlign length) (punch (addr, pageAlign length) s.live) }.goto i
            (.user addr))
  | reuse {i addr length reused : Nat} {flags : BitVec 32} {free : List Region}
      (notFixed : ¬ Fixed addr flags)
      (found : freeRegionsTake s.free (pageAlign length) = some (reused, free)) :
      Outcome s (.mmap i addr length flags)
        ({ s with free := free, live := add (reused, pageAlign length) s.live }.goto i
          (.user reused))
  | search {i addr length : Nat} {flags : BitVec 32} (notFixed : ¬ Fixed addr flags)
      (missing : freeRegionsTake s.free (pageAlign length) = none) :
      Outcome s (.mmap i addr length flags) (s.goto i (.load (pageAlign length)))
  | ignore {i addr length : Nat} (rax : Int) (code : rax ≠ -12) :
      Outcome s (.munmap i addr length) (s.goto i (.user rax))
  | release {i addr length : Nat} (nonempty : length ≠ 0) (alignedAddr alignedLen : Nat)
      (floor : alignedAddr = addr / 4096 * 4096)
      (ceil : alignedLen = pageAlign (length + (addr - alignedAddr))) :
      Outcome s (.munmap i addr length)
        ({ s with
          free := freeRegionsAdd s.free alignedAddr alignedLen
          live := punch (alignedAddr, alignedLen) s.live }.goto i (.user 0))
  | full {i len : Nat} (here : s.pc i = .load len)
      (room : mmapLimit < saturatingAdd s.next len) :
      Outcome s (.resume i) (s.goto i (.user (-12)))
  | read {i len : Nat} (here : s.pc i = .load len)
      (room : saturatingAdd s.next len ≤ mmapLimit) :
      Outcome s (.resume i) (s.goto i (.cas len s.next))
  | bump {i len : Nat} (here : s.pc i = .cas len s.next) :
      Outcome s (.resume i)
        ({ s with next := saturatingAdd s.next len, live := add (s.next, len) s.live }.goto i
          (.user s.next))
  | retry {i len cur : Nat} (here : s.pc i = .cas len cur) (moved : s.next ≠ cur) :
      Outcome s (.resume i) (s.goto i (.load len))

variable {s s' : State} {a : Action} {i len : Nat} {past : List (State × Action)} {r : Region}

theorem sysMmap_outcome (s : State) (i addr length : Nat) (flags : BitVec 32) :
    Outcome s (.mmap i addr length flags) (sysMmap s i addr length flags) := by
  unfold sysMmap
  simp only
  split
  · rename_i fixed
    split
    · exact .reject fixed
    · rename_i accepted
      exact .replace fixed (Nat.le_of_not_lt accepted)
  · rename_i notFixed
    split
    · rename_i found
      exact .reuse notFixed found
    · rename_i missing
      exact .search notFixed missing

theorem sysMunmap_outcome (s : State) (i addr length : Nat) :
    Outcome s (.munmap i addr length) (sysMunmap s i addr length) := by
  unfold sysMunmap
  split
  · exact .ignore (-22) (by decide)
  rename_i valid
  simp only
  split
  · exact .release (not_or.mp valid).2 _ _ rfl rfl
  · exact .ignore 0 (by decide)

theorem step_outcome (taken : step s a = some s') : Outcome s a s' := by
  cases a with
  | mmap i addr length flags =>
    simp only [step] at taken
    split at taken
    · obtain rfl := Option.some.inj taken
      exact sysMmap_outcome s i addr length flags
    · cases taken
  | munmap i addr length =>
    simp only [step] at taken
    split at taken
    · obtain rfl := Option.some.inj taken
      exact sysMunmap_outcome s i addr length
    · cases taken
  | resume =>
    simp only [step] at taken
    split at taken
    · cases taken
    · rename_i len here
      obtain rfl := Option.some.inj taken
      unfold mmapLoad
      split
      · rename_i room
        exact .full here room
      · rename_i room
        exact .read here (Nat.le_of_not_lt room)
    · rename_i len cur here
      obtain rfl := Option.some.inj taken
      unfold mmapCas
      split
      · rename_i same
        subst same
        exact .bump here
      · rename_i moved
        exact .retry here moved

def Pc.Checked : Pc → Prop
  | .user _ => True
  | .load len => 4096 ∣ len
  | .cas len cur => 4096 ∣ len ∧ cur + len ≤ mmapLimit

structure Tiled (s : State) : Prop where
  tiles : Tiles 4096 mmapBase s.next s.live s.free
  limit : s.next ≤ mmapLimit
  checked : ∀ i, (s.pc i).Checked

theorem Tiled.freePos (tiled : Tiled s) : ∀ r ∈ s.free, 0 < r.2 :=
  fun r hr => tiled.tiles.pos r (List.mem_append_right _ hr)

theorem Tiled.freeFits (tiled : Tiled s) : ∀ r ∈ s.free, Fits r := by
  intro r hr
  have bound := (tiles_entry_bound tiled.tiles (List.mem_append_right _ hr)).2
  have limit := tiled.limit
  simp only [Fits, mmapLimit] at *
  omega

theorem pageAlign_dvd (length : Nat) : 4096 ∣ pageAlign length :=
  Nat.dvd_mul_left 4096 _

theorem tiled_initial : Tiled initial := by
  refine ⟨tiles_empty ⟨0x1A000, rfl⟩, by decide, ?_⟩
  intro i
  exact trivial

theorem saturatingAdd_eq {a b : Nat} (low : saturatingAdd a b ≤ mmapLimit) :
    saturatingAdd a b = a + b := by
  simp only [saturatingAdd, mmapLimit] at *
  omega

theorem goto_tiled {t : State} (tiled : Tiled s) (same : t.pc = s.pc)
    (tiles : Tiles 4096 mmapBase t.next t.live t.free) (limit : t.next ≤ mmapLimit)
    (here : pc.Checked) : Tiled (t.goto i pc) := by
  refine ⟨tiles, limit, ?_⟩
  intro j
  simp only [State.goto, update_apply, same]
  split
  · exact here
  · exact tiled.checked j

theorem munmap_range (tiled : Tiled s) (mapped : Mapped s addr length) (nonempty : length ≠ 0)
    (floor : alignedAddr = addr / 4096 * 4096)
    (ceil : alignedLen = pageAlign (length + (addr - alignedAddr))) :
    0 < alignedLen ∧ Fits (alignedAddr, alignedLen) ∧ Aligned 4096 (alignedAddr, alignedLen) ∧
      ∀ x, Inside x (alignedAddr, alignedLen) → Covers s.live x := by
  have last := mapped (addr + length - 1) (by simp only [Inside]; omega)
  have bound := (tiled.tiles.exact_cover _).mp (by rw [covers_append]; exact .inl last)
  have limit := tiled.limit
  simp only [mmapLimit] at limit
  have exactly : alignedLen = (length + (addr - alignedAddr) + 0xFFF) / 4096 * 4096 := by
    rw [ceil, pageAlign, Nat.mod_eq_of_lt (by omega)]
  have whole : Aligned 4096 (alignedAddr, alignedLen) :=
    ⟨floor ▸ Nat.dvd_mul_left 4096 _, ceil ▸ pageAlign_dvd _⟩
  refine ⟨by omega, by simp only [Fits]; omega, whole, ?_⟩
  intro x inside
  simp only [Inside] at inside
  have meets : Covers s.live (max addr (x / 4096 * 4096)) := by
    apply mapped
    simp only [Inside]
    omega
  exact tiles_same_page tiled.tiles (by decide) meets (by omega)

theorem step_tiled (tiled : Tiled s) (managed : Managed s a) (below : FixedBelowNext s a)
    (taken : step s a = some s') : Tiled s' := by
  cases step_outcome taken with
  | reject fixed | ignore rax code | full here room =>
    exact goto_tiled tiled rfl tiled.tiles tiled.limit trivial
  | @replace i addr length flags fixed accepted =>
    obtain ⟨aligned, low, _⟩ := managed.2 fixed
    have high := below fixed accepted
    have range : Fits (addr, pageAlign length) := by
      have limit := tiled.limit
      simp only [Fits, mmapLimit] at *
      omega
    have replaced := tiles_replace tiled.tiles ⟨aligned, pageAlign_dvd _⟩ low high
      (freeRegionsDropRange_perm tiled.freeFits range)
    exact goto_tiled tiled rfl replaced tiled.limit trivial
  | reuse notFixed found =>
    have shorter := tiles_take tiled.tiles (freeRegionsTake_carved tiled.freeFits found) (pageAlign_dvd _)
    exact goto_tiled tiled rfl shorter tiled.limit trivial
  | search =>
    exact goto_tiled tiled rfl tiled.tiles tiled.limit (pageAlign_dvd _)
  | release nonempty alignedAddr alignedLen floor ceil =>
    obtain ⟨pos, range, aligned, used⟩ := munmap_range tiled managed nonempty floor ceil
    have released := tiles_release tiled.tiles pos aligned used
      (freeRegionsAdd_inserted tiled.freeFits range tiled.freePos)
    exact goto_tiled tiled rfl released.1 tiled.limit trivial
  | @read i len here room =>
    have whole := tiled.checked i
    rw [here] at whole
    rw [saturatingAdd_eq room] at room
    exact goto_tiled tiled rfl tiled.tiles tiled.limit ⟨whole, room⟩
  | @bump i len here =>
    have checked := tiled.checked i
    rw [here] at checked
    have sum : saturatingAdd s.next len = s.next + len := by
      have := checked.2
      simp only [saturatingAdd, mmapLimit] at *
      omega
    rw [sum]
    exact goto_tiled tiled rfl (tiles_grow tiled.tiles checked.1) checked.2 trivial
  | @retry i len cur here =>
    have checked := tiled.checked i
    rw [here] at checked
    exact goto_tiled tiled rfl tiled.tiles tiled.limit checked.1

theorem run_tiled (run : Run step initial past s)
    (allowed : ∀ e ∈ past, Managed e.1 e.2 ∧ FixedBelowNext e.1 e.2) : Tiled s :=
  run_invariant_of (fun s a => Managed s a ∧ FixedBelowNext s a) Tiled tiled_initial
    (fun _ _ _ tiled ok taken => step_tiled tiled ok.1 ok.2 taken) run allowed

def Plain (s : State) : Action → Prop
  | .mmap _ addr length flags => ¬ Fixed addr flags ∧ 0 < length ∧ length < 2 ^ 63
  | .munmap _ addr length => Mapped s addr length
  | .resume _ => True

theorem plain_allowed (plain : Plain s a) :
    Managed s a ∧ FixedBelowNext s a := by
  cases a with
  | mmap =>
    obtain ⟨notFixed, _, bound⟩ := plain
    exact ⟨⟨by omega, fun fixed => absurd fixed notFixed⟩, fun fixed => absurd fixed notFixed⟩
  | munmap => exact ⟨plain, trivial⟩
  | resume => exact ⟨trivial, trivial⟩

theorem step_coalesced (tiled : Tiled s) (coal : Coalesced s.free) (plain : Plain s a)
    (taken : step s a = some s') : Coalesced s'.free := by
  cases step_outcome taken with
  | reject fixed | replace fixed accepted => exact absurd fixed plain.1
  | reuse notFixed found =>
    have freeSep := (separate_append.mp tiled.tiles.separate).2.1
    exact carved_coalesced (freeRegionsTake_carved tiled.freeFits found) tiled.freePos freeSep coal
  | release nonempty alignedAddr alignedLen floor ceil =>
    obtain ⟨pos, range, aligned, used⟩ := munmap_range tiled plain nonempty floor ceil
    have inserted := freeRegionsAdd_inserted tiled.freeFits range tiled.freePos
    have apart := (tiles_release tiled.tiles pos aligned used inserted).2
    exact inserted_coalesced inserted pos tiled.freePos apart coal
  | search | ignore | full | read | bump | retry => exact coal

theorem run_coalesced (run : Run step initial past s) (plain : ∀ e ∈ past, Plain e.1 e.2) :
    Tiled s ∧ Coalesced s.free := by
  refine run_invariant_of Plain (fun s => Tiled s ∧ Coalesced s.free)
    ⟨tiled_initial, List.Pairwise.nil⟩ ?_ run plain
  intro s a s' inv ok taken
  have allowed := plain_allowed ok
  exact ⟨step_tiled inv.1 allowed.1 allowed.2 taken, step_coalesced inv.1 inv.2 ok taken⟩

def Unchanged (s s' : State) : Prop := s'.next = s.next ∧ s'.free = s.free ∧ s'.live = s.live

def SearchFails (i len : Nat) (s : State) (a : Action) : Prop :=
  (∃ addr length flags, a = .mmap i addr length flags ∧ pageAlign length = len) ∧
    (∀ r ∈ s.free, r.2 < len) ∧ ∀ s', step s a = some s' → Unchanged s s'

def LeavesOrChanges (i : Nat) (s : State) (a : Action) : Prop :=
  a.thread = i ∧ ¬ (a = .resume i ∧ ∀ s', step s a = some s' → Unchanged s s')

def Looping (i len : Nat) (s : State) : Prop :=
  s.pc i = .load len ∨ ∃ cur, s.pc i = .cas len cur

theorem step_other_pc (other : i ≠ a.thread) (taken : step s a = some s') : s'.pc i = s.pc i := by
  cases step_outcome taken <;> exact update_of_ne other _ _

theorem tiled_search_fails (tiled : Tiled s) (missing : freeRegionsTake s.free len = none) :
    ∀ r ∈ s.free, r.2 < len := by
  apply freeRegionsTake_none _ missing
  intro r hr
  have bound := (tiles_entry_bound tiled.tiles (List.mem_append_right _ hr)).2
  have limit := tiled.limit
  simp only [mmapLimit] at limit
  omega

theorem looping_own (taken : step s a = some s') (inside : Looping a.thread len s') :
    Unchanged s s' ∧ ((∃ addr length flags, a = .mmap a.thread addr length flags ∧
      pageAlign length = len ∧ freeRegionsTake s.free len = none) ∨
      (a = .resume a.thread ∧ Looping a.thread len s)) := by
  cases step_outcome taken with
  | @search i addr length flags notFixed missing =>
    simp only [Looping, Action.thread, State.goto, update_self, Pc.load.injEq,
      reduceCtorEq, exists_false, or_false] at inside
    subst inside
    exact ⟨⟨rfl, rfl, rfl⟩, .inl ⟨addr, length, flags, rfl, rfl, missing⟩⟩
  | @read i len' here =>
    simp only [Looping, Action.thread, State.goto, update_self, Pc.cas.injEq,
      reduceCtorEq, false_or] at inside
    obtain ⟨cur, rfl, _⟩ := inside
    exact ⟨⟨rfl, rfl, rfl⟩, .inr ⟨rfl, .inl here⟩⟩
  | @retry i len' cur here =>
    simp only [Looping, Action.thread, State.goto, update_self, Pc.load.injEq,
      reduceCtorEq, exists_false, or_false] at inside
    subst inside
    exact ⟨⟨rfl, rfl, rfl⟩, .inr ⟨rfl, .inr ⟨cur, here⟩⟩⟩
  | reject | replace | reuse | ignore | release | full | bump =>
    simp [Looping, Action.thread, State.goto] at inside

theorem step_looping (tiled : Tiled s) (taken : step s a = some s') (inside : Looping i len s') :
    SearchFails i len s a ∨ (Looping i len s ∧ ¬ LeavesOrChanges i s a) := by
  by_cases own : i = a.thread
  · subst own
    obtain ⟨same, cause⟩ := looping_own taken inside
    have unchanged : ∀ t, step s a = some t → Unchanged s t := by
      intro t done
      rw [Option.some.inj (done.symm.trans taken)]
      exact same
    rcases cause with ⟨addr, length, flags, call, aligned, missing⟩ | ⟨resumes, before⟩
    · exact .inl ⟨⟨addr, length, flags, call, aligned⟩, tiled_search_fails tiled missing,
        unchanged⟩
    · exact .inr ⟨before, fun leaves => leaves.2 ⟨resumes, unchanged⟩⟩
  · refine .inr ⟨?_, fun leaves => own leaves.1.symm⟩
    simpa only [Looping, step_other_pc own taken] using inside

theorem enomem_step (plain : Plain s a) (taken : step s a = some s')
    (returned : s'.pc a.thread = .user (-12)) :
    ∃ len, s.pc a.thread = .load len ∧ mmapLimit < s.next + len ∧ Unchanged s s' := by
  cases step_outcome taken with
  | reject fixed | replace fixed accepted => exact absurd fixed plain.1
  | full here room =>
    refine ⟨_, here, ?_, rfl, rfl, rfl⟩
    simp only [saturatingAdd] at room
    omega
  | ignore rax code =>
    simp only [Action.thread, State.goto, update_self, Pc.user.injEq] at returned
    exact absurd returned code
  | reuse | search | release | read | bump | retry =>
    simp [Action.thread, State.goto] at returned
    try omega

/-- Live mappings and free entries partition the addresses handed out so far, free entries
    are coalesced, and a call fails only when neither place had room, without a trace. -/
theorem mmap_partitions_address_space {past : List (State × Action)} {s : State}
    (run : Run step initial past s) (plain : ∀ e ∈ past, Plain e.1 e.2) :
    Tiles 4096 mmapBase s.next s.live s.free ∧ s.next ≤ mmapLimit ∧ Coalesced s.free ∧
      ∀ a s', Plain s a → step s a = some s' → s'.pc a.thread = .user (-12) →
        ∃ len, s.pc a.thread = .load len ∧ mmapLimit < s.next + len ∧ Unchanged s s' ∧
          Since (SearchFails a.thread len) (LeavesOrChanges a.thread) past := by
  obtain ⟨tiled, coal⟩ := run_coalesced run plain
  refine ⟨tiled.tiles, tiled.limit, coal, ?_⟩
  intro a s' ok taken returned
  obtain ⟨len, here, room, unchanged⟩ := enomem_step ok taken returned
  refine ⟨len, here, room, unchanged, ?_⟩
  refine run_since Plain Tiled (Looping a.thread len) _ _ tiled_initial ?_ ?_ ?_ run plain
    (.inl here)
  · simp [Looping, initial]
  · intro t b t' inv fine done
    have allowed := plain_allowed fine
    exact step_tiled inv allowed.1 allowed.2 done
  · intro t b t' inv fine done inside
    exact step_looping inv done inside

theorem mmap_partitions_after_refusal :
    ∃ past s, Run step initial past s ∧ s.free = [(mmapBase, 4096)] ∧
      Tiles 4096 mmapBase s.next s.live s.free ∧
      Since (SearchFails 0 (2 ^ 62)) (LeavesOrChanges 0) past := by
  have first : Run step initial _ _ :=
    Run.snoc (a := .mmap 0 0 0x1000 0x22) Run.nil rfl
  have second := Run.snoc (a := .resume 0) (Run.snoc (a := .resume 0) first rfl) rfl
  have third := Run.snoc (a := .munmap 0 mmapBase 0x1000) second rfl
  have run := Run.snoc (a := .mmap 0 0 (2 ^ 62) 0x22) third rfl
  have facts := mmap_partitions_address_space run (by
    intro e member
    simp only [List.mem_cons, List.not_mem_nil, or_false] at member
    rcases member with rfl | rfl | rfl | rfl | rfl
    · exact ⟨by decide, by decide, by decide⟩
    · exact fun x inside => ⟨(mmapBase, 4096), by decide, inside⟩
    · exact trivial
    · exact trivial
    · exact ⟨by decide, by decide, by decide⟩)
  obtain ⟨len, here, _, _, since⟩ := facts.2.2.2 (.resume 0) _ trivial rfl rfl
  have length : Pc.load (pageAlign (2 ^ 62)) = .load len := here
  rw [Pc.load.injEq, show pageAlign (2 ^ 62) = 2 ^ 62 by decide] at length
  rw [← length] at since
  exact ⟨_, _, run, by decide, facts.1, since⟩

def handedOut (s : State) : Action → Option Region
  | .mmap _ addr length flags =>
    if Fixed addr flags then none
    else (freeRegionsTake s.free (pageAlign length)).map fun taken => (taken.1, pageAlign length)
  | .munmap _ _ _ => none
  | .resume i =>
    match s.pc i with
    | .cas len cur => if s.next = cur then some (cur, len) else none
    | _ => none

theorem handedOut_returned (taken : step s a = some s') (given : handedOut s a = some r) :
    s'.pc a.thread = .user r.1 := by
  cases step_outcome taken with
  | reject fixed | replace fixed accepted => simp [handedOut, fixed] at given
  | reuse notFixed found =>
    simp only [handedOut, if_neg notFixed, found, Option.map_some, Option.some.injEq] at given
    subst given
    exact update_self _ _ _
  | search notFixed missing => simp [handedOut, notFixed, missing] at given
  | ignore | release => simp [handedOut] at given
  | full here | read here => simp [handedOut, here] at given
  | bump here =>
    simp only [handedOut, here, if_true, Option.some.injEq] at given
    subst given
    exact update_self _ _ _
  | retry here moved => simp [handedOut, here, moved] at given

theorem handedOut_cases (given : handedOut s a = some r) :
    (∃ out, freeRegionsTake s.free r.2 = some (r.1, out)) ∨
      ∃ i, s.pc i = .cas r.2 s.next ∧ r.1 = s.next := by
  cases a with
  | munmap => cases given
  | mmap =>
    simp only [handedOut] at given
    split at given
    · cases given
    · obtain ⟨⟨start, out⟩, found, eq⟩ := Option.map_eq_some_iff.mp given
      subst eq
      exact .inl ⟨out, found⟩
  | resume i =>
    simp only [handedOut] at given
    split at given
    · rename_i len cur here
      split at given
      · rename_i same
        cases given
        exact .inr ⟨i, same ▸ here, same.symm⟩
      · cases given
    · cases given

theorem tiled_handedOut (tiled : Tiled s) (given : handedOut s a = some r) :
    ∀ x, Inside x r → ¬ Covers s.live x := by
  intro x inside used
  rcases handedOut_cases given with ⟨out, found⟩ | ⟨i, here, above⟩
  · have free := (carved_covers (freeRegionsTake_carved tiled.freeFits found) x).mpr
      (.inl inside)
    exact tiles_live_not_free tiled.tiles used free
  · have bound := (tiled.tiles.exact_cover x).mp (by rw [covers_append]; exact .inl used)
    have := inside.1
    omega

/-- As long as accepted fixed requests end at or below the bump pointer, a range handed out
    at an address of the kernel's choice meets no live mapping. -/
theorem handed_out_avoids_live {past : List (State × Action)} {s s' : State} {a : Action}
    {r : Region} (run : Run step initial past s)
    (managed : ∀ e ∈ past, Managed e.1 e.2) (below : ∀ e ∈ past, FixedBelowNext e.1 e.2)
    (taken : step s a = some s') (given : handedOut s a = some r) :
    s'.pc a.thread = .user r.1 ∧ ∀ x, Inside x r → ¬ Covers s.live x := by
  have tiled := run_tiled run (fun e member => ⟨managed e member, below e member⟩)
  exact ⟨handedOut_returned taken given, tiled_handedOut tiled given⟩

/-- A fixed mapping above the bump pointer is handed out again by the next call. -/
theorem fixed_above_next_handed_out_again :
    ∃ past s s', Run step initial past s ∧ (∀ e ∈ past, Managed e.1 e.2) ∧
      step s (.resume 1) = some s' ∧ s'.pc 1 = .user mmapBase ∧
      handedOut s (.resume 1) = some (mmapBase, 4096) ∧ Covers s.live mmapBase := by
  have fixed : Run step initial _ _ :=
    Run.snoc (a := .mmap 0 mmapBase 0x1000 0x32) Run.nil rfl
  have asked := Run.snoc (a := .mmap 1 0 0x1000 0x22) fixed rfl
  refine ⟨_, _, _, Run.snoc (a := .resume 1) asked rfl, ?_, rfl, rfl, by decide,
    (mmapBase, 4096), by decide, by decide⟩
  intro e member
  simp only [List.mem_cons, List.not_mem_nil, or_false] at member
  rcases member with rfl | rfl | rfl
  · exact trivial
  · exact ⟨by decide, fun fixed => absurd fixed (by decide)⟩
  · exact ⟨by decide, fun _ => by decide⟩

theorem handed_out_beside_fixed :
    ∃ past s, Run step initial past s ∧ (mmapBase + 4096, 4096) ∈ s.live ∧
      ∀ x, Inside x (mmapBase, 4096) → ¬ Covers s.live x := by
  have first : Run step initial _ _ :=
    Run.snoc (a := .mmap 0 0 0x3000 0x22) Run.nil rfl
  have second := Run.snoc (a := .resume 0) (Run.snoc (a := .resume 0) first rfl) rfl
  have third := Run.snoc (a := .munmap 0 mmapBase 0x3000) second rfl
  have run := Run.snoc (a := .mmap 0 (mmapBase + 4096) 0x1000 0x32) third rfl
  refine ⟨_, _, run, by decide, ?_⟩
  refine (handed_out_avoids_live (a := .mmap 1 0 0x1000 0x22) run ?_ ?_ rfl (by decide)).2
  · intro e member
    simp only [List.mem_cons, List.not_mem_nil, or_false] at member
    rcases member with rfl | rfl | rfl | rfl | rfl
    · exact ⟨by decide, fun _ => by decide⟩
    · exact fun x inside => ⟨(mmapBase, 0x3000), by decide, inside⟩
    · exact trivial
    · exact trivial
    · exact ⟨by decide, fun fixed => absurd fixed (by decide)⟩
  · intro e member
    simp only [List.mem_cons, List.not_mem_nil, or_false] at member
    rcases member with rfl | rfl | rfl | rfl | rfl
    · exact fun _ _ => by decide
    · exact trivial
    · exact trivial
    · exact trivial
    · exact fun fixed => absurd fixed (by decide)

end TynKernel.Mmap
