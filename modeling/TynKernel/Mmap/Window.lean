import TynKernel.Mmap.AddressSpace

/-!
The managed window [MMAP_BASE, MMAP_LIMIT] under the 64-bit arithmetic of the two calls, which
round a length up before they look at it.
-/
namespace TynKernel.Mmap
open Function List Regions Runs
variable {free : List Region} {addr len i length : Nat} {r : Region} {s s' : State} {a : Action}

def InWindow (free : List Region) : Prop :=
  ∀ r ∈ free, mmapBase ≤ r.1 ∧ r.1 + r.2 ≤ mmapLimit

instance (free : List Region) : Decidable (InWindow free) :=
  inferInstanceAs (Decidable (∀ r ∈ free, _))

def Wraps (addr length : Nat) : Prop :=
  let alignedAddr := addr / 4096 * 4096
  let alignedLen := pageAlign (length + (addr - alignedAddr))
  addr ≠ 0 ∧ length ≠ 0 ∧ mmapBase ≤ alignedAddr ∧ 2 ^ 64 ≤ alignedAddr + alignedLen ∧
    alignedAddr + alignedLen ≤ 2 ^ 64 + mmapLimit

instance (addr length : Nat) : Decidable (Wraps addr length) :=
  inferInstanceAs (Decidable (_ ∧ _))

theorem inWindow_fits (window : InWindow free) : ∀ r ∈ free, Fits r := by
  intro r hr
  have := (window r hr).2
  simp only [Fits, mmapLimit] at *
  omega

theorem freeRegionsAdd_forall (P : Region → Prop) (fits : ∀ r, P r → Fits r)
    (joined : ∀ r q, Touches r q → P r → P q → P (join r q))
    (merged : ∀ r q, P r → P q → P (mergeRange r q)) (new : P (addr, len)) (old : ∀ r ∈ free, P r) :
    ∀ r ∈ freeRegionsAdd free addr len, P r := by
  unfold freeRegionsAdd
  cases first : extendEntry addr len free 0 with
  | none =>
    intro z hz
    rcases mem_append.mp hz with kept | added
    · exact old z kept
    · exact mem_singleton.mp added ▸ new
  | some found =>
    obtain ⟨i, range⟩ := found
    obtain ⟨m, r, index, get, touch, same⟩ :=
      extendEntry_some (fun r hr => fits r (old r hr)) (fits _ new) first
    have extended : P range := same ▸ joined r _ touch (old r (mem_of_getElem? get)) new
    have oldSet : ∀ z ∈ free.set i range, P z := by
      intro z hz
      rcases mem_or_eq_of_mem_set hz with kept | eq
      · exact old z kept
      · exact eq ▸ extended
    simp only
    cases second : secondEntry i range (free.set i range) 0 with
    | none => exact oldSet
    | some other =>
      obtain ⟨j, q⟩ := other
      obtain ⟨_, _, getq, _⟩ :=
        secondEntry_some (fun r hr => fits r (oldSet r hr)) (fits _ extended) second
      intro z hz
      rcases mem_or_eq_of_mem_set hz with kept | eq
      · exact oldSet z (mem_of_mem_eraseIdx kept)
      · exact eq ▸ merged range q extended (oldSet q (mem_of_getElem? getq))

theorem mergeRange_window (hr : mmapBase ≤ r.1 ∧ r.1 + r.2 ≤ mmapLimit)
    (hq : mmapBase ≤ q.1 ∧ q.1 + q.2 ≤ mmapLimit) :
    mmapBase ≤ (mergeRange r q).1 ∧ (mergeRange r q).1 + (mergeRange r q).2 ≤ mmapLimit := by
  simp only [mmapBase, mmapLimit] at *
  unfold mergeRange
  rw [wrappingAdd_eq (by omega), wrappingAdd_eq (by omega)]
  split
  rename_i lo hi pick
  split at pick <;> obtain ⟨rfl, rfl⟩ := Prod.mk.inj pick
  · rw [wrappingSub_eq (by omega) (by omega)]
    omega
  · rw [wrappingSub_eq (by omega) (by omega)]
    omega

theorem freeRegionsAdd_window (window : InWindow free) (low : mmapBase ≤ addr)
    (high : addr + len ≤ mmapLimit) :
    InWindow (freeRegionsAdd free addr len) := by
  apply freeRegionsAdd_forall (fun r => mmapBase ≤ r.1 ∧ r.1 + r.2 ≤ mmapLimit)
  · simp only [Fits, mmapLimit] at *
    omega
  · simp only [Touches, join] at *
    omega
  · intro r q hr hq
    exact mergeRange_window hr hq
  · exact ⟨low, high⟩
  · exact window

theorem freeRegionsTake_window {a : Nat} (window : InWindow free)
    (taken : freeRegionsTake free len = some (a, out)) :
    mmapBase ≤ a ∧ a + len ≤ mmapLimit ∧ InWindow out := by
  have carved := freeRegionsTake_carved (inWindow_fits window) taken
  obtain ⟨r, hr, start, fits⟩ := carved_source carved
  have bound := window r hr
  refine ⟨by omega, by omega, ?_⟩
  intro q hq
  obtain ⟨r, hr, within⟩ := carved_within carved q hq
  have bound := window r hr
  simp only [Within] at within
  omega

theorem freeRegionsDropRange_window (window : InWindow free) (range : Fits (addr, len)) :
    InWindow (freeRegionsDropRange free addr len) := by
  intro q hq
  have piece := (freeRegionsDropRange_perm (inWindow_fits window) range).mem_iff.mp hq
  obtain ⟨r, hr, piece⟩ := mem_punch.mp piece
  have bound := window r hr
  have within := (cut_within piece).1
  simp only [Within] at within
  omega

theorem pageAlign_lt (length : Nat) : pageAlign length < 2 ^ 64 := by
  simp only [pageAlign]
  omega

theorem munmap_window (window : InWindow s.free) (bound : addr < 2 ^ 64)
    (plain : ¬ Wraps addr length) :
    InWindow (sysMunmap s i addr length).free := by
  unfold sysMunmap
  split
  · exact window
  simp only
  split
  · rename_i tested
    have size := pageAlign_lt (length + (addr - addr / 4096 * 4096))
    have high : addr / 4096 * 4096 + pageAlign (length + (addr - addr / 4096 * 4096)) ≤
        mmapLimit := by
      simp only [Wraps] at plain
      omega
    exact freeRegionsAdd_window window tested.1 high
  · exact window

theorem munmap_wraps_initial (i : Nat) (wraps : Wraps addr length) :
    ¬ InWindow (sysMunmap initial i addr length).free := by
  obtain ⟨some_addr, some_length, low, over64, high⟩ := wraps
  have valid : ¬ (addr = 0 ∨ length = 0) := by omega
  have tested : (addr / 4096 * 4096 + pageAlign (length + (addr - addr / 4096 * 4096))) % 2 ^ 64 ≤
      mmapLimit := by
    omega
  simp only [sysMunmap, if_neg valid, if_pos (And.intro low tested), State.goto, initial,
    freeRegionsAdd, extendEntry, nil_append]
  intro window
  have := (window _ (mem_singleton.mpr rfl)).2
  simp only [mmapLimit] at this
  omega

structure Bumped (s : State) : Prop where
  low : mmapBase ≤ s.next
  limit : s.next ≤ mmapLimit
  room : ∀ i len cur, s.pc i = .cas len cur → cur + len ≤ mmapLimit

def Straight : Action → Prop
  | .munmap _ addr length => addr < 2 ^ 64 ∧ length < 2 ^ 64 ∧ ¬ Wraps addr length
  | _ => True

theorem goto_bumped {t : State} (inv : Bumped s) (same : t.pc = s.pc)
    (low : mmapBase ≤ t.next) (limit : t.next ≤ mmapLimit)
    (here : ∀ len cur, pc = .cas len cur → cur + len ≤ mmapLimit) : Bumped (t.goto i pc) := by
  refine ⟨low, limit, ?_⟩
  intro j len cur at_cas
  simp only [State.goto, update_apply, same] at at_cas
  split at at_cas
  · exact here len cur at_cas
  · exact inv.room j len cur at_cas

theorem step_bumped (inv : Bumped s) (taken : step s a = some s') :
    Bumped s' := by
  cases step_outcome taken with
  | reject | replace | reuse | search | ignore | release | full | retry =>
    exact goto_bumped inv rfl inv.low inv.limit (by simp)
  | read here room =>
    apply goto_bumped inv rfl inv.low inv.limit
    intro len cur eq
    cases eq
    rw [saturatingAdd_eq room] at room
    exact room
  | @bump i len here =>
    have room := inv.room i len s.next here
    have low := inv.low
    have sum : saturatingAdd s.next len = s.next + len := by
      simp only [saturatingAdd, mmapLimit] at *
      omega
    rw [sum]
    exact goto_bumped inv rfl (by simp only; omega) room (by simp)

theorem run_bumped (run : Run step initial past s) : Bumped s := by
  apply run_invariant Bumped ⟨Nat.le_refl _, by decide, by simp [initial]⟩ _ run
  intro t a t' inv taken
  exact step_bumped inv taken

theorem step_window {a : Action} (window : InWindow s.free) (straight : Straight a)
    (taken : step s a = some s') : InWindow s'.free := by
  cases a with
  | munmap =>
    simp only [step] at taken
    split at taken
    · obtain rfl := Option.some.inj taken
      exact munmap_window window straight.1 straight.2.2
    · cases taken
  | mmap =>
    cases step_outcome taken with
    | reject | search => exact window
    | replace fixed accepted =>
      apply freeRegionsDropRange_window window
      rw [saturatingAdd_eq accepted] at accepted
      simp only [Fits, mmapLimit] at *
      omega
    | reuse notFixed found => exact (freeRegionsTake_window window found).2.2
  | resume =>
    cases step_outcome taken <;> exact window

theorem handedOut_window (inv : Bumped s) (window : InWindow s.free)
    (given : handedOut s a = some r) :
    mmapBase ≤ r.1 ∧ r.1 + r.2 ≤ mmapLimit := by
  rcases handedOut_cases given with ⟨out, found⟩ | ⟨i, here, above⟩
  · have inside := freeRegionsTake_window window found
    exact ⟨inside.1, inside.2.1⟩
  · rw [above]
    exact ⟨inv.low, inv.room i r.2 s.next here⟩

/-- The arguments of munmap that keep every free list inside the window, and with it all
    that mmap hands out until a munmap wraps around, are those whose range does not wrap. -/
theorem munmap_window_iff {addr length : Nat} (address : addr < 2 ^ 64) (size : length < 2 ^ 64) :
    (∀ past s i s', Run step initial past s → InWindow s.free →
      step s (.munmap i addr length) = some s' →
        InWindow s'.free ∧
          ∀ later t, Run step s' later t → (∀ e ∈ later, Straight e.2) →
            ∀ a r, handedOut t a = some r → mmapBase ≤ r.1 ∧ r.1 + r.2 ≤ mmapLimit) ↔
      ¬ Wraps addr length := by
  constructor
  · intro all wraps
    have after := all [] initial 0 _ .nil (by simp [InWindow, initial]) rfl
    exact munmap_wraps_initial 0 wraps after.1
  intro plain past s i s' run window taken
  have straight : Straight (.munmap i addr length) := ⟨address, size, plain⟩
  have here := step_window window straight taken
  refine ⟨here, ?_⟩
  intro later t after calls a r given
  have bumped := run_bumped (run_append (.snoc run taken) after)
  have later_window := run_invariant_of (fun _ a => Straight a) (fun t => InWindow t.free) here
    (fun _ _ _ window ok taken => step_window window ok taken) after calls
  exact handedOut_window bumped later_window given

theorem munmap_window_last_page :
    ∃ s', step initial (.munmap 0 (mmapLimit - 4096) 4096) = some s' ∧ InWindow s'.free := by
  have plain : ¬ Wraps (mmapLimit - 4096) 4096 := by decide
  have kept := (munmap_window_iff (by decide) (by decide)).mpr plain
  exact ⟨_, rfl, (kept [] initial 0 _ .nil (by decide) rfl).1⟩

/-- A length that reaches from MMAP_BASE to 2^64 is taken for an end at 0; the window is then
    handed out as a whole and the next call gets the page behind it. -/
theorem munmap_wraps_beyond_window :
    ∃ past s, Run step initial past s ∧
      (∀ e ∈ past, ∀ i addr length, e.2 = .munmap i addr length →
        addr < 2 ^ 64 ∧ length < 2 ^ 64) ∧
      ¬ InWindow s.free ∧ handedOut s (.mmap 1 0 0x1000 0x22) = some (mmapLimit, 4096) := by
  have first : Run step initial _ _ :=
    Run.snoc (a := .munmap 0 mmapBase (2 ^ 64 - mmapBase)) Run.nil rfl
  have run := Run.snoc (a := .mmap 0 0 (mmapLimit - mmapBase) 0x22) first rfl
  refine ⟨_, _, run, ?_, by decide, by decide⟩
  intro e member i addr length eq
  simp only [mem_cons, not_mem_nil, or_false] at member
  rcases member with rfl | rfl
  · cases eq
  · cases eq
    decide

def Serves (length : Nat) (s : State) : Action → Prop
  | .mmap _ addr asked flags => asked = length ∧ ¬ Fixed addr flags
  | .munmap _ _ _ => False
  | .resume i => Looping i (pageAlign length) s

/-- The value returned by the step from s to s' is the address of length bytes of the window
    that no mapping uses, or -ENOMEM with nothing changed. -/
def Delivers (s s' : State) (length : Nat) (rax : Int) : Prop :=
  (0 ≤ rax → ∃ a : Nat, rax = a ∧ 4096 ∣ a ∧ mmapBase ≤ a ∧ a + length ≤ mmapLimit ∧
    ∀ x, Inside x (a, length) → ¬ Covers s.live x) ∧
  (rax < 0 → rax = -12 ∧ Unchanged s s')

theorem le_pageAlign (fits : length ≤ 2 ^ 64 - 4096) :
    length ≤ pageAlign length := by
  rw [pageAlign, Nat.mod_eq_of_lt (by omega)]
  omega

theorem pageAlign_wraps (size : length < 2 ^ 64) (large : 2 ^ 64 - 4096 < length) :
    pageAlign length = 0 := by
  simp only [pageAlign]
  omega

theorem tiled_given (tiled : Tiled s) (given : handedOut s a = some r) :
    4096 ∣ r.1 ∧ mmapBase ≤ r.1 ∧ r.1 + r.2 ≤ mmapLimit := by
  have limit := tiled.limit
  rcases handedOut_cases given with ⟨out, found⟩ | ⟨i, here, above⟩
  · obtain ⟨q, hq, first, fits⟩ := carved_source (freeRegionsTake_carved tiled.freeFits found)
    have bound := tiles_entry_bound tiled.tiles (mem_append_right _ hq)
    have aligned := (tiled.tiles.aligned q (mem_append_right _ hq)).1
    exact ⟨first ▸ aligned, by omega, by omega⟩
  · have checked := tiled.checked i
    rw [here] at checked
    rw [above]
    exact ⟨tiled.tiles.last, tiled.tiles.ordered, checked.2⟩

theorem serves_cases (serves : Serves length s a) (taken : step s a = some s') :
    (∃ r, handedOut s a = some r ∧ r.2 = pageAlign length ∧ s'.pc a.thread = .user r.1) ∨
      (s'.pc a.thread = .user (-12) ∧ Unchanged s s' ∧
        mmapLimit < saturatingAdd s.next (pageAlign length)) ∨
      (Looping a.thread (pageAlign length) s' ∧ Unchanged s s') := by
  cases step_outcome taken with
  | reject fixed | replace fixed accepted => exact absurd fixed serves.2
  | @reuse i addr asked reused flags free notFixed found =>
    obtain ⟨rfl, _⟩ := serves
    have given : handedOut s (.mmap i addr asked flags) = some (reused, pageAlign asked) := by
      simp [handedOut, if_neg notFixed, found]
    exact .inl ⟨_, given, rfl, update_self _ _ _⟩
  | search =>
    obtain ⟨rfl, _⟩ := serves
    exact .inr (.inr ⟨.inl (update_self _ _ _), rfl, rfl, rfl⟩)
  | ignore | release => exact serves.elim
  | @full i len here room =>
    rcases serves with at_load | ⟨cur, at_cas⟩
    · rw [here, Pc.load.injEq] at at_load
      subst at_load
      exact .inr (.inl ⟨update_self _ _ _, ⟨rfl, rfl, rfl⟩, room⟩)
    · rw [here] at at_cas
      cases at_cas
  | @read i len here =>
    rcases serves with at_load | ⟨cur, at_cas⟩
    · rw [here, Pc.load.injEq] at at_load
      subst at_load
      exact .inr (.inr ⟨.inr ⟨s.next, update_self _ _ _⟩, rfl, rfl, rfl⟩)
    · rw [here] at at_cas
      cases at_cas
  | @bump i len here =>
    rcases serves with at_load | ⟨cur, at_cas⟩
    · rw [here] at at_load
      cases at_load
    · rw [here, Pc.cas.injEq] at at_cas
      have given : handedOut s (.resume i) = some (s.next, len) := by
        simp [handedOut, here]
      exact .inl ⟨_, given, at_cas.1, update_self _ _ _⟩
  | @retry i len cur here =>
    rcases serves with at_load | ⟨cur', at_cas⟩
    · rw [here] at at_load
      cases at_load
    · rw [here, Pc.cas.injEq] at at_cas
      obtain ⟨rfl, _⟩ := at_cas
      exact .inr (.inr ⟨.inl (update_self _ _ _), rfl, rfl, rfl⟩)

theorem load_returns (here : s.pc i = .load len) :
    ∃ later t, Run step s later t ∧ later.length ≤ 2 ∧ (∀ e ∈ later, e.2 = .resume i) ∧
      ∃ rax, t.pc i = .user rax := by
  have taken : step s (.resume i) = some (mmapLoad s i len) := by simp only [step, here]
  have first := Run.snoc Run.nil taken
  by_cases room : mmapLimit < saturatingAdd s.next len
  · rw [mmapLoad, if_pos room] at first
    exact ⟨_, _, first, by simp, by simp, -12, update_self _ _ _⟩
  rw [mmapLoad, if_neg room] at first
  have there : (s.goto i (.cas len s.next)).pc i = .cas len s.next := update_self _ _ _
  have again : step (s.goto i (.cas len s.next)) (.resume i) =
      some (mmapCas (s.goto i (.cas len s.next)) i len s.next) := by simp only [step, there]
  have second := Run.snoc first again
  rw [mmapCas, if_pos (by rfl)] at second
  exact ⟨_, _, second, by simp, by simp, s.next, update_self _ _ _⟩

theorem looping_returns (inside : Looping i len s) :
    ∃ later t, Run step s later t ∧ later.length ≤ 3 ∧ (∀ e ∈ later, e.2 = .resume i) ∧
      ∃ rax, t.pc i = .user rax := by
  rcases inside with here | ⟨cur, here⟩
  · obtain ⟨later, t, run, short, own, back⟩ := load_returns here
    exact ⟨later, t, run, by omega, own, back⟩
  have taken : step s (.resume i) = some (mmapCas s i len cur) := by simp only [step, here]
  have first := Run.snoc Run.nil taken
  by_cases same : s.next = cur
  · rw [mmapCas, if_pos same] at first
    exact ⟨_, _, first, by simp, by simp, cur, update_self _ _ _⟩
  rw [mmapCas, if_neg same] at first
  have there : (s.goto i (.load len)).pc i = .load len := update_self _ _ _
  obtain ⟨later, t, run, short, own, back⟩ := load_returns there
  refine ⟨_, t, run_append first run, ?_, ?_, back⟩
  · simp only [length_append, length_singleton]
    omega
  · intro e member
    rcases mem_append.mp member with late | early
    · exact own e late
    · rw [mem_singleton.mp early]

/-- A call for length bytes is answered with room for all of them or refused without a trace,
    exactly when the length can be rounded up to whole pages in 64 bits. The steps before the
    answer change nothing, and a call that is left alone is answered. -/
theorem mmap_delivers_iff {s s' : State} {a : Action} {length : Nat} (tiled : Tiled s)
    (pos : 0 < length) (size : length < 2 ^ 64) (serves : Serves length s a)
    (taken : step s a = some s') :
    (∀ rax, s'.pc a.thread = .user rax → (Delivers s s' length rax ↔ length ≤ 2 ^ 64 - 4096)) ∧
      ((∀ rax, s'.pc a.thread ≠ .user rax) →
        Unchanged s s' ∧ Serves length s' (.resume a.thread) ∧
          ∃ later t, Run step s' later t ∧ later.length ≤ 3 ∧
            (∀ e ∈ later, e.2 = .resume a.thread) ∧ ∃ rax, t.pc a.thread = .user rax) := by
  have limit := tiled.limit
  rcases serves_cases serves taken with ⟨r, given, len, back⟩ | ⟨back, same, full⟩ | ⟨inside, same⟩
  · refine ⟨?_, fun away => absurd back (away _)⟩
    intro rax eq
    rw [back, Pc.user.injEq] at eq
    subst eq
    obtain ⟨start, low, high⟩ := tiled_given tiled given
    constructor
    · rintro ⟨granted, _⟩
      obtain ⟨b, eq, _, _, room, _⟩ := granted (Int.natCast_nonneg _)
      simp only [mmapLimit] at room
      omega
    · intro fits
      have whole := le_pageAlign fits
      refine ⟨fun _ => ⟨r.1, rfl, start, low, by omega, ?_⟩, fun negative => by omega⟩
      intro x inside
      apply tiled_handedOut tiled given
      simp only [Inside] at *
      omega
  · refine ⟨?_, fun away => absurd back (away _)⟩
    intro rax eq
    rw [back, Pc.user.injEq] at eq
    subst eq
    refine ⟨?_, fun _ => ⟨fun positive => by omega, fun _ => ⟨rfl, same⟩⟩⟩
    intro _
    apply Nat.le_of_not_lt
    intro large
    rw [pageAlign_wraps size large] at full
    simp only [saturatingAdd, mmapLimit] at *
    omega
  · refine ⟨?_, fun _ => ⟨same, inside, looping_returns inside⟩⟩
    intro rax eq
    rcases inside with here | ⟨cur, here⟩
    · rw [eq] at here
      cases here
    · rw [eq] at here
      cases here

theorem mmap_delivers_whole_window :
    ∃ past s s', Run step initial past s ∧ step s (.resume 0) = some s' ∧
      s'.pc 0 = .user mmapBase ∧ Delivers s s' (mmapLimit - mmapBase) mmapBase := by
  have first : Run step initial _ _ :=
    Run.snoc (a := .mmap 0 0 (mmapLimit - mmapBase) 0x22) Run.nil rfl
  have run := Run.snoc (a := .resume 0) first rfl
  have tiled : Tiled _ := run_tiled run (by
    intro e member
    simp only [mem_cons, not_mem_nil, or_false] at member
    rcases member with rfl | rfl
    · exact ⟨trivial, trivial⟩
    · exact ⟨⟨by decide, fun fixed => absurd fixed (by decide)⟩,
        fun fixed => absurd fixed (by decide)⟩)
  have size : mmapLimit - mmapBase < 2 ^ 64 := by decide
  have facts := mmap_delivers_iff (a := .resume 0) tiled (by decide) size
    (Or.inr ⟨mmapBase, by decide⟩) rfl
  exact ⟨_, _, _, run, rfl, by decide, (facts.1 mmapBase (by decide)).mpr (by decide)⟩

/-- A request for 2^64 - 1 bytes is rounded to none and answered with an address. -/
theorem mmap_grants_all_memory :
    ∃ past s s', Run step initial past s ∧ Tiled s ∧ Serves (2 ^ 64 - 1) s (.resume 0) ∧
      step s (.resume 0) = some s' ∧ s'.pc 0 = .user mmapBase ∧
      ¬ mmapBase + (2 ^ 64 - 1) ≤ mmapLimit := by
  have first : Run step initial _ _ := Run.snoc (a := .mmap 0 0 (2 ^ 64 - 1) 0x22) Run.nil rfl
  have run := Run.snoc (a := .resume 0) first rfl
  refine ⟨_, _, _, run, ?_, Or.inr ⟨mmapBase, by decide⟩, rfl, by decide, by decide⟩
  apply run_tiled run
  intro e member
  simp only [mem_cons, not_mem_nil, or_false] at member
  rcases member with rfl | rfl
  · exact ⟨trivial, trivial⟩
  · exact ⟨⟨by decide, fun fixed => absurd fixed (by decide)⟩,
      fun fixed => absurd fixed (by decide)⟩

end TynKernel.Mmap
