import TynKernel.Mmap.AddressSpace

/-!
munmap of pages that are not mapped. free_regions_add joins entries that meet end to end and
does not look for an overlap.
-/
namespace TynKernel.Mmap
open Regions Runs

def PageCall : Action → Prop
  | .mmap _ addr length flags => ¬ Fixed addr flags ∧ length < 2 ^ 64
  | .munmap _ addr length =>
    4096 ∣ addr ∧ 4096 ∣ length ∧ 0 < length ∧ mmapBase ≤ addr ∧ addr + length ≤ mmapLimit
  | .resume _ => True

instance (a : Action) : Decidable (PageCall a) := by
  cases a <;> unfold PageCall <;> infer_instance

def FreeBelowNext (s : State) : Prop := Separate s.free ∧ ∀ r ∈ s.free, r.1 + r.2 ≤ s.next

def NamesUnmapped (s : State) : Action → Prop
  | .munmap _ addr length => ¬ Mapped s addr length
  | _ => False

theorem tiled_freeBelowNext (tiled : Tiled s) : FreeBelowNext s := by
  constructor
  · exact (separate_append.mp tiled.tiles.separate).2.1
  · intro r hr
    exact (tiles_entry_bound tiled.tiles (List.mem_append_right _ hr)).2

theorem pageAlign_pages (whole : 4096 ∣ length) (small : length + 0xFFF < 2 ^ 64) :
    pageAlign length = length := by
  rw [pageAlign, Nat.mod_eq_of_lt small]
  omega

theorem sysMunmap_pages (call : PageCall (.munmap i addr length)) :
    (sysMunmap s i addr length).free = freeRegionsAdd s.free addr length ∧
      (sysMunmap s i addr length).next = s.next := by
  obtain ⟨start, whole, pos, low, high⟩ := call
  simp only [mmapBase, mmapLimit] at low high
  have floor : addr / 4096 * 4096 = addr := Nat.div_mul_cancel start
  have size : pageAlign (length + (addr - addr)) = length := by
    rw [Nat.sub_self, Nat.add_zero, pageAlign_pages whole (by omega)]
  have valid : ¬ (addr = 0 ∨ length = 0) := by omega
  have inside : mmapBase ≤ addr ∧ (addr + length) % 2 ^ 64 ≤ mmapLimit := by
    simp only [mmapBase, mmapLimit]
    omega
  simp only [sysMunmap, if_neg valid, floor, size, if_pos inside, State.goto, and_self]

theorem step_keeps_tiled (tiled : Tiled s) (call : PageCall a) (mapped : ¬ NamesUnmapped s a)
    (taken : step s a = some s') : Tiled s' := by
  cases a with
  | mmap i addr length flags =>
    have managed : Managed s (.mmap i addr length flags) :=
      ⟨call.2, fun fixed => absurd fixed call.1⟩
    exact step_tiled tiled managed (fun fixed => absurd fixed call.1) taken
  | munmap i addr length =>
    have managed : Managed s (.munmap i addr length) := Classical.not_not.mp mapped
    exact step_tiled tiled managed trivial taken
  | resume i =>
    have managed : Managed s (.resume i) := trivial
    exact step_tiled tiled managed trivial taken

theorem step_unmapped (tiled : Tiled s) (call : PageCall a) (unmapped : NamesUnmapped s a)
    (taken : step s a = some s') : ¬ FreeBelowNext s' := by
  cases a with
  | mmap i addr length flags | resume i => exact unmapped.elim
  | munmap i addr length =>
    simp only [NamesUnmapped, Mapped, not_forall] at unmapped
    obtain ⟨x, inside, notLive⟩ := unmapped
    obtain ⟨free, next⟩ := sysMunmap_pages (s := s) call
    have after : s' = sysMunmap s i addr length := by
      simp only [step] at taken
      split at taken
      · exact (Option.some.inj taken).symm
      · cases taken
    have range : Fits (addr, length) := by
      have high := call.2.2.2.2
      simp only [Fits, mmapLimit] at *
      omega
    have inserted := freeRegionsAdd_inserted tiled.freeFits range tiled.freePos
    rintro ⟨sep, below⟩
    rw [after, free] at sep below
    by_cases handed : x < s.next
    · have low := call.2.2.2.1
      have covered := (tiled.tiles.exact_cover x).mpr ⟨Nat.le_trans low inside.1, handed⟩
      rw [covers_append] at covered
      exact inserted_overlap inserted inside (covered.resolve_left notLive) sep
    · obtain ⟨r, hr, inr⟩ := (inserted_covers inserted x).mpr (.inl inside)
      have := below r hr
      have := inr.2
      omega

/-- The free list stays disjoint and below the bump pointer, and every range handed out avoids
    the mappings in use, as long as munmap names mapped pages only. -/
theorem unmapped_pages_iff {past : List (State × Action)} {s : State}
    (run : Run step initial past s) (calls : ∀ e ∈ past, PageCall e.2) :
    (Throughout FreeBelowNext past s ∧
      ∀ e ∈ past, ∀ r, handedOut e.1 e.2 = some r → ∀ x, Inside x r → ¬ Covers e.1.live x) ↔
      ∀ e ∈ past, ∀ i addr length, e.2 = .munmap i addr length → Mapped e.1 addr length := by
  have first := throughout_iff_first (fun _ a => PageCall a) Tiled FreeBelowNext NamesUnmapped
    tiled_initial (fun _ tiled => tiled_freeBelowNext tiled)
    (fun _ _ _ tiled call mapped taken => step_keeps_tiled tiled call mapped taken)
    (fun _ _ _ tiled call unmapped taken => step_unmapped tiled call unmapped taken) run calls
  have names : (∀ e ∈ past, ¬ NamesUnmapped e.1 e.2) ↔
      ∀ e ∈ past, ∀ i addr length, e.2 = .munmap i addr length → Mapped e.1 addr length := by
    constructor
    · intro quiet e member i addr length eq
      have := quiet e member
      rw [eq] at this
      exact Classical.not_not.mp this
    · intro mapped e member
      cases act : e.2 with
      | mmap i addr length flags | resume i => exact id
      | munmap i addr length => exact not_not_intro (mapped e member i addr length act)
  rw [← names]
  constructor
  · intro held
    exact first.mp held.1
  intro quiet
  refine ⟨first.mpr quiet, ?_⟩
  intro e member r given
  have all := run_throughout (fun s a => PageCall a ∧ ¬ NamesUnmapped s a) Tiled tiled_initial
    (fun _ _ _ tiled ok taken => step_keeps_tiled tiled ok.1 ok.2 taken) run
    (fun e member => ⟨calls e member, quiet e member⟩)
  exact tiled_handedOut (all.2 e member) given

theorem unmapped_pages_mapped_page :
    ∃ past s, Run step initial past s ∧ (∀ e ∈ past, PageCall e.2) ∧
      s.free = [(mmapBase, 4096)] ∧ Throughout FreeBelowNext past s := by
  have first : Run step initial _ _ := Run.snoc (a := .mmap 0 0 0x1000 0x22) Run.nil rfl
  have second := Run.snoc (a := .resume 0) (Run.snoc (a := .resume 0) first rfl) rfl
  have run := Run.snoc (a := .munmap 0 mmapBase 0x1000) second rfl
  refine ⟨_, _, run, by decide, by decide, ((unmapped_pages_iff run (by decide)).mpr ?_).1⟩
  intro e member i addr length eq
  simp only [List.mem_cons, List.not_mem_nil, or_false] at member
  rcases member with rfl | rfl | rfl | rfl
  · cases eq
    exact fun x inside => ⟨(mmapBase, 4096), by decide, inside⟩
  · cases eq
  · cases eq
  · cases eq

/-- A page is unmapped twice; the two calls of mmap that follow both get it. -/
theorem unmapped_twice_handed_out_twice :
    ∃ past s, Run step initial past s ∧ (∀ e ∈ past, PageCall e.2) ∧
      handedOut s (.mmap 1 0 0x1000 0x22) = some (mmapBase, 4096) ∧ Covers s.live mmapBase := by
  have first : Run step initial _ _ := Run.snoc (a := .mmap 0 0 0x1000 0x22) Run.nil rfl
  have second := Run.snoc (a := .resume 0) (Run.snoc (a := .resume 0) first rfl) rfl
  have third := Run.snoc (a := .munmap 0 mmapBase 0x1000) second rfl
  have fourth := Run.snoc (a := .munmap 0 mmapBase 0x1000) third rfl
  have run := Run.snoc (a := .mmap 0 0 0x1000 0x22) fourth rfl
  exact ⟨_, _, run, by decide, by decide, (mmapBase, 4096), by decide, by decide⟩

end TynKernel.Mmap
