import LifetimeArena.Memory.Ward
import LifetimeArena.Proofs.Memory.Sealing
import LifetimeArena.Proofs.Paging.Watching
import Mathlib.Data.List.Induction

/-!
# What guards do to memory

Guards begin over anything and end in any order, and any number of them may share pages. This never
leaves a page read-only without a guard over it, and it changes no byte. But a guard that is alive
keeps its pages read-only only until another guard that shares them ends.

- `Ward.Untouched`: no guard has begun.
- `Ward.Sound`: what holds along every run that starts with writable pages and no guard.
- `Ward.Sound.step_cases`: what one move can do.
- `Ward.no_page_left_locked`: no protection without a guard.
- `Ward.guarded_until_other_ends`: which guard is without protection.
-/

namespace LifetimeArena

theorem Region.begins_guardSlice {r : Region} {page : Nat} (hp : page.isPowerOfTwo)
    (hpage : r.page = page) {range : Interval} {t : PageTable} (hsize : t.pageSize = page)
    {begun : Guard × Effect} (h : r.guardSlice range t = .ok begun) :
    Guard.Begins page t begun := by
  unfold guardSlice at h
  split at h
  · cases h
    rw [hpage]
    exact Guard.begins_engage hsize hp _ _
  · cases h

namespace Ward

/-- No guard has begun yet and every page can be written. -/
structure Untouched (w : Ward) (page : Nat) : Prop where
  power : page.isPowerOfTwo
  arenas : ∀ a ∈ w.arenas, a.memory.page = page
  regions : ∀ r ∈ w.regions, r.page = page
  pageSize : w.watch.table.pageSize = page
  guards : w.watch.guards = []
  writable : ∀ k, w.watch.table.readOnly k = false

/-- All memory has the same page size, and every page that is read-only lies in the region of a
guard that is alive. -/
structure Sound (w : Ward) (page : Nat) : Prop where
  power : page.isPowerOfTwo
  arenas : ∀ a ∈ w.arenas, a.memory.page = page
  regions : ∀ r ∈ w.regions, r.page = page
  watch : w.watch.Sound page

variable {w : Ward} {page : Nat}

theorem run_concat (w : Ward) (moves : List Move) (m : Move) :
    w.run (moves ++ [m]) = (w.run moves).step m := by
  rw [run, List.foldl_append]
  rfl

/-- Guards can begin over any memory of one page size. -/
theorem untouched_of_fresh (hp : page.isPowerOfTwo) {arenas : List Arena} {regions : List Region}
    (harenas : ∀ a ∈ arenas, a.memory.page = page) (hregions : ∀ r ∈ regions, r.page = page) :
    Untouched { arenas := arenas, regions := regions, watch := { table := .fresh page } } page :=
  ⟨hp, harenas, hregions, rfl, rfl, fun _ => rfl⟩

theorem Untouched.sound (h : w.Untouched page) : w.Sound page where
  power := h.power
  arenas := h.arenas
  regions := h.regions
  watch := Watch.sound_of_empty h.pageSize h.guards h.writable

/-! ## Steps -/

/-- Whatever a guard is begun over, it begins over whole pages or does nothing. -/
theorem Sound.begins (h : w.Sound page) {target : Target} {begun : Guard × Effect}
    (hbegun : w.engage? target = some begun) : Guard.Begins page w.watch.table begun := by
  unfold engage? at hbegun
  split at hbegun
  · split at hbegun
    · next hfound =>
      cases hbegun
      obtain ⟨a, ha, hseal⟩ := Option.map_eq_some_iff.1 hfound
      have hpage := h.arenas a (List.mem_of_getElem? ha)
      exact Arena.begins_sealBuffer h.power hpage h.watch.pageSize hseal
    · cases hbegun
  · split at hbegun
    · next hfound =>
      cases hbegun
      obtain ⟨r, hr, hguard⟩ := Option.map_eq_some_iff.1 hfound
      have hpage := h.regions r (List.mem_of_getElem? hr)
      exact Region.begins_guardSlice h.power hpage h.watch.pageSize hguard
    · cases hbegun
  · cases hbegun
    rw [h.watch.pageSize]
    exact Guard.begins_engage h.watch.pageSize h.power _ _

/-- A move begins one guard, ends one, or does nothing. -/
theorem Sound.step_cases (h : w.Sound page) (m : Move) :
    w.step m = w ∨
      (∃ begun, Guard.Begins page w.watch.table begun ∧
        w.step m = { w with watch := w.watch.add begun }) ∨
      ∃ number, m = .drop number ∧ w.step m = { w with watch := (w.watch.drop number).2 } := by
  cases m with
  | guard target =>
    cases hbegun : w.engage? target with
    | none => exact .inl (by rw [step, hbegun])
    | some begun => exact .inr (.inl ⟨begun, h.begins hbegun, by rw [step, hbegun]⟩)
  | drop number => exact .inr (.inr ⟨number, rfl, rfl⟩)

theorem Sound.step (h : w.Sound page) (m : Move) : (w.step m).Sound page := by
  rcases h.step_cases m with heq | ⟨begun, hbegins, heq⟩ | ⟨number, -, heq⟩
  · rw [heq]
    exact h
  · rw [heq]
    exact ⟨h.power, h.arenas, h.regions, h.watch.add hbegins⟩
  · rw [heq]
    exact ⟨h.power, h.arenas, h.regions, h.watch.drop number⟩

/-- A guard that is alive after a move and has a writable page was alive and had it before, or the
move ended another guard over that page. -/
theorem Sound.lost_step (h : w.Sound page) {m : Move} {n k : Nat} {g : Guard}
    (hg : (w.step m).watch.guard? n = some g) (hk : g.Covers page k)
    (hlost : (w.step m).watch.table.readOnly k = false) :
    w.watch.guard? n = some g ∧
      (w.watch.table.readOnly k = false ∨
        ∃ number other, m = .drop number ∧ number ≠ n ∧ w.watch.guard? number = some other ∧
          other.Covers page k) := by
  rcases h.step_cases m with heq | ⟨begun, hbegins, heq⟩ | ⟨number, hm, heq⟩
  · rw [heq] at hg hlost
    exact ⟨hg, .inl hlost⟩
  · rw [heq] at hg hlost
    have hkeeps : ¬ (begun.1.Covers page k ∨ w.watch.table.readOnly k = true) := by
      rw [← hbegins.readOnly_iff, Bool.not_eq_true]
      exact hlost
    rw [not_or, Bool.not_eq_true] at hkeeps
    dsimp only at hg
    rw [Watch.guard?_add] at hg
    split at hg
    · cases hg
      exact absurd hk hkeeps.1
    · exact ⟨hg, .inl hkeeps.2⟩
  · rw [heq] at hg hlost
    dsimp only at hg
    rw [Watch.guard?_drop] at hg
    split at hg
    · cases hg
    · next hne =>
      refine ⟨hg, ?_⟩
      by_cases hbefore : w.watch.table.readOnly k = true
      · obtain ⟨other, hother, hcovers⟩ := h.watch.lost hbefore hlost
        exact .inr ⟨number, other, hm, Ne.symm hne, hother, hcovers⟩
      · exact .inl (Bool.eq_false_iff.2 hbefore)

/-! ## Runs -/

theorem Sound.run (h : w.Sound page) (moves : List Move) : (w.run moves).Sound page := by
  induction moves generalizing w with
  | nil => exact h
  | cons m moves ih => exact ih (h.step m)

/-- Guards change no byte of memory. -/
theorem step_frame (w : Ward) (m : Move) :
    (w.step m).arenas = w.arenas ∧ (w.step m).regions = w.regions := by
  cases m with
  | guard target =>
    rw [step]
    split
    · exact ⟨rfl, rfl⟩
    · exact ⟨rfl, rfl⟩
  | drop number => exact ⟨rfl, rfl⟩

theorem run_frame (w : Ward) (moves : List Move) :
    (w.run moves).arenas = w.arenas ∧ (w.run moves).regions = w.regions := by
  induction moves generalizing w with
  | nil => exact ⟨rfl, rfl⟩
  | cons m moves ih =>
    obtain ⟨harenas, hregions⟩ := ih (w.step m)
    obtain ⟨harenas', hregions'⟩ := w.step_frame m
    exact ⟨harenas.trans harenas', hregions.trans hregions'⟩

/-- Whatever guards begin and end, every page that is read-only lies in the region of a guard that
is alive and made it so. So without guards all memory can be written, and no byte of it has changed;
but a further guard protects all pages of its block. -/
theorem no_page_left_locked (hstart : w.Untouched page) (moves : List Move) :
    (∀ k, (w.run moves).watch.table.readOnly k = true →
      ∃ n g, (w.run moves).watch.guard? n = some g ∧ g.status = .applied ∧ g.Covers page k) ∧
    ((w.run moves).watch.live = [] → ∀ x, (w.run moves).watch.table.writable x = true) ∧
    (w.run moves).arenas = w.arenas ∧ (w.run moves).regions = w.regions ∧
    ∀ addr size k, addr + size ≤ wordMax → (⟨addr, size⟩ : PageRun).Holds page k →
      ((w.run moves).step (.guard (.block addr size))).watch.table.readOnly k = true := by
  have hsound := (hstart.sound.run moves).watch
  obtain ⟨harenas, hregions⟩ := w.run_frame moves
  refine ⟨fun k hk => ?_, fun hlive x => ?_, harenas, hregions, fun addr size k hword hk => ?_⟩
  · obtain ⟨n, g, hg, hcovers⟩ := hsound.covered k hk
    have hactive := (hsound.system n g hg).isActive_of_covers hcovers
    exact ⟨n, g, hg, of_decide_eq_true hactive, hcovers⟩
  · rw [PageTable.writable_iff]
    intro hk
    obtain ⟨n, g, hg, -⟩ := hsound.covered _ hk
    rw [Watch.guard?_eq_none_of_live hlive] at hg
    cases hg
  · have hbegins := Guard.begins_engage hsound.pageSize hstart.power addr size
    show (Guard.engage (.system (w.run moves).watch.table.pageSize) addr size _).2.table.readOnly k
      = true
    rw [hsound.pageSize, hbegins.readOnly_iff, Guard.covers_engage_iff hstart.power hword]
    exact .inl hk

/-- Two slices of a region share a page, which is read-only under both guards and writable in the
end. -/
theorem no_page_left_locked_slices :
    ∃ w : Ward, w.Untouched 4 ∧
      (w.run [.guard (.slice 0 ⟨0, 8⟩), .guard (.slice 0 ⟨2, 8⟩)]).watch.table.readOnly 17 = true ∧
      ∀ x, (w.run [.guard (.slice 0 ⟨0, 8⟩), .guard (.slice 0 ⟨2, 8⟩), .drop 1,
        .drop 0]).watch.table.writable x = true := by
  have hstart := untouched_of_fresh ⟨2, rfl⟩ (List.forall_mem_nil _)
    (List.forall_mem_singleton.2 (rfl : (⟨4, 64, 8, .replicate 8 0⟩ : Region).page = 4))
  exact ⟨_, hstart, rfl, (no_page_left_locked hstart _).2.1 rfl⟩

/-- A page of a living guard that is writable was taken from it by the end of another guard. -/
theorem Untouched.exists_other (hstart : w.Untouched page) (moves : List Move) {n k : Nat}
    {g : Guard} (hg : (w.run moves).watch.guard? n = some g) (hk : g.Covers page k)
    (hlost : (w.run moves).watch.table.readOnly k = false) :
    ∃ before number other after, moves = before ++ .drop number :: after ∧ number ≠ n ∧
      (w.run before).watch.guard? n = some g ∧
      (w.run before).watch.guard? number = some other ∧ other.Covers page k := by
  induction moves using List.reverseRecOn with
  | nil =>
    have hnone : (w.run []).watch.guard? n = none := by
      show w.watch.guard? n = none
      rw [Watch.guard?, hstart.guards]
      rfl
    rw [hnone] at hg
    cases hg
  | append_singleton moves m ih =>
    rw [run_concat] at hg hlost
    obtain ⟨hg', hbefore | ⟨number, other, rfl, hne, hother, hcovers⟩⟩ :=
      (hstart.sound.run moves).lost_step hg hk hlost
    · obtain ⟨before, number, other, after, rfl, hrest⟩ := ih hg' hbefore
      refine ⟨before, number, other, after ++ [m], ?_, hrest⟩
      rw [List.append_assoc, List.cons_append]
    · exact ⟨moves, number, other, [], rfl, hne, hg', hother, hcovers⟩

/-- A guard with a page is active as long as it lives. The page is read-only unless another guard
over it has ended meanwhile, and the end of another guard over it makes it writable. -/
theorem guarded_until_other_ends (hstart : w.Untouched page) (moves : List Move) {n k : Nat}
    {g : Guard} (hg : (w.run moves).watch.guard? n = some g) (hk : g.Covers page k) :
    g.isActive = true ∧
    ((w.run moves).watch.table.readOnly k = false →
      ∃ before number other after, moves = before ++ .drop number :: after ∧ number ≠ n ∧
        (w.run before).watch.guard? n = some g ∧
        (w.run before).watch.guard? number = some other ∧ other.Covers page k) ∧
    ∀ number other, number ≠ n → (w.run moves).watch.guard? number = some other →
      other.Covers page k →
      ((w.run moves).step (.drop number)).watch.guard? n = some g ∧
      ((w.run moves).step (.drop number)).watch.table.readOnly k = false := by
  have hsound := (hstart.sound.run moves).watch
  refine ⟨(hsound.system n g hg).isActive_of_covers hk, hstart.exists_other moves hg hk,
    fun number other hne hother hcovers => ⟨?_, hsound.unlocked_by_drop hother hcovers⟩⟩
  show ((w.run moves).watch.drop number).2.guard? n = some g
  rw [Watch.guard?_drop, if_neg (Ne.symm hne), hg]

/-- Of two guards that share a page the first one ends, and the page of the second is writable. -/
theorem guarded_until_other_ends_slices :
    ∃ (w : Ward) (g : Guard), w.Untouched 4 ∧
      (w.run [.guard (.slice 0 ⟨0, 8⟩), .guard (.slice 0 ⟨2, 8⟩), .drop 0]).watch.guard? 1 =
        some g ∧ g.isActive = true ∧ g.Covers 4 17 ∧
      (w.run [.guard (.slice 0 ⟨0, 8⟩), .guard (.slice 0 ⟨2, 8⟩),
        .drop 0]).watch.table.readOnly 17 = false := by
  have hstart := untouched_of_fresh ⟨2, rfl⟩ (List.forall_mem_nil _)
    (List.forall_mem_singleton.2 (rfl : (⟨4, 64, 8, .replicate 8 0⟩ : Region).page = 4))
  have hshared : (⟨68, 4⟩ : PageRun).Holds 4 17 := by decide
  have hshared' : (⟨64, 8⟩ : PageRun).Holds 4 17 := by decide
  obtain ⟨hactive, -, hends⟩ := guarded_until_other_ends hstart
    [.guard (.slice 0 ⟨0, 8⟩), .guard (.slice 0 ⟨2, 8⟩)] (n := 1) rfl ⟨_, rfl, hshared⟩
  obtain ⟨hg, hlost⟩ := hends 0 _ (by decide) rfl ⟨_, rfl, hshared'⟩
  exact ⟨_, _, hstart, hg, hactive, ⟨_, rfl, hshared⟩, hlost⟩

/-- A buffer of one page is sealed twice and the first of the guards ends: the second one is alive
and active, but the page is writable. -/
theorem sealed_page_writable :
    ∃ t a w, Solver.Reachable t ∧
      Arena.MadeFor t systemPageSize (16 * systemPageSize) {} systemGrants a ∧
      w = run { arenas := [a], watch := { table := .fresh systemPageSize } }
        [.guard (.buffer 0 (.ofNat 0)), .guard (.buffer 0 (.ofNat 0)), .drop 0] ∧
      ∃ g, w.watch.guard? 1 = some g ∧ g.isActive = true ∧ g.Covers systemPageSize 16 ∧
        w.watch.table.readOnly 16 = false := by
  obtain ⟨t, a, hreach, hmade, hseal⟩ := Arena.exists_page_buffer
  have hpage : (⟨16 * systemPageSize, systemPageSize⟩ : PageRun).Holds systemPageSize 16 := by
    decide
  refine ⟨t, a, _, hreach, hmade, rfl, ?_⟩
  simp only [run, List.foldl, step, engage?, hseal, List.getElem?_cons_zero, Option.map_some]
  exact ⟨_, rfl, rfl, ⟨_, rfl, hpage⟩, rfl⟩

end Ward

end LifetimeArena
