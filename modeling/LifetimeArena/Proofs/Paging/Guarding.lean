import LifetimeArena.Paging.Guard
import LifetimeArena.Proofs.Paging.WholePages

/-!
# What guards do to pages

The system backend never refuses a run of whole pages, and such a run touches no page in part. So
the beginning of a guard makes the pages of its region read-only, its end makes them writable, and
neither concerns any other page. Rights are not counted: the end does the same whoever else has made
a page read-only.

- `Guard.Covers`: a page lies in the region of a guard.
- `Guard.OfSystem`: what every guard is like that works through the system backend.
- `Guard.Begins`, `Guard.Ends`: what the beginning and the end of a guard do to the pages.
- `Guard.begins_engage`, `Guard.OfSystem.ends_drop`: they do.
-/

namespace LifetimeArena

namespace PageTable

variable {t : PageTable} {r : PageRun}

theorem readOnly_lock_iff (hr : r.Whole t.pageSize) (k : Nat) :
    (t.lock r).readOnly k = true ↔ r.Holds t.pageSize k ∨ t.readOnly k = true := by
  unfold lock
  by_cases hk : r.Holds t.pageSize k
  · simp [readOnly_setRun_of_touches (hr.touches_iff.2 hk), hk]
  · simp [readOnly_setRun_of_not_touches (mt hr.touches_iff.1 hk), hk]

theorem readOnly_unlock_iff (hr : r.Whole t.pageSize) (k : Nat) :
    (t.unlock r).readOnly k = true ↔ ¬ r.Holds t.pageSize k ∧ t.readOnly k = true := by
  unfold unlock
  by_cases hk : r.Holds t.pageSize k
  · simp [readOnly_setRun_of_touches (hr.touches_iff.2 hk), hk]
  · simp [readOnly_setRun_of_not_touches (mt hr.touches_iff.1 hk), hk]

end PageTable

theorem PageTable.writable_iff {t : PageTable} {x : Nat} :
    t.writable x = true ↔ ¬ t.readOnly (x / t.pageSize) = true := by
  unfold writable
  rw [Bool.not_eq_true', Bool.not_eq_true]

/-- A run of whole pages is never refused. -/
theorem Backend.change_of_whole {page : Nat} {r : PageRun} (hr : r.Whole page) (operation : String)
    (readOnly : Bool) (t : PageTable) :
    change page operation readOnly r t = { answer := .ok (), table := t.setRun r readOnly } :=
  if_pos (Nat.mod_eq_zero_of_dvd hr.start_dvd)

namespace Guard

/-- The page numbered `k` lies in the region of the guard. -/
def Covers (g : Guard) (page k : Nat) : Prop := ∃ r, g.region = some r ∧ r.Holds page k

/-- The guard works through the system backend: it has a region of whole pages, which it made
read-only, or no region. -/
structure OfSystem (g : Guard) (page : Nat) : Prop where
  backend : g.backend = .system page
  whole : ∀ r, g.region = some r → r.Whole page
  active : g.isActive = g.region.isSome

/-- The beginning of a guard over pages with the rights `t`: the pages of its region become
read-only and no other page changes. -/
structure Begins (page : Nat) (t : PageTable) (begun : Guard × Effect) : Prop where
  guard : begun.1.OfSystem page
  pageSize : begun.2.table.pageSize = page
  readOnly_iff : ∀ k, begun.2.table.readOnly k = true ↔
    begun.1.Covers page k ∨ t.readOnly k = true
  calls : begun.2.calls = begun.1.region.toList.map .lock

/-- The end of a guard over pages with the rights `t`: the pages of its region become writable and
no other page changes. -/
structure Ends (g : Guard) (page : Nat) (t : PageTable) (ended : Effect) : Prop where
  pageSize : ended.table.pageSize = page
  readOnly_iff : ∀ k, ended.table.readOnly k = true ↔ ¬ g.Covers page k ∧ t.readOnly k = true
  calls : ended.calls = g.region.toList.map .unlock

variable {page addr size k : Nat} {t : PageTable} {g : Guard} {r : PageRun}

theorem not_covers_of_region_eq_none (h : g.region = none) : ¬ g.Covers page k := by
  rintro ⟨r, hr, -⟩
  rw [h] at hr
  cases hr

theorem covers_iff_of_region (h : g.region = some r) : g.Covers page k ↔ r.Holds page k := by
  constructor
  · rintro ⟨r', hr', hk⟩
    rw [h] at hr'
    cases hr'
    exact hk
  · intro hk
    exact ⟨r, h, hk⟩

/-- A guard with a page has made it read-only. -/
theorem OfSystem.isActive_of_covers (h : g.OfSystem page) (hk : g.Covers page k) :
    g.isActive = true := by
  obtain ⟨r, hr, -⟩ := hk
  rw [h.active, hr]
  rfl

/-- A guard covers the whole pages of its block, whatever the backend answers. -/
theorem region_engage (b : Backend) (addr size : Nat) (t : PageTable) :
    (engage b addr size t).1.region = PageRun.covering? addr size b.pageSize := by
  unfold engage
  split
  · next hnone => exact hnone.symm
  · next r hsome =>
    rw [hsome]
    unfold engageRun
    dsimp only
    split <;> rfl

/-! ## Rights of single bytes -/

theorem Begins.writable_iff {begun : Guard × Effect} (h : Begins page t begun)
    (hsize : t.pageSize = page) (x : Nat) :
    begun.2.table.writable x = true ↔ ¬ begun.1.Covers page (x / page) ∧ t.writable x = true := by
  rw [PageTable.writable_iff, PageTable.writable_iff, h.pageSize, h.readOnly_iff, not_or, hsize]

theorem Ends.writable_iff {ended : Effect} (h : g.Ends page t ended) (hsize : t.pageSize = page)
    (x : Nat) :
    ended.table.writable x = true ↔ g.Covers page (x / page) ∨ t.writable x = true := by
  rw [PageTable.writable_iff, PageTable.writable_iff, h.pageSize, h.readOnly_iff,
    Classical.not_and_iff_not_or_not, Classical.not_not, hsize]

/-! ## Beginnings -/

section

variable (hsize : t.pageSize = page)
include hsize

/-- A guard without a region leaves all pages alone. -/
theorem begins_of_region_eq_none {e : Effect} (hbackend : g.backend = .system page)
    (hregion : g.region = none) (hactive : g.isActive = false) (htable : e.table = t)
    (hcalls : e.calls = []) : Begins page t (g, e) where
  guard :=
    { backend := hbackend
      whole := fun r hr => by
        rw [hregion] at hr
        cases hr
      active := by rw [hactive, hregion]; rfl }
  pageSize := by rw [htable, hsize]
  readOnly_iff := fun k => by
    rw [htable, or_iff_right (not_covers_of_region_eq_none hregion)]
  calls := by rw [hcalls, hregion]; rfl

theorem begins_disabled : Begins page t (disabled page, { table := t }) :=
  begins_of_region_eq_none hsize rfl rfl rfl rfl rfl

theorem begins_engageRun (hr : r.Whole page) : Begins page t (engageRun (.system page) r t) := by
  have hreply : (Backend.system page).lock r t = { answer := .ok (), table := t.lock r } :=
    Backend.change_of_whole hr _ _ _
  unfold engageRun
  rw [hreply]
  refine ⟨⟨rfl, ?_, rfl⟩, hsize, fun k => ?_, rfl⟩
  · rintro r' hr'
    cases hr'
    exact hr
  · subst hsize
    rw [covers_iff_of_region rfl]
    exact PageTable.readOnly_lock_iff hr k

/-- Guarding a block makes its whole pages read-only. -/
theorem begins_engage (hp : page.isPowerOfTwo) (addr size : Nat) :
    Begins page t (engage (.system page) addr size t) := by
  unfold engage
  split
  · exact begins_of_region_eq_none hsize rfl rfl rfl rfl rfl
  · next r hsome => exact begins_engageRun hsize (PageRun.covering?_eq_some hp hsome).1

end

/-- The pages of a guard are the pages that lie wholly in its block. -/
theorem covers_engage_iff (hp : page.isPowerOfTwo) (hword : addr + size ≤ wordMax) :
    (engage (.system page) addr size t).1.Covers page k ↔
      (⟨addr, size⟩ : PageRun).Holds page k := by
  have hregion := region_engage (.system page) addr size t
  cases hcovering : PageRun.covering? addr size page with
  | none =>
    have hnone : ¬ (engage (.system page) addr size t).1.Covers page k :=
      not_covers_of_region_eq_none (hregion.trans hcovering)
    exact iff_of_false hnone (PageRun.not_holds_of_covering?_eq_none hp hword hcovering k)
  | some r =>
    rw [covers_iff_of_region (hregion.trans hcovering)]
    exact (PageRun.covering?_eq_some hp hcovering).2 k

/-! ## Ends -/

/-- The end of a guard makes the pages of its region writable. -/
theorem OfSystem.ends_drop (h : g.OfSystem page) (hsize : t.pageSize = page) :
    g.Ends page t (g.drop t) := by
  unfold drop
  split
  · next hnone =>
    refine ⟨hsize, fun k => ?_, by rw [hnone]; rfl⟩
    rw [and_iff_right (not_covers_of_region_eq_none hnone)]
  · next r hsome =>
    have hr := h.whole r hsome
    have hreply : g.backend.unlock r t = { answer := .ok (), table := t.unlock r } := by
      rw [h.backend]
      exact Backend.change_of_whole hr _ _ _
    dsimp only
    rw [hreply]
    refine ⟨hsize, fun k => ?_, by rw [hsome]; rfl⟩
    subst hsize
    rw [covers_iff_of_region hsome]
    exact PageTable.readOnly_unlock_iff hr k

end Guard

end LifetimeArena
