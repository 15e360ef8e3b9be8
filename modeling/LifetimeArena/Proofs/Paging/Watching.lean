import LifetimeArena.Paging.Watch
import LifetimeArena.Proofs.Paging.Guarding

/-!
# Guards that begin and end in any order

A page is read-only on account of a guard that is alive: this holds at first, and neither a guard
that begins nor one that ends can break it, because an end takes the protection from all the pages
that the beginning gave it to (`Watch.Sound`). The converse fails. An end does not ask whether
another guard covers the page too, so a page can become writable under a guard that is alive.

- `Watch.guard?_add`, `Watch.guard?_drop`: which guards are alive after a beginning or an end.
- `Watch.Sound`: every read-only page belongs to a living guard.
- `Watch.Sound.add`, `Watch.Sound.drop`: it is preserved.
- `Watch.Sound.lost`, `Watch.Sound.unlocked_by_drop`: how a living guard loses a page.
-/

namespace LifetimeArena

namespace Watch

variable {w : Watch} {page : Nat}

/-! ## Which guards are alive -/

theorem guard?_add (w : Watch) (begun : Guard × Effect) (n : Nat) :
    (w.add begun).guard? n = if n = w.guards.length then some begun.1 else w.guard? n := by
  show (w.guards ++ [some begun.1])[n]?.join = _
  by_cases heq : n = w.guards.length
  · simp [heq]
  · by_cases hlt : n < w.guards.length
    · rw [if_neg heq, List.getElem?_append_left hlt]
      rfl
    · have hnone : w.guards[n]? = none := List.getElem?_eq_none (by omega)
      have hnone' : (w.guards ++ [some begun.1])[n]? = none := by
        refine List.getElem?_eq_none ?_
        rw [List.length_append, List.length_singleton]
        omega
      rw [if_neg heq, guard?, hnone, hnone']

theorem drop_of_none {number : Nat} (h : w.guard? number = none) : (w.drop number).2 = w := by
  rw [drop, h]

theorem table_drop {number : Nat} {g : Guard} (h : w.guard? number = some g) :
    (w.drop number).2.table = (g.drop w.table).table := by
  rw [drop, h]

theorem guard?_drop (w : Watch) (number n : Nat) :
    (w.drop number).2.guard? n = if n = number then none else w.guard? n := by
  cases h : w.guard? number with
  | none =>
    rw [drop_of_none h]
    by_cases heq : n = number
    · rw [if_pos heq, heq, h]
    · rw [if_neg heq]
  | some g =>
    rw [drop, h]
    show (w.guards.set number none)[n]?.join = _
    by_cases heq : n = number
    · subst heq
      rw [if_pos rfl, List.getElem?_set_self']
      cases w.guards[n]? <;> rfl
    · rw [if_neg heq, List.getElem?_set_ne (Ne.symm heq)]
      rfl

theorem guard?_eq_none_of_live (h : w.live = []) (n : Nat) : w.guard? n = none := by
  cases hg : w.guard? n with
  | none => rfl
  | some g =>
    have hmem : g ∈ w.live := by
      refine List.mem_filterMap.2 ⟨some g, ?_, rfl⟩
      exact List.mem_of_getElem? (Option.join_eq_some_iff.1 hg)
    rw [h] at hmem
    cases hmem

/-! ## Protection by living guards -/

/-- Every page that is read-only lies in the region of a guard that is alive. -/
structure Sound (w : Watch) (page : Nat) : Prop where
  pageSize : w.table.pageSize = page
  system : ∀ n g, w.guard? n = some g → g.OfSystem page
  covered : ∀ k, w.table.readOnly k = true → ∃ n g, w.guard? n = some g ∧ g.Covers page k

/-- Without guards and without read-only pages there is nothing to prove. -/
theorem sound_of_empty (hsize : w.table.pageSize = page) (hguards : w.guards = [])
    (hwritable : ∀ k, w.table.readOnly k = false) : w.Sound page where
  pageSize := hsize
  system := fun n g hg => by
    rw [guard?, hguards] at hg
    cases hg
  covered := fun k hk => by
    rw [hwritable] at hk
    cases hk

namespace Sound

variable (h : w.Sound page)
include h

/-- A guard that begins protects its own pages and takes none from others. -/
theorem add {begun : Guard × Effect} (hbegins : Guard.Begins page w.table begun) :
    (w.add begun).Sound page where
  pageSize := hbegins.pageSize
  system := fun n g hg => by
    rw [guard?_add] at hg
    split at hg
    · cases hg
      exact hbegins.guard
    · exact h.system n g hg
  covered := fun k hk => by
    rcases (hbegins.readOnly_iff k).1 hk with hcovers | hk'
    · exact ⟨w.guards.length, begun.1, by rw [guard?_add, if_pos rfl], hcovers⟩
    · obtain ⟨n, g, hg, hcovers⟩ := h.covered k hk'
      refine ⟨n, g, ?_, hcovers⟩
      rw [guard?_add, if_neg ?_, hg]
      rintro rfl
      rw [guard?, List.getElem?_eq_none (Nat.le_refl _)] at hg
      cases hg

/-- A guard that ends leaves no page of its region read-only, so what is left belongs to others. -/
theorem drop (number : Nat) : (w.drop number).2.Sound page := by
  cases hg : w.guard? number with
  | none =>
    rw [drop_of_none hg]
    exact h
  | some g =>
    have hends := (h.system number g hg).ends_drop h.pageSize
    refine ⟨?_, fun n g' hg' => ?_, fun k hk => ?_⟩
    · rw [table_drop hg]
      exact hends.pageSize
    · rw [guard?_drop] at hg'
      split at hg'
      · cases hg'
      · exact h.system n g' hg'
    · rw [table_drop hg] at hk
      obtain ⟨hmiss, hk'⟩ := (hends.readOnly_iff k).1 hk
      obtain ⟨n, g', hg', hcovers⟩ := h.covered k hk'
      refine ⟨n, g', ?_, hcovers⟩
      rw [guard?_drop, if_neg ?_, hg']
      rintro rfl
      rw [hg] at hg'
      cases hg'
      exact hmiss hcovers

/-! ## Loss of protection -/

/-- A page that becomes writable at the end of a guard was covered by it. -/
theorem lost {number k : Nat} (hk : w.table.readOnly k = true)
    (hk' : (w.drop number).2.table.readOnly k = false) :
    ∃ other, w.guard? number = some other ∧ other.Covers page k := by
  cases hg : w.guard? number with
  | none =>
    rw [drop_of_none hg, hk] at hk'
    cases hk'
  | some other =>
    refine ⟨other, rfl, ?_⟩
    have hends := (h.system number other hg).ends_drop h.pageSize
    rw [table_drop hg] at hk'
    by_cases hcovers : other.Covers page k
    · exact hcovers
    · rw [(hends.readOnly_iff k).2 ⟨hcovers, hk⟩] at hk'
      cases hk'

/-- The end of a guard makes its pages writable, whoever else covers them. -/
theorem unlocked_by_drop {number k : Nat} {other : Guard} (hg : w.guard? number = some other)
    (hcovers : other.Covers page k) : (w.drop number).2.table.readOnly k = false := by
  have hends := (h.system number other hg).ends_drop h.pageSize
  rw [table_drop hg, ← Bool.not_eq_true, hends.readOnly_iff]
  exact fun hk => hk.1 hcovers

end Sound

end Watch

end LifetimeArena
