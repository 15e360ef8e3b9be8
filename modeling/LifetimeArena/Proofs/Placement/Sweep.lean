import LifetimeArena.Placement.Soundness
import Mathlib.Data.List.Nodup

/-!
# The sweep

The sweep compares an interval with the live ones only. It may, because the intervals come in order
of their starts: once an interval has been dropped, everything still to come starts at or behind its
stop. So the sweep meets every pair of which the later one starts before the earlier one stops, and
no other (`mem_sweep_iff`). For intervals that are not empty these are the pairs that share a byte,
which does not depend on the order any more (`sweep_sort_eq_nil_iff`).

Intervals of different nodes are never tied, so the sweep goes through them in a strict order
(`Occupied.Ahead`). It meets the pairs in the order of their later intervals and, for one later
interval, in the order of the earlier ones (`pairwise_sweep`); in particular it meets none twice.
-/

namespace LifetimeArena

variable {clash : Occupied → Occupied → Bool}

theorem pair_sublist_cons_iff {α : Type} {p q x : α} {l : List α} :
    [p, q].Sublist (x :: l) ↔ [p, q].Sublist l ∨ (p = x ∧ q ∈ l) := by
  rw [List.sublist_cons_iff]
  refine or_congr_right ⟨?_, ?_⟩
  · rintro ⟨r, hr, hsub⟩
    obtain ⟨hp, rfl⟩ := List.cons.inj hr
    exact ⟨hp, List.singleton_sublist.1 hsub⟩
  · rintro ⟨rfl, hq⟩
    exact ⟨[q], rfl, List.singleton_sublist.2 hq⟩

/-- The sweep finds the clashing pairs among those where the later interval starts before the
earlier one stops. -/
theorem mem_sweep_iff {live l : List Occupied}
    (hsorted : l.Pairwise fun p q => p.range.start ≤ q.range.start) {p q : Occupied} :
    (p, q) ∈ sweep clash live l ↔
      ((p ∈ live ∧ q ∈ l) ∨ [p, q].Sublist l) ∧ q.range.start < p.range.stop ∧
        clash p q = true := by
  induction l generalizing live with
  | nil => simp [sweep]
  | cons x l ih =>
    obtain ⟨hx, hl⟩ := List.pairwise_cons.1 hsorted
    rw [sweep, List.mem_append, ih hl, pair_sublist_cons_iff]
    simp only [List.mem_map, List.mem_filter, List.mem_append, List.mem_cons, List.not_mem_nil,
      or_false, decide_eq_true_iff, Prod.mk.injEq]
    constructor
    · rintro (⟨r, ⟨⟨hr, hlt⟩, hclash⟩, rfl, rfl⟩ | ⟨⟨⟨hp, -⟩ | rfl, hq⟩ | hsub, hlt, hclash⟩)
      · exact ⟨.inl ⟨hr, .inl rfl⟩, hlt, hclash⟩
      · exact ⟨.inl ⟨hp, .inr hq⟩, hlt, hclash⟩
      · exact ⟨.inr (.inr ⟨rfl, hq⟩), hlt, hclash⟩
      · exact ⟨.inr (.inl hsub), hlt, hclash⟩
    · rintro ⟨⟨hp, rfl | hq⟩ | hsub | ⟨rfl, hq⟩, hlt, hclash⟩
      · exact .inl ⟨p, ⟨⟨hp, hlt⟩, hclash⟩, rfl, rfl⟩
      · -- Dropping `p` at `x` would mean that `p` stops before `q` starts.
        have hle := hx q hq
        exact .inr ⟨.inl ⟨.inl ⟨hp, by omega⟩, hq⟩, hlt, hclash⟩
      · exact .inr ⟨.inr hsub, hlt, hclash⟩
      · exact .inr ⟨.inl ⟨.inr rfl, hq⟩, hlt, hclash⟩

theorem sweep_eq_nil_iff {l : List Occupied}
    (hsorted : l.Pairwise fun p q => p.range.start ≤ q.range.start) :
    sweep clash [] l = [] ↔
      l.Pairwise fun p q => q.range.start < p.range.stop → clash p q = false := by
  rw [List.eq_nil_iff_forall_not_mem, List.pairwise_iff_forall_sublist]
  constructor
  · intro h p q hsub hlt
    refine Bool.eq_false_iff.2 fun hclash => ?_
    exact h (p, q) ((mem_sweep_iff hsorted).2 ⟨.inr hsub, hlt, hclash⟩)
  · rintro h ⟨p, q⟩ hmem
    obtain ⟨hsub, hlt, hclash⟩ := (mem_sweep_iff hsorted).1 hmem
    rcases hsub with ⟨hp, -⟩ | hsub
    · cases hp
    · rw [h hsub hlt] at hclash
      cases hclash

/-- Of two intervals in the order of their starts, the first byte of the second one tells whether
they share any. -/
theorem Occupied.exists_shared_iff {p q : Occupied} (hle : p.range.start ≤ q.range.start)
    (hne : q.range.start < q.range.stop) :
    (∃ x, x ∈ p.range ∧ x ∈ q.range) ↔ q.range.start < p.range.stop := by
  simp only [Interval.mem_iff]
  constructor
  · rintro ⟨x, ⟨-, hstop⟩, hstart, -⟩
    omega
  · intro hlt
    exact ⟨q.range.start, ⟨hle, hlt⟩, Nat.le_refl _, hne⟩

/-- Intervals that share a byte do not clash. -/
def Compatible (clash : Occupied → Occupied → Bool) (p q : Occupied) : Prop :=
  ∀ x, x ∈ p.range → x ∈ q.range → clash p q = false

theorem symm_compatible (hclash : ∀ p q, clash p q = clash q p) {p q : Occupied}
    (h : Compatible clash p q) : Compatible clash q p := by
  intro x hq hp
  rw [hclash]
  exact h x hp hq

theorem Occupied.Before.start_le {p q : Occupied} (h : p.Before q) :
    p.range.start ≤ q.range.start := by
  rcases h with h | ⟨h, -⟩
  · exact Nat.le_of_lt h
  · exact Nat.le_of_eq h

/-- The sweep through the sorted intervals finds nothing if no two that share a byte clash. -/
theorem sweep_sort_eq_nil_iff (hclash : ∀ p q, clash p q = clash q p) {l : List Occupied}
    (hne : ∀ p ∈ l, p.range.start < p.range.stop) :
    sweep clash [] (Occupied.sort l) = [] ↔ l.Pairwise (Compatible clash) := by
  have hperm := Occupied.sort_perm l
  have hsorted := (Occupied.pairwise_sort l).imp Occupied.Before.start_le
  rw [sweep_eq_nil_iff hsorted, ← hperm.pairwise_iff (symm_compatible hclash)]
  have hshared : ∀ {p q : Occupied}, q ∈ Occupied.sort l → p.range.start ≤ q.range.start →
      ((∃ x, x ∈ p.range ∧ x ∈ q.range) ↔ q.range.start < p.range.stop) := fun hq hle =>
    Occupied.exists_shared_iff hle (hne _ (hperm.mem_iff.1 hq))
  constructor
  · intro h
    refine (h.and hsorted).imp_of_mem fun {p q} _ hq hpq x hxp hxq => hpq.1 ?_
    exact (hshared hq hpq.2).1 ⟨x, hxp, hxq⟩
  · intro h
    refine (h.and hsorted).imp_of_mem fun {p q} _ hq hpq hlt => ?_
    obtain ⟨x, hxp, hxq⟩ := (hshared hq hpq.2).2 hlt
    exact hpq.1 x hxp hxq

/-! ## The order of the pairs -/

namespace Occupied

/-- The order by start, then stop, then node number, without ties. -/
def Ahead (p q : Occupied) : Prop :=
  p.range.start < q.range.start ∨
    (p.range.start = q.range.start ∧
      (p.range.stop < q.range.stop ∨ (p.range.stop = q.range.stop ∧ p.node < q.node)))

variable {p q : Occupied}

theorem Ahead.asymm (h : p.Ahead q) : ¬ q.Ahead p := by
  simp only [Ahead] at *
  omega

theorem Ahead.start_le (h : p.Ahead q) : p.range.start ≤ q.range.start := by
  simp only [Ahead] at h
  omega

theorem Before.ahead (h : p.Before q) (hne : p.node ≠ q.node) : p.Ahead q := by
  simp only [Before, Ahead] at *
  omega

theorem ahead_or_ahead (hne : p.node ≠ q.node) : p.Ahead q ∨ q.Ahead p :=
  (before_total p q).imp (fun h => h.ahead hne) fun h => h.ahead hne.symm

/-- Intervals of different nodes are sorted without ties. -/
theorem pairwise_ahead_sort {l : List Occupied} (h : (l.map (·.node)).Nodup) :
    (sort l).Pairwise Ahead := by
  have hnodup : ((sort l).map (·.node)).Nodup := ((sort_perm l).map _).nodup_iff.2 h
  rw [List.Nodup, List.pairwise_map] at hnodup
  exact (hnodup.and (pairwise_sort l)).imp fun ⟨hne, hbefore⟩ => hbefore.ahead hne

/-- In a sorted list an interval stands in front of another exactly if it is ahead of it. -/
theorem pair_sublist_iff {l : List Occupied} (h : l.Pairwise Ahead) :
    [p, q].Sublist l ↔ p ∈ l ∧ q ∈ l ∧ p.Ahead q := by
  induction l with
  | nil => simp
  | cons x l ih =>
    obtain ⟨hx, hl⟩ := List.pairwise_cons.1 h
    rw [pair_sublist_cons_iff, ih hl, List.mem_cons, List.mem_cons]
    constructor
    · rintro (⟨hp, hq, hpq⟩ | ⟨rfl, hq⟩)
      · exact ⟨.inr hp, .inr hq, hpq⟩
      · exact ⟨.inl rfl, .inr hq, hx q hq⟩
    · rintro ⟨rfl | hp, rfl | hq, hpq⟩
      · exact absurd hpq hpq.asymm
      · exact .inr ⟨rfl, hq⟩
      · exact absurd hpq (hx p hp).asymm
      · exact .inl ⟨hp, hq, hpq⟩

end Occupied

/-- The order of pairs: by the second interval, then by the first one. -/
def ReportedBefore (x y : Occupied × Occupied) : Prop :=
  x.2.Ahead y.2 ∨ (x.2 = y.2 ∧ x.1.Ahead y.1)

theorem ReportedBefore.ne {x y : Occupied × Occupied} (h : ReportedBefore x y) : x ≠ y := by
  rintro rfl
  rcases h with h | ⟨-, h⟩
  · exact h.asymm h
  · exact h.asymm h

theorem snd_mem_of_mem_sweep {live l : List Occupied} {x : Occupied × Occupied}
    (h : x ∈ sweep clash live l) : x.2 ∈ l := by
  induction l generalizing live with
  | nil => cases h
  | cons q rest ih =>
    rcases List.mem_append.1 h with h | h
    · obtain ⟨p, -, rfl⟩ := List.mem_map.1 h
      exact List.mem_cons_self ..
    · exact List.mem_cons_of_mem q (ih h)

/-- The sweep meets the pairs in order. -/
theorem pairwise_sweep {live l : List Occupied} (h : (live ++ l).Pairwise Occupied.Ahead) :
    (sweep clash live l).Pairwise ReportedBefore := by
  induction l generalizing live with
  | nil => exact .nil
  | cons q rest ih =>
    obtain ⟨hlive, hrest, -⟩ := List.pairwise_append.1 h
    obtain ⟨hq, -⟩ := List.pairwise_cons.1 hrest
    rw [sweep, List.pairwise_append]
    refine ⟨?_, ih ?_, ?_⟩
    · -- The pairs with `q` come in the order of the live intervals.
      rw [List.pairwise_map]
      exact ((hlive.filter _).filter _).imp fun hpp => .inr ⟨rfl, hpp⟩
    · refine h.sublist ?_
      rw [List.append_assoc]
      exact (List.filter_sublist).append (List.Sublist.refl _)
    · -- All later pairs have a later second interval.
      intro x hx y hy
      obtain ⟨p, -, rfl⟩ := List.mem_map.1 hx
      exact .inl (hq y.2 (snd_mem_of_mem_sweep hy))

end LifetimeArena
