import LifetimeArena.Stage
import LifetimeArena.Word
import Mathlib.Algebra.BigOperators.Group.List.Basic
import Mathlib.Data.List.Induction
import Mathlib.Data.List.Nodup
import Mathlib.Data.List.Perm.Subperm
import Mathlib.Algebra.GroupWithZero.Nat

/-!
# Stages in execution order

What a list of stages must be like to describe a tree: the stages have names of their own and
positive sizes, the first one is the root, every later one was derived from an earlier one, and the
sizes add up to a word. All of this shows from the front: in a list that is in order every stage may
follow those in front of it, and a stage that may follow keeps the list in order.

- `InOrder`, `DescribesTree`: the lists of trees.
- `MayFollow`: the stages that may come next.
- `InOrder.append_singleton`, `InOrder.mayFollow_of_append`: one stage more.
- `InOrder.exists_not_mayFollow`: where a list that is no tree goes wrong first.
-/

namespace LifetimeArena

/-- Names are told apart by their numbers. -/
theorem StageId.toNat_injective : Function.Injective fun id : StageId => id.val.toNat := by
  intro p q hpq
  cases p
  cases q
  exact congrArg StageId.mk (UInt32.toNat_inj.1 hpq)

/-- The stages of a tree in execution order, as far as they are listed. -/
structure InOrder (stages : List Stage) : Prop where
  /-- No name is listed twice. -/
  nodup : (stages.map (·.id)).Nodup
  /-- Every buffer has a byte. -/
  weight_pos : ∀ s ∈ stages, 0 < s.weight
  /-- The first stage has no parent. -/
  root : ∀ s, stages[0]? = some s → s.parent = none
  /-- Every later stage names an earlier one as its parent. -/
  parent : ∀ i s, 0 < i → stages[i]? = some s →
    ∃ j r, j < i ∧ stages[j]? = some r ∧ s.parent = some r.id
  /-- The sizes add up to a word. -/
  total_le : (stages.map (·.weight)).sum ≤ wordMax

/-- The stages of a whole tree in execution order. -/
structure DescribesTree (stages : List Stage) : Prop extends InOrder stages where
  ne_nil : stages ≠ []

/-- The stage may come next, after those that are listed. -/
structure MayFollow (taken : List Stage) (s : Stage) : Prop where
  weight_pos : 0 < s.weight
  fresh : s.id ∉ taken.map (·.id)
  root : s.parent = none → taken = []
  parent : ∀ p, s.parent = some p → p ∈ taken.map (·.id)
  total_le : (taken.map (·.weight)).sum + s.weight ≤ wordMax

theorem take_append_cons_drop {stages : List Stage} {i : Nat} {s : Stage}
    (h : stages[i]? = some s) : stages.take i ++ s :: stages.drop (i + 1) = stages := by
  obtain ⟨hi, rfl⟩ := List.getElem?_eq_some_iff.1 h
  rw [List.cons_getElem_drop_succ, List.take_append_drop]

namespace InOrder

variable {stages taken rest : List Stage} {s : Stage}

theorem nil : InOrder [] where
  nodup := .nil
  weight_pos := fun _ h => nomatch h
  root := fun _ h => nomatch h
  parent := fun _ _ _ h => nomatch h
  total_le := Nat.zero_le _

theorem append_singleton (h : InOrder taken) (hs : MayFollow taken s) : InOrder (taken ++ [s]) where
  nodup := by
    rw [List.map_append, List.map_singleton, ← List.concat_eq_append]
    exact h.nodup.concat hs.fresh
  weight_pos := by
    intro r hr
    rcases List.mem_append.1 hr with hr | hr
    · exact h.weight_pos r hr
    · rw [List.mem_singleton.1 hr]
      exact hs.weight_pos
  root := by
    intro r hr
    cases taken with
    | nil =>
      cases hr
      cases hparent : s.parent with
      | none => rfl
      | some p => exact nomatch hs.parent p hparent
    | cons first taken => exact h.root r hr
  parent := by
    intro i r hpos hr
    rcases Nat.lt_trichotomy i taken.length with hlt | rfl | hgt
    · rw [List.getElem?_append_left hlt] at hr
      obtain ⟨j, q, hj, hq, hparent⟩ := h.parent i r hpos hr
      exact ⟨j, q, hj, by rw [List.getElem?_append_left (Nat.lt_trans hj hlt), hq], hparent⟩
    · rw [List.getElem?_append_right (Nat.le_refl _), Nat.sub_self] at hr
      cases hr
      cases hparent : s.parent with
      | none =>
        rw [hs.root hparent] at hpos
        exact absurd hpos (Nat.lt_irrefl 0)
      | some p =>
        obtain ⟨q, hq, rfl⟩ := List.mem_map.1 (hs.parent p hparent)
        obtain ⟨j, hj, rfl⟩ := List.mem_iff_getElem.1 hq
        exact ⟨j, _, hj, by rw [List.getElem?_append_left hj, List.getElem?_eq_getElem hj], rfl⟩
    · rw [List.getElem?_eq_none (by simp; omega)] at hr
      cases hr
  total_le := by
    rw [List.map_append, List.sum_append]
    exact hs.total_le

theorem mayFollow_of_append (h : InOrder (taken ++ s :: rest)) : MayFollow taken s where
  weight_pos := h.weight_pos s (List.mem_append_right taken (List.mem_cons_self ..))
  fresh := by
    have hnodup := h.nodup
    rw [List.map_append, List.nodup_append] at hnodup
    exact fun hmem => hnodup.2.2 _ hmem _ (List.mem_cons_self ..) rfl
  root := by
    intro hnone
    cases taken with
    | nil => rfl
    | cons first taken =>
      obtain ⟨j, r, -, -, hparent⟩ := h.parent (first :: taken).length s (Nat.succ_pos _) (by simp)
      rw [hnone] at hparent
      cases hparent
  parent := by
    intro p hp
    have hs : (taken ++ s :: rest)[taken.length]? = some s := by simp
    rcases Nat.eq_zero_or_pos taken.length with hzero | hpos
    · rw [hzero] at hs
      have hnone := h.root s hs
      rw [hp] at hnone
      cases hnone
    · obtain ⟨j, r, hj, hr, hparent⟩ := h.parent taken.length s hpos hs
      rw [List.getElem?_append_left hj] at hr
      rw [hp] at hparent
      cases hparent
      exact List.mem_map_of_mem (List.mem_of_getElem? hr)
  total_le := by
    have hle := h.total_le
    rw [List.map_append, List.sum_append, List.map_cons, List.sum_cons] at hle
    omega

/-- Every stage of a list in order may follow those in front of it. -/
theorem mayFollow_of_getElem? (h : InOrder stages) {i : Nat} (hs : stages[i]? = some s) :
    MayFollow (stages.take i) s := by
  rw [← take_append_cons_drop hs] at h
  exact h.mayFollow_of_append

theorem of_append (h : InOrder (taken ++ rest)) : InOrder taken := by
  induction taken using List.reverseRecOn generalizing rest with
  | nil => exact .nil
  | append_singleton taken s ih =>
    rw [List.append_assoc, List.singleton_append] at h
    exact (ih h).append_singleton h.mayFollow_of_append

/-- A list that is not in order has a first stage that may not follow those in front of it. -/
theorem exists_not_mayFollow (h : ¬ InOrder stages) :
    ∃ taken s rest, stages = taken ++ s :: rest ∧ InOrder taken ∧ ¬ MayFollow taken s := by
  induction stages using List.reverseRecOn with
  | nil => exact absurd .nil h
  | append_singleton stages s ih =>
    by_cases horder : InOrder stages
    · exact ⟨stages, s, [], rfl, horder, fun hs => h (horder.append_singleton hs)⟩
    · obtain ⟨taken, r, rest, rfl, htaken, hr⟩ := ih horder
      exact ⟨taken, r, rest ++ [s], by rw [List.append_assoc, List.cons_append], htaken, hr⟩

/-- The front of a list is in order for as long as the next stage may follow. -/
theorem take_succ_iff {i : Nat} (hs : stages[i]? = some s) :
    InOrder (stages.take (i + 1)) ↔ InOrder (stages.take i) ∧ MayFollow (stages.take i) s := by
  rw [List.take_add_one, hs, Option.toList_some]
  exact ⟨fun h => ⟨h.of_append, h.mayFollow_of_append⟩, fun h => h.1.append_singleton h.2⟩

/-- Stages are no more than there are names. -/
theorem length_le (h : InOrder stages) : stages.length ≤ 2 ^ 32 := by
  have hnumbers : (stages.map fun s => s.id.val.toNat) =
      (stages.map (·.id)).map fun id => id.val.toNat := by
    rw [List.map_map]
    rfl
  have hnodup : (stages.map fun s => s.id.val.toNat).Nodup := by
    rw [hnumbers]
    exact h.nodup.map StageId.toNat_injective
  have hsub : (stages.map fun s => s.id.val.toNat) ⊆ List.range (2 ^ 32) := by
    intro n hn
    obtain ⟨s, -, rfl⟩ := List.mem_map.1 hn
    exact List.mem_range.2 s.id.val.toNat_lt
  have hle := (List.subperm_of_subset hnodup hsub).length_le
  rwa [List.length_map, List.length_range] at hle

end InOrder

end LifetimeArena
