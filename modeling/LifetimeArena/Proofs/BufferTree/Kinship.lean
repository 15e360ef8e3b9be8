import LifetimeArena.Proofs.BufferTree.Spans
import LifetimeArena.BufferTree.OfStages
import LifetimeArena.Sample.Families
import Mathlib.Logic.Relation
import Mathlib.Order.Defs.Unbundled

/-!
# Kinship told in three ways

Placement and the test on layouts must mean the same by "derived from", or buffers that are live
together would share bytes. Placement compares spans of the pre-order, the test climbs parent links,
and the walk that the spans are made from goes down child lists. All three tell the same story, and
the climb, which is given as many steps as the tree has nodes, never needs them all.

- `BufferTree.LeadsDown`: a path down the child lists.
- `Linked.leadsDown_iff`: it leads to the nodes of the subtree.
- `BufferTree.ClimbsToRoot`: what the climb from a node is like.
- `BufferTree.kinship_agrees`: the three readings of kinship and the climb, of every built tree.
-/

namespace LifetimeArena

namespace BufferTree

/-- A path down the child lists leads from one node to another, in any number of links. -/
def LeadsDown (t : BufferTree) : Nat → Nat → Prop :=
  Relation.ReflTransGen fun p c => c ∈ t.children p

/-- The climb from a node is finished within as many links as the number of the node says, meets
smaller and smaller numbers, and ends at the root unless it starts there. -/
structure ClimbsToRoot (t : BufferTree) (i : Nat) : Prop where
  length_le : (t.ancestors i).length ≤ i
  /-- More steps would not lead any further. -/
  climb_eq : ∀ steps, i ≤ steps → t.climb steps i = t.ancestors i
  decreasing : (i :: t.ancestors i).Pairwise (· > ·)
  getLast?_eq : i ≠ t.root → (t.ancestors i).getLast? = some t.root

variable {t : BufferTree}

namespace Linked

variable (wf : t.Linked)
include wf

/-! ## Downwards -/

/-- Going down the child lists leads to the nodes of the subtree and to no others. -/
theorem leadsDown_iff {a b : Nat} : t.LeadsDown a b ↔ t.InSubtree a b := by
  constructor
  · intro h
    induction h with
    | refl => exact .refl t a
    | tail _ hlink ih =>
      exact wf.inSubtree_trans ih (.inr (wf.isAncestor_of_parent (wf.mem_children.1 hlink)))
  · intro h
    -- The last link of the path is the one to the parent of `b`.
    induction b using Nat.strong_induction_on with
    | _ b ih =>
      rcases h with rfl | h
      · exact .refl
      · obtain ⟨p, hp, hap⟩ := wf.isAncestor_iff.1 h
        exact (ih p (wf.parent_lt hp) hap).tail (wf.mem_children.2 hp)

/-! ## The climb to the root -/

theorem pairwise_ancestors (i : Nat) : (i :: t.ancestors i).Pairwise (· > ·) := by
  induction i using Nat.strong_induction_on with
  | _ i ih =>
    refine List.pairwise_cons.2 ⟨fun a ha => wf.isAncestor_lt ha, ?_⟩
    cases hp : t.parent? i with
    | none =>
      rw [ancestors_of_no_parent hp]
      exact .nil
    | some p =>
      rw [wf.ancestors_of_parent hp]
      exact ih p (wf.parent_lt hp)

theorem length_ancestors_le (i : Nat) : (t.ancestors i).length ≤ i := by
  induction i using Nat.strong_induction_on with
  | _ i ih =>
    cases hp : t.parent? i with
    | none =>
      rw [ancestors_of_no_parent hp]
      exact Nat.zero_le i
    | some p =>
      have hlt := wf.parent_lt hp
      have hle := ih p hlt
      rw [wf.ancestors_of_parent hp, List.length_cons]
      omega

theorem getLast?_ancestors {i : Nat} (hi : i < t.size) (hne : i ≠ t.root) :
    (t.ancestors i).getLast? = some t.root := by
  induction i using Nat.strong_induction_on with
  | _ i ih =>
    obtain ⟨p, hp, hlt⟩ := wf.parent_of_pos i (Nat.pos_of_ne_zero hne) hi
    rw [wf.ancestors_of_parent hp]
    by_cases hroot : p = t.root
    · rw [hroot, ancestors_of_no_parent (i := t.root) wf.parent_zero]
      rfl
    · rw [List.getLast?_cons, ih p hlt (Nat.lt_trans hlt hi) hroot]
      rfl

theorem climbsToRoot {i : Nat} (hi : i < t.size) : t.ClimbsToRoot i where
  length_le := wf.length_ancestors_le i
  climb_eq := fun _ hsteps => wf.climb_eq_climb hsteps (Nat.le_of_lt hi)
  decreasing := wf.pairwise_ancestors i
  getLast?_eq := wf.getLast?_ancestors hi

theorem isStrictOrder_isAncestor : IsStrictOrder Nat t.IsAncestor where
  irrefl := fun _ h => Nat.lt_irrefl _ (wf.isAncestor_lt h)
  trans := fun _ _ _ => wf.isAncestor_trans

end Linked

/-- In a built tree the spans, the parent links and the child lists agree on which nodes a subtree
has. Every climb ends at the root in time, and ancestry is a strict partial order. -/
theorem kinship_agrees {stages : List Stage} (h : ofStages stages = .ok t) :
    (∀ a b, a < t.size → b < t.size →
      ((SubtreeSpans.ofTree t).Contains a b ↔ a = b ∨ t.IsAncestor a b) ∧
      (a = b ∨ t.IsAncestor a b ↔ t.LeadsDown a b)) ∧
    (∀ b, b < t.size → t.ClimbsToRoot b) ∧
    IsStrictOrder Nat t.IsAncestor := by
  have wf := ofStages_wellFormed h
  refine ⟨fun a b ha hb => ⟨wf.contains_iff ha hb, wf.leadsDown_iff.symm⟩, fun b hb => ?_, ?_⟩
  · exact wf.climbsToRoot hb
  · exact wf.isStrictOrder_isAncestor

/-- Ten stages with every kind of branching: the last one is three links below the third. -/
theorem kinship_agrees_reference :
    ∃ t, ofStages Sample.reference = .ok t ∧ (SubtreeSpans.ofTree t).Contains 2 9 ∧
      t.LeadsDown 2 9 ∧ ¬ t.LeadsDown 3 9 ∧ t.ClimbsToRoot 9 := by
  obtain ⟨t, h, hsize, hspan, hnot⟩ : ∃ t, ofStages Sample.reference = .ok t ∧ t.size = 10 ∧
      t.IsAncestor 2 9 ∧ ¬ (3 = 9 ∨ t.IsAncestor 3 9) := ⟨_, rfl, rfl, by decide, by decide⟩
  obtain ⟨hagree, hclimb, -⟩ := kinship_agrees h
  obtain ⟨hcontains, hdown⟩ := hagree 2 9 (by omega) (by omega)
  have hother := (hagree 3 9 (by omega) (by omega)).2
  exact ⟨t, h, hcontains.2 (.inr hspan), hdown.1 (.inr hspan), fun h' => hnot (hother.2 h'),
    hclimb 9 (by omega)⟩

end BufferTree

end LifetimeArena
