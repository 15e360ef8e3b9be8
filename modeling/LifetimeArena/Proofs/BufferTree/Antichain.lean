import LifetimeArena.BufferTree.Weight
import LifetimeArena.Proofs.BufferTree.Spans
import Mathlib.Data.Finset.Lattice.Fold
import Mathlib.Data.Finset.Powerset
import Mathlib.Order.Lattice.Nat

/-!
# Antichains

An antichain is a set of pairwise unrelated nodes, all of which may be live at once. `heaviest` is
the largest sum of weights over the antichains among some nodes, by trying them all. In a subtree it
obeys a recursion: an antichain either is the root alone, or it falls apart into antichains of the
subtrees of the children (`Linked.heaviestBelow_eq`). One pass from the leaves upwards therefore
finds it, which is `BufferTree.maxAntichainWeight` (`WellFormed.maxAntichainWeight_eq`).
-/

namespace LifetimeArena

open Finset

namespace BufferTree

variable {t : BufferTree} {w : Nat → Nat}

/-- No two of the nodes are related. -/
def IsAntichain (t : BufferTree) (s : Finset Nat) : Prop :=
  ∀ u ∈ s, ∀ v ∈ s, u ≠ v → ¬ t.Related u v

instance (t : BufferTree) (s : Finset Nat) : Decidable (t.IsAntichain s) :=
  inferInstanceAs (Decidable (∀ u ∈ s, ∀ v ∈ s, u ≠ v → ¬ t.Related u v))

/-- The largest weight of an antichain among the given nodes. -/
def heaviest (t : BufferTree) (w : Nat → Nat) (nodes : Finset Nat) : Nat :=
  {s ∈ nodes.powerset | t.IsAntichain s}.sup fun s => ∑ i ∈ s, w i

/-- The largest weight of an antichain of the tree. -/
def heaviestAntichain (t : BufferTree) (w : Nat → Nat) : Nat := t.heaviest w (range t.size)

theorem isAntichain_empty : t.IsAntichain ∅ := fun u hu => absurd hu (notMem_empty u)

theorem isAntichain_singleton (i : Nat) : t.IsAntichain {i} := by
  intro u hu v hv hne
  rw [mem_singleton] at hu hv
  exact absurd (hu.trans hv.symm) hne

theorem IsAntichain.subset {s s' : Finset Nat} (h : t.IsAntichain s) (hs : s' ⊆ s) :
    t.IsAntichain s' :=
  fun u hu v hv => h u (hs hu) v (hs hv)

theorem sum_le_heaviest {s nodes : Finset Nat} (hs : s ⊆ nodes) (h : t.IsAntichain s) :
    ∑ i ∈ s, w i ≤ t.heaviest w nodes :=
  le_sup (f := fun s => ∑ i ∈ s, w i) (mem_filter.2 ⟨mem_powerset.2 hs, h⟩)

theorem heaviest_le {nodes : Finset Nat} {b : Nat}
    (h : ∀ s ⊆ nodes, t.IsAntichain s → ∑ i ∈ s, w i ≤ b) : t.heaviest w nodes ≤ b := by
  refine Finset.sup_le fun s hs => ?_
  obtain ⟨hsub, hanti⟩ := mem_filter.1 hs
  exact h s (mem_powerset.1 hsub) hanti

theorem exists_heaviest (t : BufferTree) (w : Nat → Nat) (nodes : Finset Nat) :
    ∃ s ⊆ nodes, t.IsAntichain s ∧ ∑ i ∈ s, w i = t.heaviest w nodes := by
  have hne : {s ∈ nodes.powerset | t.IsAntichain s}.Nonempty :=
    ⟨∅, mem_filter.2 ⟨empty_mem_powerset nodes, isAntichain_empty⟩⟩
  obtain ⟨s, hs, hsum⟩ := exists_mem_eq_sup _ hne fun s => ∑ i ∈ s, w i
  obtain ⟨hsub, hanti⟩ := mem_filter.1 hs
  exact ⟨s, mem_powerset.1 hsub, hanti, hsum.symm⟩

theorem heaviest_congr {w' : Nat → Nat} {nodes : Finset Nat} (h : ∀ i ∈ nodes, w i = w' i) :
    t.heaviest w nodes = t.heaviest w' nodes := by
  refine sup_congr rfl fun s hs => sum_congr rfl fun i hi => ?_
  exact h i (mem_powerset.1 (mem_filter.1 hs).1 hi)

/-! ## The recursion -/

/-- The nodes of a subtree. -/
def nodesBelow (t : BufferTree) (i : Nat) : Finset Nat := (t.subtree i).toFinset

namespace Linked

variable (wf : t.Linked)
include wf

theorem mem_nodesBelow {r i : Nat} : i ∈ t.nodesBelow r ↔ t.InSubtree r i := by
  rw [nodesBelow, List.mem_toFinset, wf.mem_subtree]

/-- The subtrees of two children have no node in common. -/
theorem pairwiseDisjoint_nodesBelow (i : Nat) :
    ((t.children i).toFinset : Set Nat).PairwiseDisjoint t.nodesBelow := by
  intro c hc d hd hne
  rw [mem_coe, List.mem_toFinset] at hc hd
  refine disjoint_left.2 fun v hvc hvd => hne ?_
  exact wf.child_eq_of_inSubtree hc hd (wf.mem_nodesBelow.1 hvc) (wf.mem_nodesBelow.1 hvd)

theorem nodesBelow_eq (i : Nat) :
    t.nodesBelow i = insert i ((t.children i).toFinset.biUnion t.nodesBelow) := by
  ext v
  rw [wf.mem_nodesBelow, wf.inSubtree_iff_child, mem_insert, mem_biUnion, eq_comm]
  simp only [List.mem_toFinset, wf.mem_nodesBelow]

/-- An antichain that contains the root of its subtree contains nothing else. -/
theorem eq_singleton_of_mem {i : Nat} {s : Finset Nat} (hs : s ⊆ t.nodesBelow i)
    (h : t.IsAntichain s) (hi : i ∈ s) : s = {i} := by
  refine eq_singleton_iff_unique_mem.2 ⟨hi, fun v hv => ?_⟩
  by_contra hne
  exact h i hi v hv (Ne.symm hne) (related_iff.2 (.inl (wf.mem_nodesBelow.1 (hs hv))))

/-- An antichain without the root is the sum of its parts in the subtrees of the children. -/
theorem sum_eq_sum_children {i : Nat} {s : Finset Nat} (hs : s ⊆ t.nodesBelow i) (hi : i ∉ s) :
    ∑ v ∈ s, w v = ∑ c ∈ (t.children i).toFinset, ∑ v ∈ s ∩ t.nodesBelow c, w v := by
  have hparts : s = (t.children i).toFinset.biUnion fun c => s ∩ t.nodesBelow c := by
    rw [← inter_biUnion]
    refine (inter_eq_left.2 fun v hv => ?_).symm
    have hbelow := hs hv
    rw [wf.nodesBelow_eq, mem_insert] at hbelow
    exact hbelow.resolve_left fun heq => hi (heq ▸ hv)
  have hdisjoint : ((t.children i).toFinset : Set Nat).PairwiseDisjoint
      fun c => s ∩ t.nodesBelow c := by
    intro c hc d hd hne
    exact (wf.pairwiseDisjoint_nodesBelow i hc hd hne).mono inter_subset_right inter_subset_right
  rw [← sum_biUnion hdisjoint, ← hparts]

/-- Antichains of the children's subtrees together are one. -/
theorem isAntichain_biUnion {i : Nat} {parts : Nat → Finset Nat}
    (hsub : ∀ c ∈ (t.children i).toFinset, parts c ⊆ t.nodesBelow c)
    (h : ∀ c ∈ (t.children i).toFinset, t.IsAntichain (parts c)) :
    t.IsAntichain ((t.children i).toFinset.biUnion parts) := by
  intro u hu v hv hne hrelated
  obtain ⟨c, hc, huc⟩ := mem_biUnion.1 hu
  obtain ⟨d, hd, hvd⟩ := mem_biUnion.1 hv
  have hcu := wf.mem_nodesBelow.1 (hsub c hc huc)
  have hdv := wf.mem_nodesBelow.1 (hsub d hd hvd)
  have hcd : c = d := by
    rw [List.mem_toFinset] at hc hd
    rcases related_iff.1 hrelated with huv | hvu
    · exact wf.child_eq_of_inSubtree hc hd (wf.inSubtree_trans hcu huv) hdv
    · exact wf.child_eq_of_inSubtree hc hd hcu (wf.inSubtree_trans hdv hvu)
  subst hcd
  exact h c hc u huc v hvd hne hrelated

/-- Below a node either the node itself is taken, or the best sets below its children are put
together. -/
theorem heaviestBelow_eq (w : Nat → Nat) (i : Nat) :
    t.heaviest w (t.nodesBelow i) =
      max (w i) (∑ c ∈ (t.children i).toFinset, t.heaviest w (t.nodesBelow c)) := by
  refine Nat.le_antisymm (heaviest_le fun s hs h => ?_) (Nat.max_le.2 ⟨?_, ?_⟩)
  · -- An antichain either is the root alone or falls apart.
    by_cases hi : i ∈ s
    · rw [wf.eq_singleton_of_mem hs h hi, sum_singleton]
      exact Nat.le_max_left _ _
    · rw [wf.sum_eq_sum_children hs hi]
      refine Nat.le_trans (sum_le_sum fun c _ => ?_) (Nat.le_max_right _ _)
      exact sum_le_heaviest inter_subset_right (h.subset inter_subset_left)
  · have hroot : {i} ⊆ t.nodesBelow i :=
      singleton_subset_iff.2 (wf.mem_nodesBelow.2 (InSubtree.refl t i))
    have hle := sum_le_heaviest (w := w) hroot (isAntichain_singleton (t := t) i)
    rwa [sum_singleton] at hle
  · -- Put together, the best sets below the children are one antichain.
    choose parts hsub hanti hsum using fun c => exists_heaviest t w (t.nodesBelow c)
    have hdisjoint : ((t.children i).toFinset : Set Nat).PairwiseDisjoint parts := by
      intro c hc d hd hne
      exact (wf.pairwiseDisjoint_nodesBelow i hc hd hne).mono (hsub c) (hsub d)
    have hunion : (t.children i).toFinset.biUnion parts ⊆ t.nodesBelow i := by
      rw [wf.nodesBelow_eq i]
      exact (biUnion_mono fun c _ => hsub c).trans (subset_insert i _)
    calc ∑ c ∈ (t.children i).toFinset, t.heaviest w (t.nodesBelow c)
        = ∑ c ∈ (t.children i).toFinset, ∑ v ∈ parts c, w v :=
          sum_congr rfl fun c _ => (hsum c).symm
      _ = ∑ v ∈ (t.children i).toFinset.biUnion parts, w v := (sum_biUnion hdisjoint).symm
      _ ≤ t.heaviest w (t.nodesBelow i) :=
          sum_le_heaviest hunion (wf.isAntichain_biUnion (fun c _ => hsub c) fun c _ => hanti c)

/-- Where children never outweigh their parent, nothing below a node outweighs the node. -/
theorem heaviestBelow_of_children_le
    (h : ∀ i, ∑ c ∈ (t.children i).toFinset, w c ≤ w i) (i : Nat) :
    t.heaviest w (t.nodesBelow i) = w i := by
  induction i using wf.induction_on_children with
  | step i ih =>
    have hchildren : ∑ c ∈ (t.children i).toFinset, t.heaviest w (t.nodesBelow c) =
        ∑ c ∈ (t.children i).toFinset, w c :=
      sum_congr rfl fun c hc => ih c (List.mem_toFinset.1 hc)
    rw [wf.heaviestBelow_eq, hchildren, Nat.max_eq_left (h i)]

end Linked

/-! ## The pass from the leaves upwards -/

/-- The sums that the pass has collected when it has been at the visited nodes. -/
def sumsAfter (t : BufferTree) (visited : List Nat) : Array Nat :=
  visited.foldl t.creditParent (Array.replicate t.size 0)

namespace WellFormed

variable (wf : t.WellFormed)
include wf

theorem nodesBelow_root : t.nodesBelow t.root = range t.size := by
  ext i
  rw [wf.mem_nodesBelow, wf.inSubtree_root_iff, mem_range]

theorem childrenFirst_reverse_range : t.ChildrenFirst (List.range t.size).reverse := by
  unfold ChildrenFirst
  rw [List.pairwise_reverse]
  refine List.pairwise_lt_range.imp fun {a b} hlt hparent => ?_
  have hgt := wf.parent_lt hparent
  omega

/-- A pass that has come down to some number has seen all children of the nodes that it visited. -/
theorem children_visited {visited rest : List Nat}
    (hpass : (List.range t.size).reverse = visited ++ rest) :
    ∀ i ∈ visited, ∀ c ∈ t.children i, c ∈ visited := by
  intro i hi c hc
  have hparent := wf.mem_children.1 hc
  have hmem : c ∈ visited ++ rest := by
    rw [← hpass, List.mem_reverse, List.mem_range]
    exact lt_size_of_parent? hparent
  have horder : (visited ++ rest).Pairwise fun a b => b < a := by
    rw [← hpass, List.pairwise_reverse]
    exact List.pairwise_lt_range
  rcases List.mem_append.1 hmem with h | h
  · exact h
  · -- What is still to come has smaller numbers, but a child has a larger one.
    have hlt := (List.pairwise_append.1 horder).2.2 i hi c h
    have hgt := wf.parent_lt hparent
    omega

/-- In the middle of the pass the entry of a node is what the best sets below its visited children
add up to. -/
theorem getD_sumsAfter {visited rest : List Nat}
    (hpass : (List.range t.size).reverse = visited ++ rest) {i : Nat} (hi : i < t.size) :
    (t.sumsAfter visited).getD i 0 =
      ∑ c ∈ (t.children i).toFinset with c ∈ visited, t.heaviest t.weight (t.nodesBelow c) := by
  have hrecursion : ∀ j, ∑ c ∈ (t.children j).toFinset, t.heaviest t.weight (t.nodesBelow c) =
      0 + ∑ c ∈ (t.children j).toFinset, max (t.weight c)
        (∑ d ∈ (t.children c).toFinset, t.heaviest t.weight (t.nodesBelow d)) := by
    intro j
    rw [Nat.zero_add]
    exact sum_congr rfl fun c _ => wf.heaviestBelow_eq t.weight c
  have hnodup : (visited ++ rest).Nodup := by
    rw [← hpass, List.nodup_reverse]
    exact List.nodup_range
  have hsize : ∀ j ∈ visited, j < t.size := by
    intro j hj
    rw [← List.mem_range, ← List.mem_reverse, hpass]
    exact List.mem_append_left rest hj
  have horder : t.ChildrenFirst (visited ++ rest) := hpass ▸ wf.childrenFirst_reverse_range
  -- The pass credits the larger of the weight and the entry, and that is the best weight below.
  have hentry : (t.sumsAfter visited).getD i 0 =
      0 + ∑ c ∈ (t.children i).toFinset with c ∈ visited, max (t.weight c)
        (∑ d ∈ (t.children c).toFinset, t.heaviest t.weight (t.nodesBelow d)) :=
    wf.getD_foldl_credit hrecursion (List.nodup_append.1 hnodup).1 hsize
      (List.pairwise_append.1 horder).1 (wf.children_visited hpass) hi
  rw [hentry, Nat.zero_add]
  exact sum_congr rfl fun c _ => (wf.heaviestBelow_eq t.weight c).symm

theorem childSums_eq {i : Nat} (hi : i < t.size) :
    t.childSums.getD i 0 =
      ∑ c ∈ (t.children i).toFinset, t.heaviest t.weight (t.nodesBelow c) := by
  have hentry := wf.getD_sumsAfter (List.append_nil _).symm hi
  rwa [filter_true_of_mem fun c hc => ?_] at hentry
  rw [List.mem_reverse, List.mem_range]
  exact lt_size_of_parent? (wf.mem_children.1 (List.mem_toFinset.1 hc))

/-- The pass finds the heaviest antichain. -/
theorem maxAntichainWeight_eq : t.maxAntichainWeight = t.heaviestAntichain t.weight := by
  rw [maxAntichainWeight, bestBelow, wf.childSums_eq (i := t.root) wf.size_pos, heaviestAntichain,
    ← wf.nodesBelow_root, wf.heaviestBelow_eq]

/-- Where children never outweigh their parent, the root alone is the heaviest antichain. -/
theorem maxAntichainWeight_of_children_le
    (h : ∀ i, ∑ c ∈ (t.children i).toFinset, t.weight c ≤ t.weight i) :
    t.maxAntichainWeight = t.weight t.root := by
  rw [wf.maxAntichainWeight_eq, heaviestAntichain, ← wf.nodesBelow_root,
    wf.heaviestBelow_of_children_le h]

end WellFormed

end BufferTree

end LifetimeArena
