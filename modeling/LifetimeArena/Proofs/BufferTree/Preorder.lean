import LifetimeArena.Proofs.BufferTree.Ancestry
import Mathlib.Data.List.Nodup
import Mathlib.Data.List.Infix

/-!
# The pre-order

The stack of `BufferTree.preorder` unwinds into the recursive pre-order: a node, then the subtrees
of its children one after the other. So every node is visited once, a subtree is one contiguous run
of the walk, and kinship can be read off two numbers: where the walk meets a node, and how many
nodes its subtree has.

- `BufferTree.subtree`: the recursive pre-order of a subtree.
- `BufferTree.Unwinds`: what the walk from a stack visits until the stack is empty.
- `Linked.unwinds_subtree`: one node on the stack unwinds into its subtree.
- `WellFormed.preorder_eq_subtree`, `WellFormed.preorder_perm`: the walk visits every node once.
- `BufferTree.rank`: the position of a node in the walk.
- `WellFormed.inSubtree_iff_rank`: kinship by ranks.
-/

namespace LifetimeArena

namespace BufferTree

/-- The nodes of a subtree: its root, then the subtrees of the root's children in listing order. A
child has a larger number than its parent, which is what bounds the recursion. -/
def subtree (t : BufferTree) (i : Nat) : List Nat :=
  i :: (t.children i).flatMap fun c => if i < c ∧ c < t.size then t.subtree c else []
termination_by t.size - i

/-- The walk from this stack visits these nodes and is over, the stack being empty then: whatever
comes to the top is a node of the tree, and its children take its place. How many steps there may be
is left open. -/
inductive Unwinds (t : BufferTree) : (stack visited : List Nat) → Prop where
  | done : Unwinds t [] []
  | visit {i : Nat} {n : Node} {stack visited : List Nat} (found : t.get? i = some n)
      (rest : Unwinds t (n.children ++ stack) visited) : Unwinds t (i :: stack) (i :: visited)

namespace Unwinds

variable {t : BufferTree} {stack visited : List Nat}

/-- A walk that is over would not go on, had it more steps. -/
theorem unwind_eq (h : t.Unwinds stack visited) {steps : Nat} (hsteps : visited.length ≤ steps) :
    t.unwind steps stack = visited := by
  induction h generalizing steps with
  | done => cases steps <;> rfl
  | visit found _ ih =>
    obtain ⟨steps, rfl⟩ := Nat.exists_eq_add_of_lt hsteps
    rw [unwind, children_of_get? found, ih (by omega)]

/-- The stack is a forest still to be visited: if each of its trees unwinds into its subtree, they
do so one after the other. -/
theorem forest_append {forest : List Nat}
    (h : ∀ i ∈ forest, ∀ stack visited, t.Unwinds stack visited →
      t.Unwinds (i :: stack) (t.subtree i ++ visited))
    (hrest : t.Unwinds stack visited) :
    t.Unwinds (forest ++ stack) (forest.flatMap t.subtree ++ visited) := by
  induction forest with
  | nil => exact hrest
  | cons i forest ih =>
    have hforest := ih fun j hj => h j (List.mem_cons_of_mem i hj)
    rw [List.flatMap_cons, List.append_assoc]
    exact h i (List.mem_cons_self ..) _ _ hforest

end Unwinds

namespace Linked

variable {t : BufferTree} (wf : t.Linked)
include wf

theorem subtree_eq (i : Nat) : t.subtree i = i :: (t.children i).flatMap t.subtree := by
  rw [subtree]
  congr 1
  refine List.flatMap_congr fun c hc => ?_
  have hparent := wf.mem_children.1 hc
  exact if_pos ⟨wf.parent_lt hparent, lt_size_of_parent? hparent⟩

theorem mem_subtree {r i : Nat} : i ∈ t.subtree r ↔ t.InSubtree r i := by
  induction r using wf.induction_on_children with
  | step r ih =>
    rw [wf.subtree_eq, List.mem_cons, List.mem_flatMap, wf.inSubtree_iff_child, eq_comm]
    exact or_congr Iff.rfl (exists_congr fun c => and_congr_right fun hc => ih c hc)

theorem nodup_subtree (i : Nat) : (t.subtree i).Nodup := by
  induction i using wf.induction_on_children with
  | step i ih =>
    rw [wf.subtree_eq, List.nodup_cons, List.nodup_flatMap]
    refine ⟨?_, ih, ?_⟩
    · intro h
      obtain ⟨c, hc, hi⟩ := List.mem_flatMap.1 h
      have hle := wf.inSubtree_le (wf.mem_subtree.1 hi)
      have hlt := wf.parent_lt (wf.mem_children.1 hc)
      omega
    · refine (wf.nodup_children i).imp_of_mem fun {c d} hc hd hne j hjc hjd => hne ?_
      exact wf.child_eq_of_inSubtree hc hd (wf.mem_subtree.1 hjc) (wf.mem_subtree.1 hjd)

/-! ## Unwinding the stack -/

/-- A node on the stack unwinds into its subtree before anything below it is touched. -/
theorem unwinds_subtree {i : Nat} (hi : i < t.size) {stack visited : List Nat}
    (hrest : t.Unwinds stack visited) : t.Unwinds (i :: stack) (t.subtree i ++ visited) := by
  induction i using wf.induction_on_children generalizing stack visited with
  | step i ih =>
    obtain ⟨n, hn⟩ := exists_get? hi
    have hchildren : t.Unwinds (t.children i ++ stack)
        ((t.children i).flatMap t.subtree ++ visited) := by
      refine .forest_append (fun c hc _ _ h => ih c hc ?_ h) hrest
      exact lt_size_of_parent? (wf.mem_children.1 hc)
    rw [wf.subtree_eq, List.cons_append]
    exact .visit hn (children_of_get? hn ▸ hchildren)

/-- A subtree is one contiguous run of every subtree around it. -/
theorem subtree_infix {r i : Nat} (h : t.InSubtree r i) : t.subtree i <:+: t.subtree r := by
  induction r using wf.induction_on_children with
  | step r ih =>
    rcases wf.inSubtree_iff_child.1 h with rfl | ⟨c, hc, hci⟩
    · exact List.infix_rfl
    · obtain ⟨before, after, hsplit⟩ := List.append_of_mem hc
      have hrun : t.subtree c <:+: t.subtree r := by
        refine ⟨r :: before.flatMap t.subtree, after.flatMap t.subtree, ?_⟩
        rw [wf.subtree_eq r, hsplit]
        simp
      exact (ih c hc hci).trans hrun

/-- Nobody is met after one of its descendants. -/
theorem pairwise_subtree (i : Nat) :
    (t.subtree i).Pairwise fun a b => ¬ t.IsAncestor b a := by
  induction i using wf.induction_on_children with
  | step i ih =>
    rw [wf.subtree_eq, List.pairwise_cons, List.pairwise_flatMap]
    refine ⟨?_, ih, ?_⟩
    · -- The root has the smallest number, so none of the others is an ancestor of it.
      intro b hb h
      obtain ⟨c, hc, hbc⟩ := List.mem_flatMap.1 hb
      have hle := wf.inSubtree_le (wf.mem_subtree.1 hbc)
      have hlt := wf.parent_lt (wf.mem_children.1 hc)
      have hbi := wf.isAncestor_lt h
      omega
    · refine (wf.nodup_children i).imp_of_mem fun {c d} hc hd hne a hac b hbd h => hne ?_
      have hda : t.InSubtree d a := wf.inSubtree_trans (wf.mem_subtree.1 hbd) (.inr h)
      exact wf.child_eq_of_inSubtree hc hd (wf.mem_subtree.1 hac) hda

end Linked

/-! ## The whole walk -/

/-- The position at which the walk meets a node. -/
def rank (t : BufferTree) (i : Nat) : Nat := t.preorder.idxOf i

/-- The number of nodes in the subtree of a node. -/
def extent (t : BufferTree) (i : Nat) : Nat := (t.subtree i).length

theorem extent_pos (t : BufferTree) (i : Nat) : 0 < t.extent i := by
  rw [extent, subtree]
  exact Nat.succ_pos _

namespace WellFormed

variable {t : BufferTree} (wf : t.WellFormed)
include wf

theorem inSubtree_root_iff {i : Nat} : t.InSubtree t.root i ↔ i < t.size := by
  refine ⟨?_, wf.toLinked.inSubtree_root⟩
  rintro (rfl | h)
  · exact wf.size_pos
  · exact wf.isAncestor_lt_size h

theorem subtree_root_perm : (t.subtree t.root).Perm (List.range t.size) := by
  rw [List.perm_ext_iff_of_nodup (wf.nodup_subtree _) List.nodup_range]
  intro i
  rw [wf.mem_subtree, wf.inSubtree_root_iff, List.mem_range]

/-- From the root the walk visits the recursive pre-order of the whole tree. -/
theorem unwinds_root : t.Unwinds [t.root] (t.subtree t.root) := by
  have hroot := wf.unwinds_subtree (i := t.root) wf.size_pos .done
  rwa [List.append_nil] at hroot

/-- The stack walk is the recursive pre-order. It has as many steps as there are nodes, which is
what it needs. -/
theorem preorder_eq_subtree : t.preorder = t.subtree t.root := by
  refine wf.unwinds_root.unwind_eq (Nat.le_of_eq ?_)
  rw [wf.subtree_root_perm.length_eq, List.length_range]

/-- Every node is visited exactly once. -/
theorem preorder_perm : t.preorder.Perm (List.range t.size) := by
  rw [wf.preorder_eq_subtree]
  exact wf.subtree_root_perm

theorem nodup_preorder : t.preorder.Nodup := wf.preorder_perm.nodup_iff.2 List.nodup_range

theorem mem_preorder {i : Nat} : i ∈ t.preorder ↔ i < t.size := by
  rw [wf.preorder_perm.mem_iff, List.mem_range]

theorem lt_size_of_split {before after : List Nat} {i : Nat}
    (h : t.preorder = before ++ i :: after) : i < t.size :=
  wf.mem_preorder.1 (h ▸ List.mem_append_right _ (List.mem_cons_self ..))

theorem lt_size_of_mem_before {before after : List Nat} {j : Nat}
    (h : t.preorder = before ++ after) (hj : j ∈ before) : j < t.size :=
  wf.mem_preorder.1 (h ▸ List.mem_append_left _ hj)

/-! ## Ranks -/

theorem rank_injective {i j : Nat} (hi : i < t.size) (h : t.rank i = t.rank j) : i = j :=
  (List.idxOf_inj (wf.mem_preorder.2 hi)).1 h

theorem rank_of_split {before after : List Nat} {i : Nat} (h : t.preorder = before ++ i :: after) :
    t.rank i = before.length := by
  have hnodup := wf.nodup_preorder
  rw [h] at hnodup
  have hnot : i ∉ before := fun hmem =>
    (List.nodup_append.1 hnodup).2.2 i hmem i (List.mem_cons_self ..) rfl
  rw [rank, h, List.idxOf_append_of_notMem hnot, List.idxOf_cons_self, Nat.add_zero]

theorem rank_lt_iff_mem {before after : List Nat} {i j : Nat}
    (h : t.preorder = before ++ i :: after) : t.rank j < t.rank i ↔ j ∈ before := by
  rw [wf.rank_of_split h, rank, h]
  constructor
  · intro hlt
    by_contra hj
    rw [List.idxOf_append_of_notMem hj] at hlt
    omega
  · intro hj
    rw [List.idxOf_append_of_mem hj]
    exact List.idxOf_lt_length_iff.2 hj

/-- The walk goes through a subtree in one run, which starts at its root. -/
theorem exists_run {r : Nat} (hr : r < t.size) :
    ∃ before after, t.preorder = before ++ (t.subtree r ++ after) ∧ t.rank r = before.length := by
  obtain ⟨before, after, hrun⟩ : t.subtree r <:+: t.preorder := by
    rw [wf.preorder_eq_subtree]
    exact wf.subtree_infix (wf.toLinked.inSubtree_root hr)
  rw [List.append_assoc] at hrun
  refine ⟨before, after, hrun.symm, ?_⟩
  rw [wf.subtree_eq r, List.cons_append] at hrun
  exact wf.rank_of_split hrun.symm

/-- A node lies in a subtree if the walk meets it while it is in that subtree. -/
theorem inSubtree_iff_rank {r i : Nat} (hr : r < t.size) :
    t.InSubtree r i ↔ t.rank r ≤ t.rank i ∧ t.rank i < t.rank r + t.extent r := by
  obtain ⟨before, after, hrun, hrank⟩ := wf.exists_run hr
  have hsplit : t.preorder = before ++ r :: ((t.children r).flatMap t.subtree ++ after) := by
    rw [hrun, wf.subtree_eq r, List.cons_append]
  have hnodup := wf.nodup_preorder
  rw [hrun] at hnodup
  obtain ⟨-, -, hbefore⟩ := List.nodup_append.1 hnodup
  rw [← wf.mem_subtree]
  constructor
  · -- Inside the run a node stands as far behind the root as it does in the run itself.
    intro hmem
    have hnot : i ∉ before := fun h => hbefore i h i (List.mem_append_left after hmem) rfl
    have hpos : (t.subtree r).idxOf i < t.extent r := List.idxOf_lt_length_iff.2 hmem
    have hidx : t.rank i = before.length + (t.subtree r).idxOf i := by
      rw [rank, hrun, List.idxOf_append_of_notMem hnot,
        List.idxOf_append_of_mem hmem]
    omega
  · -- A node that is not in the run is met before it or after all of it.
    rintro ⟨hge, hlt⟩
    have hnot : i ∉ before := fun h => by
      have := (wf.rank_lt_iff_mem hsplit).2 h
      omega
    by_contra hmem
    have hidx : t.rank i = before.length + (t.extent r + after.idxOf i) := by
      rw [rank, hrun, List.idxOf_append_of_notMem hnot,
        List.idxOf_append_of_notMem hmem, extent]
    omega

end WellFormed

end BufferTree

end LifetimeArena
