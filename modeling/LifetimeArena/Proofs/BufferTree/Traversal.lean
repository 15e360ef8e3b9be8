import LifetimeArena.Proofs.BufferTree.Building
import LifetimeArena.Proofs.BufferTree.Preorder

/-!
# The order of the walk

The stack walk of a built tree is over when its stack is empty, and what it has visited then is the
pre-order as one would tell it: a node, then the pre-orders of its children in the order of the
child list. Ancestors come before their descendants, every subtree is visited in one go, and
siblings come in the order in which their stages are listed. Nothing of this depends on how the
stages of different subtrees are mixed in the list.

- `Linked.children_sorted`: the child lists keep the order of the stages.
- `WellFormed.rank_lt_of_inSubtree_siblings`: nobody below a sibling listed later is met earlier.
- `BufferTree.preorder_recursive`: the walk of a built tree.
-/

namespace LifetimeArena

namespace BufferTree

variable {t : BufferTree}

theorem Linked.children_sorted (wf : t.Linked) (i : Nat) : (t.children i).Pairwise (· < ·) := by
  rw [wf.children_eq]
  exact List.pairwise_lt_range.filter _

/-- In a child list the smaller number stands in front. -/
theorem Linked.mem_front_of_lt (wf : t.Linked) {p c d : Nat} {front back : List Nat}
    (hsplit : t.children p = front ++ d :: back) (hc : c ∈ t.children p) (hlt : c < d) :
    c ∈ front := by
  have hsorted := wf.children_sorted p
  rw [hsplit] at hc hsorted
  rcases List.mem_append.1 hc with hc | hc
  · exact hc
  · have hback := List.pairwise_cons.1 (List.pairwise_append.1 hsorted).2.1
    rcases List.mem_cons.1 hc with rfl | hc
    · exact absurd hlt (Nat.lt_irrefl c)
    · exact absurd hlt (Nat.lt_asymm (hback.1 c hc))

namespace WellFormed

variable (wf : t.WellFormed)
include wf

theorem rank_lt_of_isAncestor {a b : Nat} (h : t.IsAncestor a b) : t.rank a < t.rank b := by
  have hb : b < t.size := wf.isAncestor_lt_size h
  have hlt : a < b := wf.isAncestor_lt h
  have hle : t.rank a ≤ t.rank b := ((wf.inSubtree_iff_rank (Nat.lt_trans hlt hb)).1 (.inr h)).1
  refine Nat.lt_of_le_of_ne hle fun heq => Nat.ne_of_gt hlt ?_
  exact wf.rank_injective hb heq.symm

/-- The subtree of a node is visited as a whole before the sibling listed after it. -/
theorem rank_lt_of_inSubtree_siblings {p c d i : Nat} (hc : c ∈ t.children p)
    (hd : d ∈ t.children p) (hlt : c < d) (hi : t.InSubtree c i) : t.rank i < t.rank d := by
  obtain ⟨front, back, hsplit⟩ := List.append_of_mem hd
  have hfront : c ∈ front := wf.mem_front_of_lt hsplit hc hlt
  -- The subtree stands in front as well in the run of the parent's subtree.
  have hparent : p < t.size :=
    Nat.lt_trans (wf.parent_lt (wf.mem_children.1 hd)) (lt_size_of_parent? (wf.mem_children.1 hd))
  obtain ⟨before, after, hrun, -⟩ := wf.exists_run hparent
  have hwalk : t.preorder = (before ++ p :: front.flatMap t.subtree) ++
      d :: ((t.children d).flatMap t.subtree ++ back.flatMap t.subtree ++ after) := by
    rw [hrun, wf.subtree_eq p, hsplit, List.flatMap_append, List.flatMap_cons, wf.subtree_eq d]
    simp
  refine (wf.rank_lt_iff_mem hwalk).2 (List.mem_append_right before (List.mem_cons_of_mem p ?_))
  exact List.mem_flatMap.2 ⟨c, hfront, wf.mem_subtree.2 hi⟩

theorem rank_lt_iff_of_siblings {p c d : Nat} (hc : c ∈ t.children p) (hd : d ∈ t.children p) :
    t.rank c < t.rank d ↔ c < d := by
  refine ⟨fun h => ?_, fun h => wf.rank_lt_of_inSubtree_siblings hc hd h (.refl t c)⟩
  rcases Nat.lt_trichotomy c d with hlt | rfl | hgt
  · exact hlt
  · exact absurd h (Nat.lt_irrefl _)
  · exact absurd h (Nat.lt_asymm (wf.rank_lt_of_inSubtree_siblings hd hc hgt (.refl t d)))

end WellFormed

/-- The walk of a built tree comes to an end and is the recursive pre-order: the root, followed by
the pre-orders of its children in the order of the child list. So it meets every node once and
ancestors before descendants, it goes through every subtree without a break, and it meets siblings
in the order of their numbers, which is the order in which their stages are listed. -/
theorem preorder_recursive {stages : List Stage} (h : ofStages stages = .ok t) :
    (t.Unwinds [t.root] t.preorder ∧ t.preorder = t.subtree t.root ∧
      ∀ r, r < t.size → t.subtree r = r :: (t.children r).flatMap t.subtree) ∧
    t.preorder.Perm (List.range t.size) ∧
    (∀ a b, t.IsAncestor a b → t.rank a < t.rank b) ∧
    (∀ r, r < t.size → (∃ before after, t.preorder = before ++ t.subtree r ++ after) ∧
      ∀ i, i ∈ t.subtree r ↔ r = i ∨ t.IsAncestor r i) ∧
    (∀ p c d, c ∈ t.children p → d ∈ t.children p → (t.rank c < t.rank d ↔ c < d)) ∧
    t.names = stages.map (·.id) := by
  have wf := ofStages_wellFormed h
  refine ⟨⟨?_, wf.preorder_eq_subtree, fun r _ => wf.subtree_eq r⟩, wf.preorder_perm,
    fun a b => wf.rank_lt_of_isAncestor, fun r hr => ⟨?_, fun i => wf.mem_subtree⟩,
    fun p c d => wf.rank_lt_iff_of_siblings, (describesTree_and_mirrors h).2.names_eq⟩
  · rw [wf.preorder_eq_subtree]
    exact wf.unwinds_root
  · obtain ⟨before, after, hrun, -⟩ := wf.exists_run hr
    exact ⟨before, after, by rw [hrun, List.append_assoc]⟩

/-- Ten stages listed level by level: the fifth is met only after the children of the fourth. -/
theorem preorder_recursive_reference :
    ∃ t, ofStages Sample.reference = .ok t ∧ t.Unwinds [0] [0, 1, 2, 3, 6, 7, 4, 8, 9, 5] ∧
      t.rank 3 < t.rank 4 ∧ t.rank 3 < t.rank 7 := by
  obtain ⟨t, h, hwalk, hthree, hfour, hseven⟩ : ∃ t, ofStages Sample.reference = .ok t ∧
      t.preorder = [0, 1, 2, 3, 6, 7, 4, 8, 9, 5] ∧ 3 ∈ t.children 2 ∧ 4 ∈ t.children 2 ∧
      t.IsAncestor 3 7 := ⟨_, rfl, rfl, by decide, by decide, by decide⟩
  obtain ⟨⟨hunwinds, -, -⟩, -, hdown, -, hsiblings, -⟩ := preorder_recursive h
  rw [hwalk] at hunwinds
  exact ⟨t, h, hunwinds, (hsiblings 2 3 4 hthree hfour).2 (by decide), hdown 3 7 hseven⟩

end BufferTree

end LifetimeArena
