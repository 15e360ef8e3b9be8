import LifetimeArena.Proofs.BufferTree.Branch
import LifetimeArena.Proofs.Placement.BuiltIn

/-!
# Layouts are compositional

A branch of a tree is laid out within the whole as it would be on its own: its buffers are where
they would be then, moved up by the offset of the root of the branch. Nothing beside the branch
lures one of its buffers away. What must lie under a buffer of the branch but is not in the branch
must lie under its root as well, and so it is below the branch as a whole. The root starts at a
multiple of the alignment, by which rounding can be moved.

- `StackOrder.Nested`: the order of a branch within the order of the whole.
- `StackOrder.Nested.offset_eq`: the offsets of a branch.
- `IsBranch.nested`: the orders of both strategies nest.
- `StrategyKind.place_branch`: the proposals for a tree and for a branch of it.
-/

namespace LifetimeArena

open Finset

namespace StackOrder

/-- Under a node of a branch lies what lies under the root of the branch, and what lies under the
node in the stacking of the branch on its own. -/
structure Nested (o' : StackOrder) (b : BufferTree) (o : StackOrder) (t : BufferTree) (r : Nat) :
    Prop where
  isBranch : b.IsBranch t r
  below_eq : ∀ j, j < b.size →
    o.below t (t.branchNode r j) = o.below t r ∪ (o'.below b j).image (t.branchNode r)

variable {o o' : StackOrder} {t b : BufferTree} {a r j : Nat}

namespace Nested

variable (h : o'.Nested b o t r)
include h

theorem below_root_subset (hj : j < b.size) : o.below t r ⊆ o.below t (t.branchNode r j) := by
  rw [h.below_eq j hj]
  exact subset_union_left

theorem branchNode_mem_below {k : Nat} (hj : j < b.size) (hk : k ∈ o'.below b j) :
    t.branchNode r k ∈ o.below t (t.branchNode r j) := by
  rw [h.below_eq j hj]
  exact mem_union_right _ (mem_image_of_mem _ hk)

/-- A buffer of the branch starts as far above the root of the branch as it does on its own. -/
theorem offset_eq (ha : 0 < a) (hj : j < b.size) :
    o.offset t a (t.branchNode r j) = o.offset t a r + o'.offset b a j := by
  -- The induction is on the rank in the branch, where everything under the node has a smaller one.
  induction hrank : o'.rank j using Nat.strong_induction_on generalizing j with
  | _ n ih =>
    have hstop : ∀ k ∈ o'.below b j,
        o.stop t a (t.branchNode r k) = o.offset t a r + o'.stop b a k := by
      intro k hk
      have hksize : k < b.size := (mem_below.1 hk).1
      have hoffset := ih (o'.rank k) (hrank ▸ rank_lt_of_mem_below hk) hksize rfl
      rw [stop, stop, hoffset, h.isBranch.weight_eq k hksize, Nat.add_assoc]
    refine Nat.le_antisymm ?_ ?_
    · rw [StackOrder.offset_eq o t a (t.branchNode r j)]
      refine roundUp_le_of_dvd (Nat.dvd_add (dvd_offset r) (dvd_offset j)) ?_
      refine Finset.sup_le fun u hu => ?_
      rw [h.below_eq j hj, mem_union, mem_image] at hu
      rcases hu with hu | ⟨k, hk, rfl⟩
      · exact Nat.le_trans (stop_le_offset ha hu) (Nat.le_add_right _ _)
      · rw [hstop k hk]
        exact Nat.add_le_add_left (stop_le_offset ha hk) _
    · have hroot : o.offset t a r ≤ o.offset t a (t.branchNode r j) := by
        rw [StackOrder.offset_eq o t a r]
        refine roundUp_le_of_dvd (dvd_offset _) (Finset.sup_le fun u hu => ?_)
        exact stop_le_offset ha (h.below_root_subset hj hu)
      -- The difference of the two offsets is a place for the buffer in the branch on its own.
      have hrest : o'.offset b a j ≤ o.offset t a (t.branchNode r j) - o.offset t a r := by
        rw [StackOrder.offset_eq o' b a j]
        refine roundUp_le_of_dvd (Nat.dvd_sub (dvd_offset _) (dvd_offset _)) ?_
        refine Finset.sup_le fun k hk => ?_
        have hle := stop_le_offset ha (h.branchNode_mem_below hj hk)
        rw [hstop k hk] at hle
        omega
      omega

theorem stop_eq (ha : 0 < a) (hj : j < b.size) :
    o.stop t a (t.branchNode r j) = o.offset t a r + o'.stop b a j := by
  rw [stop, stop, h.offset_eq ha hj, h.isBranch.weight_eq j hj, Nat.add_assoc]

end Nested

/-- Orders nest if they agree within the branch, if nothing in the branch lies under its root, and
if nothing outside tells the other nodes of the branch from its root. -/
theorem nested_of_under (h : b.IsBranch t r)
    (hin : ∀ j k, j < b.size → k < b.size →
      (o.Under (t.branchNode r k) (t.branchNode r j) ↔ o'.Under k j))
    (hroot : ∀ k, k < b.size → ¬ o.Under (t.branchNode r k) r)
    (hout : ∀ u j, u < t.size → ¬ t.InSubtree r u → j < b.size →
      (o.Under u (t.branchNode r j) ↔ o.Under u r)) : o'.Nested b o t r where
  isBranch := h
  below_eq := by
    intro j hj
    ext u
    rw [mem_below, mem_union, mem_below, mem_image]
    by_cases hu : u < t.size ∧ t.InSubtree r u
    · obtain ⟨k, hk, rfl⟩ := BufferTree.exists_branchNode hu.1 hu.2
      rw [← h.size_eq] at hk
      rw [and_iff_right hu.1, and_iff_right hu.1, hin j k hj hk, or_iff_right (hroot k hk)]
      constructor
      · intro hunder
        exact ⟨k, mem_below.2 ⟨hk, hunder⟩, rfl⟩
      · rintro ⟨l, hl, heq⟩
        obtain ⟨hlsize, hunder⟩ := mem_below.1 hl
        rwa [(BufferTree.branchNode_inj (h.size_eq ▸ hlsize) (h.size_eq ▸ hk)).1 heq] at hunder
    · have hnot : ¬ ∃ k ∈ o'.below b j, t.branchNode r k = u := by
        rintro ⟨k, hk, rfl⟩
        have hk' := (mem_below.1 hk).1
        exact hu ⟨h.branchNode_lt_size hk', h.inSubtree_branchNode hk'⟩
      rw [or_iff_left hnot]
      refine and_congr_right fun hsize => hout u j hsize (fun hsub => hu ⟨hsize, hsub⟩) hj

end StackOrder

/-! ## The orders of the library -/

namespace BufferTree.IsBranch

variable {t b : BufferTree} {r : Nat} (h : b.IsBranch t r) (wf : t.WellFormed)
  (hr : r < t.size) (wfb : b.WellFormed)
include h wf hr

/-- The walk meets a node from outside before the branch or after all of it. -/
theorem rank_lt_or_lt {u j : Nat} (hu : ¬ t.InSubtree r u) (hj : j < b.size) :
    t.rank u < t.rank r ∨ t.rank (t.branchNode r j) < t.rank u := by
  rw [wf.inSubtree_iff_rank hr] at hu
  have hrun := (wf.inSubtree_iff_rank hr).1 (h.inSubtree_branchNode hj)
  omega

include wfb

theorem nested_finishOrder : b.finishOrder.Nested b t.finishOrder t r := by
  have hrank : ∀ {j}, j < b.size → t.rank (t.branchNode r j) = t.rank r + b.rank j := fun hj =>
    h.rank_eq wf wfb hr hj
  refine StackOrder.nested_of_under h (fun j k hj hk => ?_) (fun k hk hunder => ?_)
    fun u j husize hu hj => ?_
  · show t.rank (t.branchNode r k) + t.extent (t.branchNode r k) ≤ t.rank (t.branchNode r j) ↔
      b.rank k + b.extent k ≤ b.rank j
    rw [hrank hj, hrank hk, h.extent_eq wf wfb hk]
    omega
  · have hlt : t.rank (t.branchNode r k) < t.rank r := t.finishOrder.rank_lt hunder
    rw [hrank hk] at hlt
    omega
  · constructor
    · intro hunder
      have hlt : t.rank u < t.rank (t.branchNode r j) := t.finishOrder.rank_lt hunder
      obtain ⟨-, hnot⟩ := (wf.under_finishOrder_iff husize).1 hunder
      refine (wf.under_finishOrder_iff husize).2 ⟨?_, fun hsub => hnot ?_⟩
      · have hside := h.rank_lt_or_lt wf hr hu hj
        omega
      · exact wf.inSubtree_trans hsub (h.inSubtree_branchNode hj)
    · intro hunder
      show t.rank u + t.extent u ≤ t.rank (t.branchNode r j)
      rw [hrank hj]
      exact Nat.le_trans hunder (Nat.le_add_right _ _)

theorem nested_walkOrder : b.walkOrder.Nested b t.walkOrder t r := by
  have hrank : ∀ {j}, j < b.size → t.rank (t.branchNode r j) = t.rank r + b.rank j := fun hj =>
    h.rank_eq wf wfb hr hj
  refine StackOrder.nested_of_under h (fun j k hj hk => ?_) (fun k hk hunder => ?_)
    fun u j _ hu hj => ?_
  · show t.rank (t.branchNode r k) < t.rank (t.branchNode r j) ↔ b.rank k < b.rank j
    rw [hrank hj, hrank hk]
    omega
  · have hlt : t.rank (t.branchNode r k) < t.rank r := hunder
    rw [hrank hk] at hlt
    omega
  · show t.rank u < t.rank (t.branchNode r j) ↔ t.rank u < t.rank r
    have hside := h.rank_lt_or_lt wf hr hu hj
    rw [hrank hj] at hside ⊢
    omega

/-- Whatever the strategy, the order of a branch is nested in the order of the tree. -/
theorem nested (kind : StrategyKind) : (kind.order b).Nested b (kind.order t) t r := by
  cases kind with
  | worstFit => exact h.nested_finishOrder wf hr wfb
  | sequential => exact h.nested_walkOrder wf hr wfb

end BufferTree.IsBranch

/-- On every built tree the strategies of the library are compositional. Where one succeeds on a
tree, it succeeds on every branch of the tree as well, and puts every buffer of the branch as far
above the root of the branch as it does on the branch alone. So all bytes that the branch uses are
within as many bytes from the start of its root as the branch needs alone. -/
theorem StrategyKind.place_branch (kind : StrategyKind) {stages : List Stage} {t : BufferTree}
    (h : BufferTree.ofStages stages = .ok t) {a : Nat} (ha : a.isPowerOfTwo) {p : Placement}
    (hp : kind.strategy.place t a = .ok p) {r : Nat} (hr : r < t.size) :
    ∃ b q x, BufferTree.ofStages (t.branch r stages) = .ok b ∧
      kind.strategy.place b a = .ok q ∧ p.offsets[r]? = some x ∧
      ∀ i, t.InSubtree r i → ∃ j y, b.indexOf? (t.stageAt i) = some j ∧
        q.offsets[j]? = some y ∧ p.offsets[i]? = some (x + y) ∧
        ∀ z ∈ (⟨x + y, x + y + t.weight i⟩ : Interval), z ∈ (⟨x, x + q.arenaSize⟩ : Interval) := by
  have wf := BufferTree.ofStages_wellFormed h
  have hpos : 0 < a := Nat.pos_of_isPowerOfTwo ha
  obtain ⟨b, hb, hbranch⟩ := BufferTree.exists_branch h hr
  have wfb := BufferTree.ofStages_wellFormed hb
  have hnested := hbranch.nested wf hr wfb kind
  obtain ⟨hle, hword, rfl⟩ := (kind.place_eq_ok_iff wf ha).1 hp
  -- On its own no buffer stops higher than in the whole tree, so the word is large enough.
  have hwordb : ∀ j, j < b.size → (kind.order b).stop b a j ≤ wordMax := by
    intro j hj
    have hstop := hnested.stop_eq hpos hj
    have hlimit := hword _ (hbranch.branchNode_lt_size hj)
    omega
  refine ⟨b, _, _, hb, (kind.place_eq_ok_iff wfb ha).2 ⟨hle, hwordb, rfl⟩,
    StackOrder.getElem?_proposal hr, fun i hi => ?_⟩
  have hisize : i < t.size := by
    rcases hi with rfl | hi
    · exact hr
    · exact wf.isAncestor_lt_size hi
  obtain ⟨j, hj, rfl⟩ := BufferTree.exists_branchNode hisize hi
  rw [← hbranch.size_eq] at hj
  refine ⟨j, _, hbranch.indexOf?_eq j hj, StackOrder.getElem?_proposal hj, ?_, fun z hz => ?_⟩
  · rw [StackOrder.getElem?_proposal hisize, hnested.offset_eq hpos hj]
  · have harena : (kind.order b).stop b a j ≤ (kind.order b).arena b a :=
      StackOrder.stop_le_arena hj
    obtain ⟨hstart, hstop⟩ := Interval.mem_iff.1 hz
    rw [StackOrder.stop, hbranch.weight_eq j hj] at harena
    refine Interval.mem_iff.2 ⟨Nat.le_trans (Nat.le_add_right _ _) hstart, ?_⟩
    exact Nat.lt_of_lt_of_le hstop (by rw [Nat.add_assoc]; exact Nat.add_le_add_left harena _)

/-- The branch of the third of ten stages at an alignment of eight: its root starts at byte 8, and
the fifth stage, 16 bytes above it, starts at byte 24. -/
theorem StrategyKind.place_branch_reference :
    ∃ t p b q j, BufferTree.ofStages Sample.reference = .ok t ∧
      Strategy.worstFit.place t 8 = .ok p ∧
      BufferTree.ofStages (t.branch 2 Sample.reference) = .ok b ∧
      Strategy.worstFit.place b 8 = .ok q ∧ b.indexOf? (.ofNat 4) = some j ∧
      p.offsets[2]? = some 8 ∧ q.offsets[j]? = some 16 ∧ p.offsets[4]? = some 24 := by
  obtain ⟨t, p, h, hp, hsize, hroot, hnode, hsub, hname⟩ : ∃ t p,
      BufferTree.ofStages Sample.reference = .ok t ∧ Strategy.worstFit.place t 8 = .ok p ∧
        2 < t.size ∧ p.offsets[2]? = some 8 ∧ p.offsets[4]? = some 24 ∧ t.InSubtree 2 4 ∧
        t.stageAt 4 = .ofNat 4 := ⟨_, _, rfl, rfl, by decide, rfl, rfl, by decide, rfl⟩
  obtain ⟨b, q, x, hb, hq, hx, hall⟩ :=
    StrategyKind.place_branch .worstFit h (a := 8) ⟨3, rfl⟩ hp hsize
  obtain ⟨j, y, hj, hy, hxy, -⟩ := hall 4 hsub
  rw [hroot] at hx
  rw [hnode] at hxy
  cases hx
  obtain rfl : y = 16 := by
    have hsum := Option.some.inj hxy
    omega
  exact ⟨t, p, b, q, j, h, hp, hb, hq, hname ▸ hj, hroot, hy, hnode⟩

end LifetimeArena
