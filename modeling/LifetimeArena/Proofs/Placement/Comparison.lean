import LifetimeArena.Proofs.Placement.BuiltIn

/-!
# Comparing layouts

A greedy allocator may well answer a smaller request by taking another gap, and need more room in
the end. The strategies of the library never do. What they propose is a stacking, and the offset of
a buffer in a stacking is one number that grows with everything it is made from: with the buffers
that must lie under it, with their sizes, and with the alignment, as long as one alignment divides
the other.

- `StackOrder.Relaxes`: a stacking asks for no more than another, of a tree with as many nodes.
- `StackOrder.Relaxes.offset_le`: so it puts no buffer higher.
- `StrategyKind.place_within`: the same of whole proposals, failures included.
- `worstFit_within_sequential`: worst fit reuses bytes, so it needs no more room than without reuse.
- `worstFit_within_heavier`: lighter buffers and a smaller alignment never need more room.
-/

namespace LifetimeArena

open Finset

/-! ## Trees of one shape -/

namespace BufferTree

/-- Two trees have the same nodes with the same parents. Sizes, stages and payloads may differ. -/
structure SameShape (t t' : BufferTree) : Prop where
  size_eq : t.size = t'.size
  parent_eq : ∀ i, i < t.size → t.parent? i = t'.parent? i

namespace SameShape

variable {t t' : BufferTree} (h : t.SameShape t')
include h

theorem children_eq (wf : t.Linked) (wf' : t'.Linked) (i : Nat) :
    t.children i = t'.children i := by
  rw [wf.children_eq, wf'.children_eq, ← h.size_eq]
  refine List.filter_congr fun c hc => ?_
  rw [h.parent_eq c (List.mem_range.1 hc)]

theorem subtree_eq (wf : t.Linked) (wf' : t'.Linked) (i : Nat) : t.subtree i = t'.subtree i := by
  induction i using wf.induction_on_children with
  | step i ih =>
    rw [wf.subtree_eq, wf'.subtree_eq, ← h.children_eq wf wf', List.flatMap_congr ih]

theorem extent_eq (wf : t.Linked) (wf' : t'.Linked) (i : Nat) : t.extent i = t'.extent i := by
  rw [extent, extent, h.subtree_eq wf wf']

/-- The walk meets the nodes in the same order. -/
theorem rank_eq (wf : t.WellFormed) (wf' : t'.WellFormed) (i : Nat) : t.rank i = t'.rank i := by
  have hwalk : t.preorder = t'.preorder := by
    rw [wf.preorder_eq_subtree, wf'.preorder_eq_subtree]
    exact h.subtree_eq wf.toLinked wf'.toLinked 0
  rw [rank, rank, hwalk]

end SameShape

end BufferTree

/-! ## Stackings -/

namespace StackOrder

/-- A stacking asks for no more than another: whatever it puts under a node the other does, too, no
buffer is larger, and every offset that the other may use it may use as well. -/
structure Relaxes (o : StackOrder) (t : BufferTree) (a : Nat)
    (o' : StackOrder) (t' : BufferTree) (a' : Nat) : Prop where
  size_eq : t.size = t'.size
  under : ∀ {u v}, o.Under u v → o'.Under u v
  weight_le : ∀ i, i < t.size → t.weight i ≤ t'.weight i
  dvd : a ∣ a'

namespace Relaxes

variable {o o' : StackOrder} {t t' : BufferTree} {a a' : Nat} (h : o.Relaxes t a o' t' a')
include h

theorem below_subset (i : Nat) : o.below t i ⊆ o'.below t' i := by
  intro u hu
  obtain ⟨hsize, hunder⟩ := mem_below.1 hu
  exact mem_below.2 ⟨h.size_eq ▸ hsize, h.under hunder⟩

/-- No buffer stands higher. The offset in the other stacking is a multiple of this alignment, too,
so it is enough that it lies behind everything under the buffer. -/
theorem offset_le (ha' : 0 < a') (i : Nat) : o.offset t a i ≤ o'.offset t' a' i := by
  -- The induction is on the rank here; what lies under the buffer there need not lie under it here.
  induction hr : o.rank i using Nat.strong_induction_on generalizing i with
  | _ r ih =>
    rw [offset_eq]
    refine roundUp_le_of_dvd (Nat.dvd_trans h.dvd (dvd_offset i)) ?_
    refine Finset.sup_le fun u hu => ?_
    have hoffset : o.offset t a u ≤ o'.offset t' a' u :=
      ih (o.rank u) (hr ▸ rank_lt_of_mem_below hu) u rfl
    calc o.stop t a u
        = o.offset t a u + t.weight u := rfl
      _ ≤ o'.offset t' a' u + t'.weight u :=
          Nat.add_le_add hoffset (h.weight_le u (mem_below.1 hu).1)
      _ ≤ o'.offset t' a' i := stop_le_offset ha' (h.below_subset i hu)

theorem stop_le (ha' : 0 < a') {i : Nat} (hi : i < t.size) : o.stop t a i ≤ o'.stop t' a' i :=
  Nat.add_le_add (h.offset_le ha' i) (h.weight_le i hi)

theorem arena_le (ha' : 0 < a') : o.arena t a ≤ o'.arena t' a' := by
  refine Finset.sup_le fun i hi => ?_
  have hi' : i < t.size := mem_range.1 hi
  exact Nat.le_trans (h.stop_le ha' hi') (stop_le_arena (h.size_eq ▸ hi'))

end Relaxes

end StackOrder

/-! ## Proposals -/

/-- No buffer of the proposal starts higher than in the other, nor does the proposal need more
room. -/
structure Placement.Within (p q : Placement) : Prop where
  size_eq : p.offsets.size = q.offsets.size
  offset_le : ∀ i x y : Nat, p.offsets[i]? = some x → q.offsets[i]? = some y → x ≤ y
  arenaSize_le : p.arenaSize ≤ q.arenaSize

theorem StackOrder.Relaxes.within {o o' : StackOrder} {t t' : BufferTree} {a a' : Nat}
    (h : o.Relaxes t a o' t' a') (ha' : 0 < a') :
    (o.proposal t a).Within (o'.proposal t' a') where
  size_eq := by
    rw [size_proposal, size_proposal]
    exact h.size_eq
  offset_le := by
    intro i x y hx hy
    obtain ⟨-, rfl⟩ := getElem?_proposal_eq_some_iff.1 hx
    obtain ⟨-, rfl⟩ := getElem?_proposal_eq_some_iff.1 hy
    exact h.offset_le ha' i
  arenaSize_le := h.arena_le ha'

/-- Where a strategy succeeds, one whose stacking asks for no more succeeds as well, and needs no
more room. -/
theorem StrategyKind.place_within (kind kind' : StrategyKind) {t t' : BufferTree} {a a' : Nat}
    (h : (kind.order t).Relaxes t a (kind'.order t') t' a') (wf : t.WellFormed)
    (wf' : t'.WellFormed) (ha : a.isPowerOfTwo) (ha' : a'.isPowerOfTwo) {p' : Placement}
    (hp' : kind'.strategy.place t' a' = .ok p') :
    ∃ p, kind.strategy.place t a = .ok p ∧ p.Within p' := by
  obtain ⟨hle, hword, rfl⟩ := (kind'.place_eq_ok_iff wf' ha').1 hp'
  have hpos : 0 < a' := Nat.pos_of_isPowerOfTwo ha'
  refine ⟨(kind.order t).proposal t a, (kind.place_eq_ok_iff wf ha).2 ⟨?_, ?_, rfl⟩, h.within hpos⟩
  · -- An alignment beyond the word would divide no alignment within it.
    exact Nat.le_trans (Nat.le_of_dvd hpos h.dvd) hle
  · intro i hi
    exact Nat.le_trans (h.stop_le hpos hi) (hword i (h.size_eq ▸ hi))

/-! ## Worst fit against no reuse -/

/-- A subtree is finished only after its root has been met. -/
theorem BufferTree.relaxes_finishOrder_walkOrder (t : BufferTree) (a : Nat) :
    t.finishOrder.Relaxes t a t.walkOrder t a where
  size_eq := rfl
  under := fun {_ _} hunder => t.finishOrder.rank_lt hunder
  weight_le := fun _ _ => Nat.le_refl _
  dvd := Nat.dvd_refl a

/-- If the buffers fit one after the other, worst fit finds a place for each, none higher than that,
and needs no more room. -/
theorem worstFit_within_sequential {stages : List Stage} {t : BufferTree}
    (h : BufferTree.ofStages stages = .ok t) {a : Nat} (ha : a.isPowerOfTwo) {p : Placement}
    (hp : Strategy.sequential.place t a = .ok p) :
    ∃ q, Strategy.worstFit.place t a = .ok q ∧ q.Within p := by
  have wf := BufferTree.ofStages_wellFormed h
  have hrelaxes := t.relaxes_finishOrder_walkOrder a
  exact StrategyKind.place_within .worstFit .sequential hrelaxes wf wf ha ha hp

/-- A root with two children of three bytes each, at an alignment of four. -/
theorem worstFit_within_sequential_star :
    ∃ t p q, BufferTree.ofStages (Sample.star 2 3) = .ok t ∧
      Strategy.sequential.place t 4 = .ok p ∧ p.arenaSize = 11 ∧
      Strategy.worstFit.place t 4 = .ok q ∧ q.arenaSize = 7 ∧ q.Within p := by
  obtain ⟨t, p, h, hp, harena, hfit⟩ : ∃ t p, BufferTree.ofStages (Sample.star 2 3) = .ok t ∧
      Strategy.sequential.place t 4 = .ok p ∧ p.arenaSize = 11 ∧
      Strategy.worstFit.place t 4 = .ok ⟨#[0, 0, 4], 7⟩ := ⟨_, _, rfl, rfl, rfl, rfl⟩
  obtain ⟨q, hq, hwithin⟩ := worstFit_within_sequential h (a := 4) ⟨2, rfl⟩ hp
  rw [hfit] at hq
  cases hq
  exact ⟨t, p, _, h, hp, harena, hfit, rfl, hwithin⟩

/-! ## Lighter buffers, smaller alignments -/

/-- The order of a strategy depends on the shape of the tree only. -/
theorem BufferTree.SameShape.relaxes {t t' : BufferTree} (h : t.SameShape t') (wf : t.WellFormed)
    (wf' : t'.WellFormed) (hweight : ∀ i, i < t.size → t.weight i ≤ t'.weight i) {a a' : Nat}
    (hdvd : a ∣ a') (kind : StrategyKind) :
    (kind.order t).Relaxes t a (kind.order t') t' a' where
  size_eq := h.size_eq
  under := by
    intro u v hunder
    cases kind with
    | worstFit =>
      show t'.rank u + t'.extent u ≤ t'.rank v
      rw [← h.rank_eq wf wf', ← h.rank_eq wf wf', ← h.extent_eq wf.toLinked wf'.toLinked]
      exact hunder
    | sequential =>
      show t'.rank u < t'.rank v
      rw [← h.rank_eq wf wf', ← h.rank_eq wf wf']
      exact hunder
  weight_le := hweight
  dvd := hdvd

/-- If worst fit succeeds on a tree, it succeeds with no heavier buffers and at no larger alignment,
puts no buffer higher and needs no more room. -/
theorem worstFit_within_heavier {stages stages' : List Stage} {t t' : BufferTree}
    (h : BufferTree.ofStages stages = .ok t) (h' : BufferTree.ofStages stages' = .ok t')
    (hshape : t.SameShape t') (hweight : ∀ i, i < t.size → t.weight i ≤ t'.weight i)
    {a a' : Nat} (ha : a.isPowerOfTwo) (ha' : a'.isPowerOfTwo) (hle : a ≤ a') {p' : Placement}
    (hp' : Strategy.worstFit.place t' a' = .ok p') :
    ∃ p, Strategy.worstFit.place t a = .ok p ∧ p.Within p' := by
  have wf := BufferTree.ofStages_wellFormed h
  have wf' := BufferTree.ofStages_wellFormed h'
  have hrelaxes := hshape.relaxes wf wf' hweight (dvd_of_le ha ha' hle) .worstFit
  exact StrategyKind.place_within .worstFit .worstFit hrelaxes wf wf' ha ha' hp'

/-- Three bytes each at an alignment of four, against five each at an alignment of eight. -/
theorem worstFit_within_heavier_star :
    ∃ t t' p p', BufferTree.ofStages (Sample.star 2 3) = .ok t ∧
      BufferTree.ofStages (Sample.star 2 5) = .ok t' ∧
      Strategy.worstFit.place t' 8 = .ok p' ∧ p'.arenaSize = 13 ∧
      Strategy.worstFit.place t 4 = .ok p ∧ p.arenaSize = 7 ∧ p.Within p' := by
  obtain ⟨t, t', p', h, h', hp', harena, hfit, hsize, hparent, hweight⟩ :
      ∃ t t' p', BufferTree.ofStages (Sample.star 2 3) = .ok t ∧
        BufferTree.ofStages (Sample.star 2 5) = .ok t' ∧
        Strategy.worstFit.place t' 8 = .ok p' ∧ p'.arenaSize = 13 ∧
        Strategy.worstFit.place t 4 = .ok ⟨#[0, 0, 4], 7⟩ ∧ t.size = t'.size ∧
        (∀ i, i < t.size → t.parent? i = t'.parent? i) ∧
        ∀ i, i < t.size → t.weight i ≤ t'.weight i :=
    ⟨_, _, _, rfl, rfl, rfl, rfl, rfl, rfl, by decide, by decide⟩
  have hfour : Nat.isPowerOfTwo 4 := ⟨2, rfl⟩
  have height : Nat.isPowerOfTwo 8 := ⟨3, rfl⟩
  obtain ⟨p, hp, hwithin⟩ :=
    worstFit_within_heavier h h' ⟨hsize, hparent⟩ hweight hfour height (by decide) hp'
  rw [hfit] at hp
  cases hp
  exact ⟨t, t', _, p', h, h', hp', harena, hfit, rfl, hwithin⟩

end LifetimeArena
