import LifetimeArena.Placement.WorstFit
import LifetimeArena.Proofs.BufferTree.Spans
import LifetimeArena.Proofs.Placement.GapSearch
import LifetimeArena.Proofs.Placement.Stacking

/-!
# Worst fit stacks

When a node is placed, the buffers to avoid are those in subtrees that the walk has finished. The
ones among them that were placed first had to avoid fewer, so by induction each stands on the first
aligned byte behind those it had to avoid itself, and together they leave no aligned byte free below
their top. The search for a gap therefore never finds one: worst fit is the stacking of
`BufferTree.finishOrder` (`worstFit_eq_place`).

The invariant of the walk is `Packing.Matches`: whatever has been placed is where the stacking puts
it.
-/

namespace LifetimeArena

open Finset

namespace BufferTree

/-- A node lies under those that the walk meets after it has left the node's subtree. -/
def finishOrder (t : BufferTree) : StackOrder where
  rank := t.rank
  Under u v := t.rank u + t.extent u ≤ t.rank v
  decidableUnder _ _ := inferInstance
  rank_lt {u v} h := by
    have hpos := t.extent_pos u
    omega
  trans {u v w} huv hvw := by omega

theorem WellFormed.under_finishOrder_iff {t : BufferTree} (wf : t.WellFormed) {u v : Nat}
    (hu : u < t.size) :
    t.finishOrder.Under u v ↔ t.rank u < t.rank v ∧ ¬ t.InSubtree u v := by
  show t.rank u + t.extent u ≤ t.rank v ↔ _
  rw [wf.inSubtree_iff_rank hu]
  have hpos := t.extent_pos u
  omega

end BufferTree

namespace Packing

variable {t : BufferTree} {a : Nat}

/-- Everything placed so far is where the stacking of finished subtrees puts it, within the word. -/
structure Matches (t : BufferTree) (a : Nat) (visited : List Nat) (s : Packing) : Prop where
  filled : t.finishOrder.Filled t a visited s.offsets
  taken : s.taken.Perm (visited.map fun i => ⟨t.finishOrder.interval t a i, i⟩)
  sorted : s.taken.Pairwise Occupied.Before
  arenaSize : s.arenaSize = t.finishOrder.reach t a visited
  word : s.arenaSize ≤ wordMax

theorem matches_empty (t : BufferTree) (a : Nat) : Matches t a [] (empty t) where
  filled := StackOrder.filled_replicate
  taken := .refl _
  sorted := .nil
  arenaSize := rfl
  word := Nat.zero_le _

section

variable {visited rest : List Nat} {i : Nat} {s : Packing}

theorem mem_taken_iff (hs : Matches t a visited s) {p : Occupied} :
    p ∈ s.taken ↔ ∃ u ∈ visited, p = ⟨t.finishOrder.interval t a u, u⟩ := by
  rw [hs.taken.mem_iff, List.mem_map]
  exact exists_congr fun u => and_congr_right fun _ => eq_comm

/-- The obstacles of the next node are the buffers under it. -/
theorem mem_obstacles_iff (wf : t.WellFormed) (hwalk : t.preorder = visited ++ i :: rest)
    (hs : Matches t a visited s) {r : Interval} :
    r ∈ s.obstacles (SubtreeSpans.ofTree t) i ↔
      ∃ u ∈ t.finishOrder.below t i, r = t.finishOrder.interval t a u := by
  have hi : i < t.size := wf.lt_size_of_split hwalk
  have hvisited : ∀ {u}, u ∈ visited → u < t.size := fun hu => wf.lt_size_of_mem_before hwalk hu
  unfold obstacles
  rw [List.mem_map]
  constructor
  · rintro ⟨p, hp, rfl⟩
    obtain ⟨hptaken, hnot⟩ := List.mem_filter.1 hp
    obtain ⟨u, hu, rfl⟩ := (mem_taken_iff hs).1 hptaken
    rw [decide_eq_true_iff, wf.contains_iff (hvisited hu) hi] at hnot
    refine ⟨u, StackOrder.mem_below.2 ⟨hvisited hu, ?_⟩, rfl⟩
    exact (wf.under_finishOrder_iff (hvisited hu)).2 ⟨(wf.rank_lt_iff_mem hwalk).2 hu, hnot⟩
  · rintro ⟨u, hu, rfl⟩
    obtain ⟨husize, hunder⟩ := StackOrder.mem_below.1 hu
    obtain ⟨hrank, hnot⟩ := (wf.under_finishOrder_iff husize).1 hunder
    refine ⟨⟨t.finishOrder.interval t a u, u⟩, List.mem_filter.2 ⟨?_, ?_⟩, rfl⟩
    · exact (mem_taken_iff hs).2 ⟨u, (wf.rank_lt_iff_mem hwalk).1 hrank, rfl⟩
    · rw [decide_eq_true_iff, wf.contains_iff husize hi]
      exact hnot

theorem topOf_obstacles (wf : t.WellFormed) (hwalk : t.preorder = visited ++ i :: rest)
    (hs : Matches t a visited s) :
    topOf (s.obstacles (SubtreeSpans.ofTree t) i) = t.finishOrder.floor t a i := by
  refine Nat.le_antisymm ?_ ?_
  · refine topOf_le_iff.2 fun r hr => ?_
    obtain ⟨u, hu, rfl⟩ := (mem_obstacles_iff wf hwalk hs).1 hr
    exact StackOrder.stop_le_floor hu
  · refine Finset.sup_le fun u hu => ?_
    exact le_topOf_of_mem ((mem_obstacles_iff wf hwalk hs).2 ⟨u, hu, rfl⟩)

theorem byStart_obstacles (hs : Matches t a visited s) (spans : SubtreeSpans) :
    ByStart (s.obstacles spans i) := by
  unfold ByStart obstacles
  rw [List.pairwise_map]
  refine (hs.sorted.filter _).imp fun {p q} h => ?_
  rcases h with h | ⟨h, -⟩
  · exact Nat.le_of_lt h
  · exact Nat.le_of_eq h

/-- Below the top of the obstacles no aligned byte is free. -/
theorem packed_obstacles (wf : t.WellFormed) (ha : 0 < a)
    (hwalk : t.preorder = visited ++ i :: rest) (hs : Matches t a visited s) :
    Packed a (s.obstacles (SubtreeSpans.ofTree t) i) where
  sorted := byStart_obstacles hs _
  start_lt_stop := by
    intro r hr
    obtain ⟨u, hu, rfl⟩ := (mem_obstacles_iff wf hwalk hs).1 hr
    have hw := wf.weight_pos u (StackOrder.mem_below.1 hu).1
    show t.finishOrder.offset t a u < t.finishOrder.offset t a u + t.weight u
    omega
  cover := by
    intro m hm hlt
    rw [topOf_obstacles wf hwalk hs] at hlt
    obtain ⟨u, hu, hstart, hstop⟩ := StackOrder.exists_cover ha hm hlt
    exact ⟨_, (mem_obstacles_iff wf hwalk hs).2 ⟨u, hu, rfl⟩, hstart, hstop⟩

/-- The interval chosen for the next node is that of the stacking, if it stays within the word. -/
theorem choose?_eq (wf : t.WellFormed) (ha : a.isPowerOfTwo) (hle : a ≤ wordMax + 1)
    (hwalk : t.preorder = visited ++ i :: rest) (hs : Matches t a visited s) :
    s.choose? t (SubtreeSpans.ofTree t) a i =
      if wordMax < t.finishOrder.stop t a i then none else some (t.finishOrder.interval t a i) := by
  have hweight : 0 < t.weight i := wf.weight_pos i (wf.lt_size_of_split hwalk)
  have hpacked := packed_obstacles wf (Nat.pos_of_isPowerOfTwo ha) hwalk hs
  rw [choose?, hpacked.chooseOffset?_eq ha hweight, topOf_obstacles wf hwalk hs,
    StackOrder.bind_ofLength? ha hle]

/-- Entering the interval of the stacking keeps the invariant. -/
theorem matches_enter (hi : i < t.size) (hs : Matches t a visited s)
    (hstop : t.finishOrder.stop t a i ≤ wordMax) :
    Matches t a (visited ++ [i]) (s.enter i (t.finishOrder.interval t a i)) where
  filled := hs.filled.setIfInBounds hi
  taken := by
    rw [enter, List.map_append]
    refine (Occupied.insert_perm _ _).trans ?_
    exact (hs.taken.cons _).trans (List.perm_append_singleton _ _).symm
  sorted := Occupied.pairwise_insert hs.sorted
  arenaSize := by
    rw [enter, hs.arenaSize, StackOrder.reach_append_singleton]
    rfl
  word := Nat.max_le.2 ⟨hs.word, hstop⟩

/-- Every step of the walk follows the stacking. -/
theorem follows_place (wf : t.WellFormed) (ha : a.isPowerOfTwo) (hle : a ≤ wordMax + 1) :
    t.finishOrder.Follows t a (place t (SubtreeSpans.ofTree t) a) (Matches t a) := by
  intro visited i rest s hwalk hs
  have hi : i < t.size := wf.lt_size_of_split hwalk
  unfold place
  rw [choose?_eq wf ha hle hwalk hs]
  split
  · rfl
  · next hstop => exact ⟨_, rfl, matches_enter hi hs (Nat.le_of_not_lt hstop)⟩

end

end Packing

/-- Worst fit is the stacking of finished subtrees, failures included. -/
theorem worstFit_eq_place {t : BufferTree} (wf : t.WellFormed) {a : Nat} (ha : a.isPowerOfTwo)
    (hle : a ≤ wordMax + 1) : worstFit t a = t.finishOrder.place t a := by
  have hplace := (Packing.follows_place wf ha hle).map_foldlM (Packing.matches_empty t a)
    (fun s => ⟨s.offsets, s.arenaSize⟩) fun s hs => by
      rw [hs.filled.eq_ofFn wf.preorder_perm, hs.arenaSize,
        StackOrder.reach_eq_arena wf.preorder_perm]
      rfl
  rw [← hplace]
  unfold worstFit
  dsimp only
  split
  · next s hs =>
    rw [hs]
    rfl
  · next e hs =>
    rw [hs]
    rfl

end LifetimeArena
