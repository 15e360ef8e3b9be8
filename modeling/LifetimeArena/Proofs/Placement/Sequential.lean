import LifetimeArena.Placement.Sequential
import LifetimeArena.Proofs.BufferTree.Preorder
import LifetimeArena.Proofs.Placement.Stacking

/-!
# Sequential placement stacks

One after the other means: behind everything that the walk has met before. So the sequential
strategy is the stacking of `BufferTree.walkOrder` (`sequential_eq_place`). The cursor always stands
where the highest buffer stops, because every buffer is put behind it.
-/

namespace LifetimeArena

open Finset

namespace BufferTree

/-- A node lies under those that the walk meets after it. -/
def walkOrder (t : BufferTree) : StackOrder where
  rank := t.rank
  Under u v := t.rank u < t.rank v
  decidableUnder _ _ := inferInstance
  rank_lt h := h
  trans := Nat.lt_trans

/-- Under a node lies what the walk has visited when it gets there. -/
theorem floor_walkOrder {t : BufferTree} (wf : t.WellFormed) {a : Nat} {visited rest : List Nat}
    {i : Nat} (hwalk : t.preorder = visited ++ i :: rest) :
    t.walkOrder.floor t a i = t.walkOrder.reach t a visited := by
  have hbelow : t.walkOrder.below t i = visited.toFinset := by
    ext u
    rw [List.mem_toFinset, StackOrder.mem_below, ← wf.rank_lt_iff_mem hwalk]
    refine ⟨fun h => h.2, fun h => ⟨?_, h⟩⟩
    have hmem : u ∈ visited := (wf.rank_lt_iff_mem hwalk).1 h
    exact wf.lt_size_of_mem_before hwalk hmem
  rw [StackOrder.floor, hbelow, StackOrder.reach]

end BufferTree

namespace Row

variable {t : BufferTree} {a : Nat}

/-- Everything placed so far is where the stacking of the walk puts it. -/
structure Matches (t : BufferTree) (a : Nat) (visited : List Nat) (s : Row) : Prop where
  filled : t.walkOrder.Filled t a visited s.offsets
  cursor : s.cursor = t.walkOrder.reach t a visited

theorem matches_empty (t : BufferTree) (a : Nat) : Matches t a [] (empty t) where
  filled := StackOrder.filled_replicate
  cursor := rfl

variable {visited rest : List Nat} {i : Nat} {s : Row}

/-- The next node goes behind the cursor. -/
theorem cursor_eq_floor (wf : t.WellFormed) (hwalk : t.preorder = visited ++ i :: rest)
    (hs : Matches t a visited s) : s.cursor = t.walkOrder.floor t a i := by
  rw [hs.cursor, BufferTree.floor_walkOrder wf hwalk]

/-- Every step of the walk follows the stacking. -/
theorem follows_place (wf : t.WellFormed) (ha : a.isPowerOfTwo) (hle : a ≤ wordMax + 1) :
    t.walkOrder.Follows t a (place t a) (Matches t a) := by
  intro visited i rest s hwalk hs
  have hi : i < t.size := wf.lt_size_of_split hwalk
  have hcursor := cursor_eq_floor wf hwalk hs
  unfold place next?
  rw [hcursor, StackOrder.bind_ofLength? ha hle]
  split
  · rfl
  · refine ⟨_, rfl, hs.filled.setIfInBounds hi, ?_⟩
    -- The new buffer lies behind all others, so it stops highest.
    have hfloor := StackOrder.floor_le_offset (o := t.walkOrder) (t := t)
      (Nat.pos_of_isPowerOfTwo ha) i
    have hstop := StackOrder.offset_le_stop (o := t.walkOrder) (t := t) (a := a) i
    rw [StackOrder.reach_append_singleton, ← hs.cursor, hcursor]
    exact (Nat.max_eq_right (Nat.le_trans hfloor hstop)).symm

end Row

/-- Sequential placement is the stacking of the walk, failures included. -/
theorem sequential_eq_place {t : BufferTree} (wf : t.WellFormed) {a : Nat} (ha : a.isPowerOfTwo)
    (hle : a ≤ wordMax + 1) : sequential t a = t.walkOrder.place t a := by
  have hplace := (Row.follows_place wf ha hle).map_foldlM (Row.matches_empty t a)
    (fun s => ⟨s.offsets, s.cursor⟩) fun s hs => by
      rw [hs.filled.eq_ofFn wf.preorder_perm, hs.cursor,
        StackOrder.reach_eq_arena wf.preorder_perm]
      rfl
  rw [← hplace]
  unfold sequential
  split
  · next s hs =>
    rw [hs]
    rfl
  · next e hs =>
    rw [hs]
    rfl

end LifetimeArena
