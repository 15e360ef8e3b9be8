import LifetimeArena.BufferTree.Basic

/-!
# The heaviest antichain

Buffers that are pairwise unrelated may all be live at once, so no layout needs less room than the
heaviest such set. It is found from the leaves upwards: below a node, either the node itself is
taken, or the best sets below its children are put together.

- `BufferTree.childSums`: for each node, what the best sets below its children add up to.
- `BufferTree.maxAntichainWeight`: the weight of the heaviest antichain.
-/

namespace LifetimeArena

namespace BufferTree

/-- The best weight below `i`, once the sum over its children is known. -/
def bestBelow (t : BufferTree) (sums : Array Nat) (i : Nat) : Nat :=
  max (t.weight i) (sums.getD i 0)

/-- Adds the best weight below `i` to the sum of its parent. -/
def creditParent (t : BufferTree) (sums : Array Nat) (i : Nat) : Array Nat :=
  match t.parent? i with
  | some p =>
    let best := t.bestBelow sums i
    sums.modify p (· + best)
  | none => sums

/-- For each node the sum of the best weights below its children. Children have larger numbers than
their parents, so going through the numbers backwards completes every sum before it is used. -/
def childSums (t : BufferTree) : Array Nat :=
  (List.range t.size).reverse.foldl t.creditParent (Array.replicate t.size 0)

/-- The largest weight of a set of pairwise unrelated nodes. -/
def maxAntichainWeight (t : BufferTree) : Nat := t.bestBelow t.childSums t.root

end BufferTree

end LifetimeArena
