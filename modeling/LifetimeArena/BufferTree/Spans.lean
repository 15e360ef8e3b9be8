import LifetimeArena.BufferTree.Walk

/-!
# Subtree spans

In pre-order every subtree is one contiguous run: it starts at the position of its root and is as
long as the subtree has nodes. With positions and lengths at hand, whether a node lies in a subtree
is a comparison of numbers.

- `SubtreeSpans.ofTree`: positions and lengths, computed from the pre-order.
- `SubtreeSpans.Contains`: the comparison.
-/

namespace LifetimeArena

/-- For each node where its subtree starts in pre-order and how long it is. -/
structure SubtreeSpans where
  /-- The pre-order position of each node. -/
  position : Array Nat
  /-- The number of nodes in the subtree of each node. -/
  extent : Array Nat
deriving DecidableEq, Repr

namespace SubtreeSpans

/-- Adds the extent of `i` to that of its parent. -/
def creditParent (t : BufferTree) (extent : Array Nat) (i : Nat) : Array Nat :=
  match t.parent? i with
  | some p =>
    let own := extent.getD i 0
    extent.modify p (· + own)
  | none => extent

/-- The spans of a tree. Going through the pre-order backwards meets every node after all of its
subtree. -/
def ofTree (t : BufferTree) : SubtreeSpans where
  position := t.preorder.zipIdx.foldl (fun positions (i, k) => positions.setIfInBounds i k)
    (Array.replicate t.size 0)
  extent := t.preorder.reverse.foldl (creditParent t) (Array.replicate t.size 1)

/-- The subtree of `root` contains `node`, the root itself included. -/
def Contains (s : SubtreeSpans) (root node : Nat) : Prop :=
  s.position.getD root 0 ≤ s.position.getD node 0 ∧
    s.position.getD node 0 < s.position.getD root 0 + s.extent.getD root 0

instance (s : SubtreeSpans) (root node : Nat) : Decidable (s.Contains root node) :=
  inferInstanceAs (Decidable (_ ∧ _))

end SubtreeSpans

end LifetimeArena
