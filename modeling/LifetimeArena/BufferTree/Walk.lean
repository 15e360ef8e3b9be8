import LifetimeArena.BufferTree.Basic

/-!
# Walks over a buffer tree

Two walks carry every question about the shape of a tree. The *pre-order* visits the root, then the
subtree of each child in listing order. The *climb* follows parent links from a node to the root. No
walk looks at more nodes than the tree has, so each gets that number of steps.

- `BufferTree.preorder`: the pre-order, by a stack of nodes still to visit.
- `BufferTree.ancestors`, `BufferTree.depth`: the climb and its length.
- `BufferTree.IsAncestor`, `BufferTree.Related`: one buffer outlives another; either does.
- `BufferTree.Kinship`: how one node stands to another.

Unrelated buffers may be live at the same time; related ones may share bytes.
-/

namespace LifetimeArena

namespace BufferTree

/-! ## Downwards -/

/-- Visits at most `steps` nodes, the top of the stack first; the children of a visited node go on
top of the stack in their order. -/
def unwind (t : BufferTree) : (steps : Nat) → (stack : List Nat) → List Nat
  | 0, _ => []
  | _ + 1, [] => []
  | steps + 1, i :: stack => i :: t.unwind steps (t.children i ++ stack)

/-- The nodes in pre-order. -/
def preorder (t : BufferTree) : List Nat := t.unwind t.size [t.root]

/-! ## Upwards -/

/-- The nodes met in at most `steps` parent links from `i`, nearest first. -/
def climb (t : BufferTree) : (steps : Nat) → (i : Nat) → List Nat
  | 0, _ => []
  | steps + 1, i =>
    match t.parent? i with
    | some p => p :: t.climb steps p
    | none => []

/-- The proper ancestors of a node, nearest first. -/
def ancestors (t : BufferTree) (i : Nat) : List Nat := t.climb t.size i

/-- The number of links between a node and the root. -/
def depth (t : BufferTree) (i : Nat) : Nat := (t.ancestors i).length

/-- Climbing from `b` meets `a`: the buffer `b` was derived from `a`, directly or not. -/
def IsAncestor (t : BufferTree) (a b : Nat) : Prop := a ∈ t.ancestors b

/-- Whether `a` is met in at most `steps` parent links from `i`. The climb ends where it is met. -/
def meetsOnClimb (t : BufferTree) (a : Nat) : (steps : Nat) → (i : Nat) → Bool
  | 0, _ => false
  | steps + 1, i =>
    match t.parent? i with
    | some p => p == a || t.meetsOnClimb a steps p
    | none => false

theorem meetsOnClimb_iff {t : BufferTree} {a steps i : Nat} :
    t.meetsOnClimb a steps i = true ↔ a ∈ t.climb steps i := by
  induction steps generalizing i with
  | zero => simp [meetsOnClimb, climb]
  | succ steps ih =>
    rw [meetsOnClimb, climb]
    split
    · rw [Bool.or_eq_true, beq_iff_eq, ih, List.mem_cons, eq_comm]
    · simp

instance (t : BufferTree) (a b : Nat) : Decidable (t.IsAncestor a b) :=
  decidable_of_iff (t.meetsOnClimb a t.size b = true) meetsOnClimb_iff

/-- The two nodes are one, or one is an ancestor of the other. -/
def Related (t : BufferTree) (a b : Nat) : Prop := a = b ∨ t.IsAncestor a b ∨ t.IsAncestor b a

instance (t : BufferTree) (a b : Nat) : Decidable (t.Related a b) :=
  inferInstanceAs (Decidable (a = b ∨ t.IsAncestor a b ∨ t.IsAncestor b a))

/-- How a node stands to another. -/
inductive Kinship where
  /-- It is a proper ancestor of the other. -/
  | ancestor
  /-- It is the other node or one of its descendants. -/
  | kin
  /-- Neither was derived from the other. -/
  | stranger
deriving DecidableEq, Repr

/-- How `a` stands to `b`. -/
def kinship (t : BufferTree) (a b : Nat) : Kinship :=
  if t.IsAncestor a b then .ancestor else if t.Related a b then .kin else .stranger

/-! ## Numbers from outside -/

/-- The ancestors of a node of this tree. -/
def ancestorsAt (t : BufferTree) (i : Nat) : Except Fault (List Nat) := do
  t.requireNode i
  return t.ancestors i

/-- The depth of a node of this tree. -/
def depthAt (t : BufferTree) (i : Nat) : Except Fault Nat := do
  t.requireNode i
  return t.depth i

/-- Whether `a` is an ancestor of `b`. The climb starts at `b`, which must belong to this tree; no
foreign number is ever met on the way. -/
def isAncestorAt (t : BufferTree) (a b : Nat) : Except Fault Bool := do
  t.requireNode b
  return decide (t.IsAncestor a b)

/-- Whether two nodes are related. A number equals itself without a look at the tree; otherwise the
climb from `b` comes first, and the one from `a` only if it misses. -/
def relatedAt (t : BufferTree) (a b : Nat) : Except Fault Bool :=
  if a = b then .ok true
  else do
    if ← t.isAncestorAt a b then return true
    t.isAncestorAt b a

end BufferTree

end LifetimeArena
