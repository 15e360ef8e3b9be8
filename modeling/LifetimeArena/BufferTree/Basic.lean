import LifetimeArena.ByStage
import LifetimeArena.Interval

/-!
# Buffer trees

A `BufferTree` says which buffers a pipeline has and how their lifetimes nest: the buffer of a stage
outlives what is derived from it. Nodes are numbered in the order in which the stages were listed,
the root first, and parent and child links are such numbers. Solving gives every node an offset and
the tree an arena size; nothing else about a tree ever changes.

- `Node`: one buffer, with its links and, once solved, its offset.
- `BufferTree`: the numbered nodes, with a map from stages to their numbers.
- `BufferTree.nodeAt`: look-up by a number that may be foreign to the tree, which is a fault.
- `BufferTree.assign`: writes a solution into the tree.
-/

namespace LifetimeArena

/-- One buffer of a tree. -/
structure Node where
  /-- The stage that writes the buffer. -/
  stage : StageId
  /-- Its size in bytes. -/
  weight : Nat
  /-- The number of the node it was derived from; the root has none. -/
  parent : Option Nat
  /-- The numbers of the nodes derived from it, in listing order. -/
  children : List Nat
  /-- The reference to the real buffer. -/
  payload : Payload
  /-- Where the buffer starts in the arena, once solved. -/
  offset : Option Nat
deriving DecidableEq, Repr

/-- The bytes of the arena that the buffer occupies, once solved and if its stop is a word. -/
def Node.range? (n : Node) : Option Interval :=
  n.offset.bind (Interval.ofLength? · n.weight)

/-- A tree of buffers whose lifetimes nest. -/
structure BufferTree where
  /-- The buffers, by number. -/
  nodes : Array Node
  /-- The numbers of the buffers, by stage. -/
  index : List (StageId × Nat)
  /-- The sum of their sizes. -/
  totalWeight : Nat
  /-- The bytes that the solved layout needs, once solved. -/
  arenaSize : Option Nat
deriving DecidableEq, Repr

namespace BufferTree

/-- The number of buffers. -/
def size (t : BufferTree) : Nat := t.nodes.size

/-- Whether the tree has no buffer. -/
def isEmpty (t : BufferTree) : Bool := t.size == 0

/-- The number of the root. -/
def root (_ : BufferTree) : Nat := 0

/-- The node with a given number. -/
def get? (t : BufferTree) (i : Nat) : Option Node := t.nodes[i]?

/-- The nodes with their numbers, in listing order. -/
def numbered (t : BufferTree) : List (Node × Nat) := t.nodes.toList.zipIdx

/-- The number of the node that a stage writes. -/
def indexOf? (t : BufferTree) (stage : StageId) : Option Nat := findByStage? t.index stage

/-- The number of a node's parent. -/
def parent? (t : BufferTree) (i : Nat) : Option Nat := (t.get? i).bind (·.parent)

/-- The numbers of a node's children, in listing order. -/
def children (t : BufferTree) (i : Nat) : List Nat := ((t.get? i).map (·.children)).getD []

/-- The size of a node's buffer. -/
def weight (t : BufferTree) (i : Nat) : Nat := ((t.get? i).map (·.weight)).getD 0

/-- The stage that writes a node. -/
def stageAt (t : BufferTree) (i : Nat) : StageId := ((t.get? i).map (·.stage)).getD default

/-- Whether offsets have been assigned. -/
def isSolved (t : BufferTree) : Bool := t.arenaSize.isSome

/-- The offsets of the nodes in listing order. -/
def offsets (t : BufferTree) : List (Option Nat) := t.nodes.toList.map (·.offset)

/-- Writes the offset listed for each node, and the arena size. A node beyond the end of the list
keeps what it had. -/
def assign (t : BufferTree) (offsets : Array Nat) (arenaSize : Nat) : BufferTree :=
  { t with
    nodes := t.nodes.mapIdx fun i n =>
      match offsets[i]? with
      | some o => { n with offset := some o }
      | none => n
    arenaSize := some arenaSize }

@[simp] theorem size_assign (t : BufferTree) (offsets : Array Nat) (arenaSize : Nat) :
    (t.assign offsets arenaSize).size = t.size := by
  simp [assign, size]

@[simp] theorem arenaSize_assign (t : BufferTree) (offsets : Array Nat) (arenaSize : Nat) :
    (t.assign offsets arenaSize).arenaSize = some arenaSize := rfl

@[simp] theorem totalWeight_assign (t : BufferTree) (offsets : Array Nat) (arenaSize : Nat) :
    (t.assign offsets arenaSize).totalWeight = t.totalWeight := rfl

/-! ## Numbers from outside -/

/-- Only the numbers of this tree's own nodes may be looked at. -/
def requireNode (t : BufferTree) (i : Nat) : Except Fault Unit :=
  if i < t.size then .ok () else .error (.indexOutOfBounds t.size i)

/-- The node with a number that must belong to this tree. -/
def nodeAt (t : BufferTree) (i : Nat) : Except Fault Node :=
  match t.get? i with
  | some n => .ok n
  | none => .error (.indexOutOfBounds t.size i)

end BufferTree

end LifetimeArena
