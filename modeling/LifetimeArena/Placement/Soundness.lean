import LifetimeArena.BufferTree.Walk
import LifetimeArena.Placement.Occupied

/-!
# Sound layouts

A solved tree is sound when its buffers stay within the word, unrelated buffers share no byte, and
the recorded arena size is what the buffers need. The test takes everything from the tree itself:
intervals from offsets and sizes, kinship by climbing parent links. It is independent of how the
offsets were found, so a faulty placement cannot hide.

The intervals are swept in order. An interval stays live while the sweep may still meet one that
starts before it stops, and only live intervals are compared with the next one.

- `Violation`: what can be wrong with a tree, `Alias` being one pair of buffers that share bytes.
- `BufferTree.occupied`: the intervals of all nodes.
- `sweep`: the pairs of intervals met while both are live.
- `BufferTree.check`: the test; `BufferTree.isSound`: its verdict.
-/

namespace LifetimeArena

/-- Two unrelated buffers that share bytes. -/
structure Alias where
  /-- The stage of the buffer that comes first in the order of intervals. -/
  first : StageId
  /-- The bytes of that buffer. -/
  firstRange : Interval
  /-- The stage of the other buffer. -/
  second : StageId
  /-- The bytes of the other buffer. -/
  secondRange : Interval
deriving DecidableEq, Repr

/-- The wording of one pair. -/
def Alias.message (a : Alias) : String :=
  s!"stage {a.first} {a.firstRange} and stage {a.second} {a.secondRange}"

/-- What is wrong with a layout. -/
inductive Violation where
  /-- A stage has no offset, or the tree is not solved. -/
  | unsolved (stage : StageId)
  /-- A buffer stops beyond the largest word. -/
  | beyondWord (stage : StageId)
  /-- The recorded arena size is not what the buffers need. -/
  | sizeMismatch (recorded actual : Nat)
  /-- Unrelated buffers share bytes. -/
  | aliasing (pairs : List Alias)
deriving DecidableEq, Repr

/-- The wording of each violation. -/
def Violation.message : Violation → String
  | .unsolved stage => s!"stage {stage} has no arena offset"
  | .beyondWord stage => s!"buffer of stage {stage} extends past the address space"
  | .sizeMismatch recorded actual =>
    s!"recorded arena size {recorded} bytes, node intervals need {actual} bytes"
  | .aliasing pairs =>
    "unrelated buffers alias: " ++ ", ".intercalate (pairs.map Alias.message)

instance : ToString Violation where
  toString := Violation.message

/-- The highest stop of the listed intervals, zero if there is none. -/
def highestStop : List Occupied → Nat
  | [] => 0
  | p :: l => max p.range.stop (highestStop l)

/-- Goes through sorted intervals, with those in `live` already met. Intervals that stop at or
before the start of the next one are dropped; the others are paired with it if `clash` says so. -/
def sweep (clash : Occupied → Occupied → Bool) (live : List Occupied) :
    List Occupied → List (Occupied × Occupied)
  | [] => []
  | q :: rest =>
    let live := live.filter fun p => q.range.start < p.range.stop
    (live.filter (clash · q)).map (·, q) ++ sweep clash (live ++ [q]) rest

namespace BufferTree

/-- The interval of a numbered node. -/
def occupiedBy : Node × Nat → Except Violation Occupied
  | (n, i) =>
    match n.offset with
    | none => .error (.unsolved n.stage)
    | some offset =>
      match Interval.ofLength? offset n.weight with
      | none => .error (.beyondWord n.stage)
      | some range => .ok ⟨range, i⟩

/-- The intervals of all nodes in listing order, or what is wrong with the first that has none. -/
def occupied (t : BufferTree) : Except Violation (List Occupied) :=
  t.numbered.mapM occupiedBy

/-- Neither of the two nodes is an ancestor of the other. -/
def apart (t : BufferTree) (p q : Occupied) : Bool :=
  !decide (t.IsAncestor p.node q.node) && !decide (t.IsAncestor q.node p.node)

/-- The pair of buffers that two clashing intervals stand for. -/
def aliasOf (t : BufferTree) (pair : Occupied × Occupied) : Alias where
  first := t.stageAt pair.1.node
  firstRange := pair.1.range
  second := t.stageAt pair.2.node
  secondRange := pair.2.range

/-- The pairs of unrelated buffers that share bytes, in the order in which the sweep meets them. -/
def aliases (t : BufferTree) (intervals : List Occupied) : List Alias :=
  (sweep t.apart [] (Occupied.sort intervals)).map t.aliasOf

/-- Tests the layout of a tree. Of several violations the first in this order is reported: an
unsolved tree, a node without an interval, the arena size, shared bytes. -/
def check (t : BufferTree) : Except Violation Unit :=
  match t.arenaSize with
  | none => .error (.unsolved (t.stageAt t.root))
  | some recorded =>
    match t.occupied with
    | .error e => .error e
    | .ok intervals =>
      if highestStop intervals ≠ recorded then
        .error (.sizeMismatch recorded (highestStop intervals))
      else
        match t.aliases intervals with
        | [] => .ok ()
        | pairs => .error (.aliasing pairs)

/-- Whether the layout of a tree passes the test. -/
def isSound (t : BufferTree) : Bool :=
  match t.check with
  | .ok () => true
  | .error _ => false

end BufferTree

end LifetimeArena
