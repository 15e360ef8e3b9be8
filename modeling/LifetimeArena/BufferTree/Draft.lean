import LifetimeArena.BufferTree.Basic
import LifetimeArena.BufferTree.Malformed

/-!
# Drafts

A `Draft` is a tree under construction: stages are pushed one by one, each naming a parent pushed
before it. A push first decides whether the stage is acceptable, changing nothing, and only then
extends the draft, which cannot fail; so a refused stage leaves no trace.

- `Draft.accept`: the parent's number for an acceptable stage, or the cause of refusal.
- `Draft.extend`: adds a node and links it to its parent.
- `Draft.push`: the two together, with the draft afterwards.
- `Draft.finish`: the tree, if anything was pushed.
-/

namespace LifetimeArena

/-- A buffer tree under construction. -/
structure Draft where
  /-- The nodes so far. -/
  nodes : Array Node := #[]
  /-- Their numbers, by stage. -/
  index : List (StageId × Nat) := []
  /-- The sum of their sizes. -/
  totalWeight : Nat := 0
deriving DecidableEq, Repr

namespace Draft

/-- The number of stages accepted so far. -/
def size (d : Draft) : Nat := d.nodes.size

/-- Whether nothing has been accepted yet. -/
def isEmpty (d : Draft) : Bool := d.size == 0

/-- The number of the node that a stage writes. -/
def indexOf? (d : Draft) (stage : StageId) : Option Nat := findByStage? d.index stage

/-- The number of the parent that a stage names. Only the first stage of a draft has none. -/
def parentFor (d : Draft) (s : Stage) : Except Malformed (Option Nat) :=
  match s.parent with
  | none =>
    match d.nodes[0]? with
    | some first => .error (.secondRoot first.stage s.id)
    | none => .ok none
  | some p =>
    if p = s.id then .error (.cyclic s.id)
    else
      match d.indexOf? p with
      | some i => .ok (some i)
      | none => .error (.dangling s.id p)

/-- Decides whether a stage may be pushed, and finds its parent. The causes of refusal are looked
for in this order: no bytes, a name used before, the parent, the sum of the sizes. -/
def accept (d : Draft) (s : Stage) : Except Malformed (Option Nat) :=
  if s.weight = 0 then .error (.weightless s.id)
  else if (d.indexOf? s.id).isSome then .error (.duplicate s.id)
  else
    match d.parentFor s with
    | .error e => .error e
    | .ok parent =>
      if wordMax < d.totalWeight + s.weight then .error .tooHeavy else .ok parent

/-- Enters `child` as the last child of `parent`. -/
def link (nodes : Array Node) (parent : Option Nat) (child : Nat) : Array Node :=
  match parent with
  | some p => nodes.modify p fun n => { n with children := n.children ++ [child] }
  | none => nodes

/-- Adds the node of a stage below the given parent, and enters its number under the stage. -/
def extend (d : Draft) (s : Stage) (parent : Option Nat) : Draft where
  nodes := (link d.nodes parent d.size).push
    { stage := s.id
      weight := s.weight
      parent := parent
      children := []
      payload := s.payload
      offset := none }
  index := insertByStage (s.id, d.size) d.index
  totalWeight := d.totalWeight + s.weight

/-- Pushes a stage: its number and the longer draft, or the cause of refusal and the same draft. -/
def push (d : Draft) (s : Stage) : Except Malformed Nat × Draft :=
  match d.accept s with
  | .ok parent => (.ok d.size, d.extend s parent)
  | .error e => (.error e, d)

/-- The outcomes of pushing the listed stages one after the other, each with the draft after it. -/
def pushAll (d : Draft) : List Stage → List (Except Malformed Nat × Draft)
  | [] => []
  | s :: rest =>
    let outcome := d.push s
    outcome :: outcome.2.pushAll rest

/-- The unsolved tree of the accepted stages, of which there must be one. -/
def finish (d : Draft) : Except Malformed BufferTree :=
  if d.isEmpty then .error .empty
  else
    .ok { nodes := d.nodes, index := d.index, totalWeight := d.totalWeight, arenaSize := none }

end Draft

end LifetimeArena
