import LifetimeArena.BufferTree.Spans
import LifetimeArena.Placement.Gap
import LifetimeArena.Placement.Strategy

/-!
# Worst-fit placement

Nodes are placed in pre-order. What was placed before a node is either an ancestor, whose bytes the
node may reuse, or lies in a finished subtree beside its path to the root, and is to be avoided. The
node goes into the longest gap between the intervals to avoid, which leaves large holes for heavy
buffers deeper down; without a gap that takes it, it goes behind the last of them and may make the
arena grow.

- `Packing`: what has been placed so far.
- `Packing.place`: places one node.
- `Strategy.worstFit`: the strategy.
-/

namespace LifetimeArena

/-- A layout under construction. -/
structure Packing where
  /-- The offsets so far, by node number; zero for a node not placed yet. -/
  offsets : Array Nat
  /-- The intervals placed so far, in order. -/
  taken : List Occupied
  /-- The bytes needed so far. -/
  arenaSize : Nat
deriving DecidableEq, Repr

namespace Packing

/-- Nothing is placed. -/
def empty (t : BufferTree) : Packing where
  offsets := Array.replicate t.size 0
  taken := []
  arenaSize := 0

/-- The intervals that a node must avoid: those of nodes whose subtree it does not belong to. -/
def obstacles (s : Packing) (spans : SubtreeSpans) (i : Nat) : List Interval :=
  (s.taken.filter fun p => ¬ spans.Contains p.node i).map (·.range)

/-- The interval chosen for a node. -/
def choose? (s : Packing) (t : BufferTree) (spans : SubtreeSpans) (alignment i : Nat) :
    Option Interval :=
  (chooseOffset? (s.obstacles spans i) s.arenaSize (t.weight i) alignment).bind
    (Interval.ofLength? · (t.weight i))

/-- Enters the interval of a node. -/
def enter (s : Packing) (i : Nat) (range : Interval) : Packing where
  offsets := s.offsets.setIfInBounds i range.start
  taken := Occupied.insert ⟨range, i⟩ s.taken
  arenaSize := max s.arenaSize range.stop

/-- Places a node. -/
def place (t : BufferTree) (spans : SubtreeSpans) (alignment : Nat) (s : Packing) (i : Nat) :
    Except SolveError Packing :=
  match s.choose? t spans alignment i with
  | some range => .ok (s.enter i range)
  | none => .error (.overflow (t.stageAt i))

end Packing

/-- Places every node of a tree in pre-order, each in the longest gap that takes it. -/
def worstFit (t : BufferTree) (alignment : Nat) : Except SolveError Placement :=
  let spans := SubtreeSpans.ofTree t
  match t.preorder.foldlM (Packing.place t spans alignment) (Packing.empty t) with
  | .ok s => .ok ⟨s.offsets, s.arenaSize⟩
  | .error e => .error e

/-- The worst-fit strategy. -/
def Strategy.worstFit : Strategy where
  name := "worst-fit"
  place := LifetimeArena.worstFit

end LifetimeArena
