import LifetimeArena.BufferTree.Walk
import LifetimeArena.Placement.Strategy

/-!
# Sequential placement

Every buffer gets bytes of its own, one after the other in pre-order. No byte is used twice, so the
arena is as large as all buffers together and their padding: the baseline for what reuse saves.

- `Row`: what has been placed so far.
- `Strategy.sequential`: the strategy.
-/

namespace LifetimeArena

/-- A layout without reuse under construction. -/
structure Row where
  /-- The offsets so far, by node number; zero for a node not placed yet. -/
  offsets : Array Nat
  /-- Where the last placed buffer stops. -/
  cursor : Nat
deriving DecidableEq, Repr

namespace Row

/-- Nothing is placed. -/
def empty (t : BufferTree) : Row where
  offsets := Array.replicate t.size 0
  cursor := 0

/-- The next aligned interval of a given length. -/
def next? (s : Row) (alignment weight : Nat) : Option Interval :=
  (alignUp? s.cursor alignment).bind (Interval.ofLength? · weight)

/-- Enters the interval of a node. -/
def enter (s : Row) (i : Nat) (range : Interval) : Row where
  offsets := s.offsets.setIfInBounds i range.start
  cursor := range.stop

/-- Places a node behind the last one. -/
def place (t : BufferTree) (alignment : Nat) (s : Row) (i : Nat) : Except SolveError Row :=
  match s.next? alignment (t.weight i) with
  | some range => .ok (s.enter i range)
  | none => .error (.overflow (t.stageAt i))

end Row

/-- Places every node of a tree in pre-order, each behind the last. -/
def sequential (t : BufferTree) (alignment : Nat) : Except SolveError Placement :=
  match t.preorder.foldlM (Row.place t alignment) (Row.empty t) with
  | .ok s => .ok ⟨s.offsets, s.cursor⟩
  | .error e => .error e

/-- The sequential strategy. -/
def Strategy.sequential : Strategy where
  name := "sequential"
  place := LifetimeArena.sequential

end LifetimeArena
