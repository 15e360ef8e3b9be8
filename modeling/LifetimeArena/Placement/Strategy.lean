import LifetimeArena.Placement.Soundness

/-!
# Placement strategies

A strategy reads an unsolved tree and proposes an offset for every node. Strategies are values, so a
caller can supply one; nothing is taken on trust from it, see `Solver.solve`.

- `Placement`: a proposal.
- `SolveError`: why a tree was not solved.
- `Strategy`: a named way to make proposals.
-/

namespace LifetimeArena

/-- A proposed layout. -/
structure Placement where
  /-- The offset of each node, by number. -/
  offsets : Array Nat
  /-- The bytes that the layout needs. -/
  arenaSize : Nat
deriving DecidableEq, Repr

/-- Why a tree was not solved. -/
inductive SolveError where
  /-- The tree has offsets already. -/
  | alreadySolved
  /-- The alignment is no power of two. -/
  | badAlignment (alignment : Nat)
  /-- The interval of a stage would leave the word. -/
  | overflow (stage : StageId)
  /-- A strategy proposed offsets for another number of nodes. -/
  | wrongShape (strategy : String) (expected actual : Nat)
  /-- The proposed layout is not sound. -/
  | unsound (violation : Violation)
deriving DecidableEq, Repr

/-- The wording of each cause. -/
def SolveError.message : SolveError → String
  | .alreadySolved => "lifetime tree is already solved"
  | .badAlignment alignment => s!"alignment must be a non-zero power of two, got {alignment}"
  | .overflow stage => s!"arena offset overflow while placing stage {stage}"
  | .wrongShape strategy expected actual =>
    s!"strategy \x27{strategy}\x27 returned {actual} offsets for {expected} nodes"
  | .unsound violation => s!"layout failed validation: {violation}"

instance : ToString SolveError where
  toString := SolveError.message

/-- A way to place the buffers of a tree. -/
structure Strategy where
  /-- The name used in reports. -/
  name : String
  /-- The proposal for a tree, every offset a multiple of the given alignment. -/
  place : BufferTree → (alignment : Nat) → Except SolveError Placement

/-- The proposal at an alignment that comes from outside and need not be a power of two. -/
def Strategy.placeAt (s : Strategy) (t : BufferTree) (alignment : Nat) :
    Except Fault (Except SolveError Placement) := do
  requireAlignment alignment
  return s.place t alignment

end LifetimeArena
