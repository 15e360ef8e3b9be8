import LifetimeArena.BufferTree.Weight
import LifetimeArena.Event
import LifetimeArena.Placement.Sequential
import LifetimeArena.Placement.WorstFit

/-!
# Solving

A `Solver` owns the contract around a strategy: a tree is solved at most once, the alignment is a
power of two, a proposal has an offset for every node, and, if so set, the proposed layout is tested
before it is written into the tree. Solving is all or nothing.

- `Settings`, `Solver`: how to solve.
- `Solver.plan`: the accepted proposal for a tree, or the cause of refusal.
- `Solver.solve`: carries out the plan, with the tree and the events afterwards.
-/

namespace LifetimeArena

/-- The strategies that come with the library. -/
inductive StrategyKind where
  /-- Longest gap first; reuses the bytes of finished subtrees. -/
  | worstFit
  /-- Every buffer gets its own bytes. -/
  | sequential
deriving DecidableEq, Repr

/-- The strategy of a kind. -/
def StrategyKind.strategy : StrategyKind → Strategy
  | .worstFit => .worstFit
  | .sequential => .sequential

/-- How to solve a tree. -/
structure Settings where
  /-- The strategy to use. -/
  strategy : StrategyKind := .worstFit
  /-- What every offset is to be a multiple of. -/
  alignment : Nat := 1
  /-- Whether a proposed layout is tested. -/
  verify : Bool := true
deriving DecidableEq, Repr

namespace Settings

/-- The alignment for buffers that feed 512-bit vector loads. -/
def simdAlignment : Nat := 64

/-- The alignment must be a power of two. -/
def validate (s : Settings) : Except SolveError Unit :=
  if s.alignment.isPowerOfTwo then .ok () else .error (.badAlignment s.alignment)

end Settings

/-- Settings together with the strategy that is really used, which the caller may supply. -/
structure Solver where
  /-- The settings; their own choice of strategy counts only in `Solver.ofSettings`. -/
  settings : Settings
  /-- The strategy. -/
  strategy : Strategy

namespace Solver

/-- The solver with the strategy that the settings name. -/
def ofSettings (settings : Settings) : Solver where
  settings := settings
  strategy := settings.strategy.strategy

/-- The solver used where nothing else is asked for. -/
def standard : Solver := ofSettings {}

/-- A proposal is sound if the tree is, once the proposal is written into it. -/
def verify (t : BufferTree) (p : Placement) : Except SolveError Unit :=
  match (t.assign p.offsets p.arenaSize).check with
  | .ok () => .ok ()
  | .error v => .error (.unsound v)

/-- The proposal of the strategy, if nothing speaks against it. The tree is only read. -/
def plan (s : Solver) (t : BufferTree) : Except SolveError Placement :=
  if t.isSolved then .error .alreadySolved
  else
    match s.settings.validate with
    | .error e => .error e
    | .ok () =>
      match s.strategy.place t s.settings.alignment with
      | .error e => .error e
      | .ok p =>
        if p.offsets.size ≠ t.size then
          .error (.wrongShape s.strategy.name t.size p.offsets.size)
        else if s.settings.verify then
          match verify t p with
          | .error e => .error e
          | .ok () => .ok p
        else .ok p

/-- The report of a solved tree. -/
def report (s : Solver) (t : BufferTree) (arenaSize : Nat) : Event where
  level := .debug
  message := "solved buffer layout"
  fields :=
    [("strategy", .text s.strategy.name), ("nodes", .number t.size),
      ("arena_size", .number arenaSize), ("total_weight", .number t.totalWeight),
      ("lower_bound", .number t.maxAntichainWeight)]

/-- What came of solving a tree. -/
structure Outcome where
  /-- The arena size, or the cause of refusal. -/
  result : Except SolveError Nat
  /-- The tree afterwards. -/
  tree : BufferTree
  /-- What was reported. -/
  events : List Event

/-- Solves a tree: writes the planned offsets and the arena size into it, or leaves it as it is. -/
def solve (s : Solver) (t : BufferTree) : Outcome :=
  match s.plan t with
  | .error e => { result := .error e, tree := t, events := [] }
  | .ok p =>
    { result := .ok p.arenaSize
      tree := t.assign p.offsets p.arenaSize
      events := [s.report t p.arenaSize] }

end Solver

end LifetimeArena
