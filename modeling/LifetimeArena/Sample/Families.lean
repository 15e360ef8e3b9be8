import LifetimeArena.Fault
import LifetimeArena.Stage

/-!
# Families of pipelines

Stage lists of known shape, for trying out solvers and for measuring them.

- `Sample.reference`: ten stages with every kind of branching.
- `Sample.chain`, `Sample.star`: the two extreme shapes.
- `Sample.bandSplit`: a full tree in which every buffer is divided evenly among its children.
- `Sample.referenceProfile`: the band split used for measurements.
-/

namespace LifetimeArena

namespace Sample

/-- The first stage of a pipeline. -/
def rootStage (weight : Nat) : Stage := { id := .ofNat 0, weight := weight }

/-- A stage derived from another, both given by number. -/
def derived (id weight parent : Nat) : Stage :=
  { id := .ofNat id, weight := weight, parent := some (.ofNat parent) }

/-- Ten stages of total weight 18, of which at most 10 bytes are pairwise unrelated. -/
def reference : List Stage :=
  [rootStage 1, derived 1 1 0, derived 2 2 0, derived 3 3 2, derived 4 2 2, derived 5 4 2,
    derived 6 1 3, derived 7 2 3, derived 8 1 4, derived 9 1 8]

/-- The stage numbered `i` of a chain. -/
def chainStage (weight : Nat) : (i : Nat) → Stage
  | 0 => rootStage weight
  | i + 1 => derived (i + 1) weight i

/-- So many stages, each derived from the one before. -/
def chain (n weight : Nat) : List Stage := (List.range n).map (chainStage weight)

/-- A root with `n` children. -/
def star (n weight : Nat) : List Stage :=
  rootStage weight :: (List.range n).map fun i => derived (i + 1) weight 0

/-- One buffer of a band split. -/
structure Band where
  /-- Its number. -/
  id : Nat
  /-- Its size. -/
  weight : Nat
  /-- The number of the buffer that it divides. -/
  parent : Option Nat
deriving DecidableEq, Repr

/-- The stage of a band. -/
def Band.stage (b : Band) : Stage :=
  { id := .ofNat b.id, weight := b.weight, parent := b.parent.map StageId.ofNat }

/-- The bands that a level is divided into, numbered from `next`: `fanOut` for each, of its size
divided by that, but at least one byte. -/
def splitLevel (fanOut next : Nat) : List Band → List Band
  | [] => []
  | b :: rest =>
    (List.range fanOut).map (fun j => ⟨next + j, max (b.weight / fanOut) 1, some b.id⟩) ++
      splitLevel fanOut (next + fanOut) rest

/-- A level and the `depth` levels below it, which are numbered from `next`. -/
def levels (fanOut : Nat) : (depth next : Nat) → List Band → List Band
  | 0, _, level => level
  | depth + 1, next, level =>
    let below := splitLevel fanOut next level
    level ++ levels fanOut depth (next + below.length) below

/-- A full tree of the given depth in which every buffer is divided among `fanOut` children, listed
level by level. -/
def bandSplit (depth fanOut rootWeight : Nat) : List Stage :=
  (levels fanOut depth 1 [⟨0, rootWeight, none⟩]).map Band.stage

/-- A band split at arguments that come from outside: nothing can be divided among no children. -/
def bandSplitAt (depth fanOut rootWeight : Nat) : Except Fault (List Stage) :=
  if fanOut = 0 ∧ 0 < depth then .error .divisionByZero
  else .ok (bandSplit depth fanOut rootWeight)

/-- The band split used for measurements: 341 stages below a root of 64 KiB. -/
def referenceProfile : List Stage := bandSplit 4 4 (64 * 1024)

end Sample

end LifetimeArena
