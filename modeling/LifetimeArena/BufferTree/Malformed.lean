import LifetimeArena.Stage

/-!
# Malformed stage lists

A list of stages describes a tree when its stages have distinct names and positive sizes, the first
one has no parent, every other one names an earlier stage, and the sizes add up to a word.
`Malformed` holds the ways in which a list can fail that, and `Malformed.message` their wording.
-/

namespace LifetimeArena

/-- Why a list of stages describes no tree. -/
inductive Malformed where
  /-- There is no stage. -/
  | empty
  /-- A name occurs a second time. -/
  | duplicate (stage : StageId)
  /-- A stage has a buffer of no bytes. -/
  | weightless (stage : StageId)
  /-- A stage names a parent that is not there. -/
  | dangling (stage parent : StageId)
  /-- Parent links lead from a stage back to itself. -/
  | cyclic (stage : StageId)
  /-- A stage is listed before its parent. -/
  | outOfOrder (stage parent : StageId)
  /-- A later stage has no parent either. -/
  | secondRoot (first second : StageId)
  /-- The sizes add up to more than a word. -/
  | tooHeavy
deriving DecidableEq, Repr

/-- The wording of each cause. -/
def Malformed.message : Malformed → String
  | .empty => "stage list is empty"
  | .duplicate stage => s!"stage {stage} is listed twice"
  | .weightless stage => s!"stage {stage} has a zero-byte buffer"
  | .dangling stage parent => s!"stage {stage} references unknown parent {parent}"
  | .cyclic stage => s!"stage {stage} is its own ancestor"
  | .outOfOrder stage parent =>
    s!"stage {stage} is listed before its parent {parent}; stages must be in execution order"
  | .secondRoot first second => s!"stages {first} and {second} both have no parent"
  | .tooHeavy => "total buffer size overflows usize"

instance : ToString Malformed where
  toString := Malformed.message

end LifetimeArena
