import LifetimeArena.Sample.Families
import LifetimeArena.Sample.WordStream
import LifetimeArena.Word

/-!
# Random pipelines

Every stage after the first picks one of the stages before it as its parent, and every stage picks a
positive weight up to a limit. The picks are made by a stream of words: one for the first stage's
weight, then two for each further stage, its parent's and its weight's. So the words of a stage are
known by its number; taking them off the stream one after the other is the same.

- `Sample.drawn`: the stages that a stream picks.
- `Sample.random`: those of a seed's stream.
- `Sample.pick`: the stages picked word by word.
- `Sample.stressProfile`: a large random tree, for measurements.
-/

namespace LifetimeArena

namespace Sample

/-- The weight that a word picks from one up to the limit. -/
def drawnWeight (maxWeight : Nat) (w : UInt64) : Nat := 1 + w.toNat % maxWeight

/-- The stage numbered `i` that a stream of words picks. -/
def drawnStage (draw : Nat → UInt64) (maxWeight : Nat) : (i : Nat) → Stage
  | 0 => rootStage (drawnWeight maxWeight (draw 0))
  | i + 1 =>
    let parent := (draw (2 * i + 1)).toNat % (i + 1)
    let weight := drawnWeight maxWeight (draw (2 * i + 2))
    { derived (i + 1) weight parent with payload := ⟨UInt64.ofNat (i + 1)⟩ }

/-- The first `n` stages that a stream of words picks. -/
def drawn (draw : Nat → UInt64) (n maxWeight : Nat) : List Stage :=
  (List.range n).map (drawnStage draw maxWeight)

/-- So many random stages with weights up to a limit; neither may be zero. -/
def random (seed : UInt64) (n maxWeight : Nat) : Except Fault (List Stage) :=
  if 0 < n ∧ 0 < maxWeight then .ok (drawn (ChaCha.word seed) n maxWeight) else .error .emptyDraw

/-- The number of stages of a stress profile. -/
def stressStages : Nat := 2000

/-- A large random tree with weights of up to 16 KiB. -/
def stressProfile (seed : UInt64) : List Stage :=
  drawn (ChaCha.word seed) stressStages (16 * 1024)

/-! ## Word by word -/

/-- The remainder of a word; there is none by zero. -/
def remainder (w : UInt64) (divisor : Nat) : Except Fault Nat :=
  if divisor = 0 then .error .divisionByZero else .ok (w.toNat % divisor)

/-- The weight that a word picks; the sum must be a word. -/
def pickWeight (maxWeight : Nat) (w : UInt64) : Except Fault Nat := do
  let r ← remainder w maxWeight
  addWord 1 r

/-- The next `count` stages, the first of which is numbered `i`, when `used` words of the stream
have been used; and how many have been used then. -/
def pickFrom (draw : Nat → UInt64) (maxWeight : Nat) :
    (count i used : Nat) → Except Fault (List Stage × Nat)
  | 0, _, used => .ok ([], used)
  | count + 1, i, used => do
    let parent ← remainder (draw used) i
    let weight ← pickWeight maxWeight (draw (used + 1))
    let s := { derived i weight parent with payload := ⟨UInt64.ofNat i⟩ }
    let (rest, used) ← pickFrom draw maxWeight count (i + 1) (used + 2)
    return (s :: rest, used)

/-- So many stages, and how many words they have used. -/
def pick (draw : Nat → UInt64) (n maxWeight : Nat) : Except Fault (List Stage × Nat) :=
  if n = 0 ∨ maxWeight = 0 then .error .emptyDraw
  else do
    let weight ← pickWeight maxWeight (draw 0)
    let (rest, used) ← pickFrom draw maxWeight (n - 1) 1 1
    return (rootStage weight :: rest, used)

end Sample

end LifetimeArena
