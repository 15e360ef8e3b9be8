import LifetimeArena.Interval

/-!
# Gaps between obstacles

Where in an arena does a buffer go that must avoid some intervals? Into the longest gap that can
take it, the lowest of those; if no gap can, behind the last obstacle.

- `gaps`: the free runs of an arena between sorted obstacles.
- `considerGap`: keeps the better of a gap and the best one so far.
- `chooseOffset?`: the offset for a buffer.
-/

namespace LifetimeArena

/-- The free runs at or above `cursor`, the lowest first: one before each obstacle that starts above
everything seen so far, and one up to the end of the arena. The obstacles are sorted. -/
def gapsFrom (arenaSize cursor : Nat) : List Interval → List Interval
  | [] => if cursor < arenaSize then [⟨cursor, arenaSize⟩] else []
  | r :: rest =>
    let above := gapsFrom arenaSize (max cursor r.stop) rest
    if cursor < r.start then ⟨cursor, r.start⟩ :: above else above

/-- The free runs of an arena between sorted obstacles. -/
def gaps (obstacles : List Interval) (arenaSize : Nat) : List Interval :=
  gapsFrom arenaSize 0 obstacles

/-- The highest stop of the obstacles, zero if there is none. -/
def topOf (obstacles : List Interval) : Nat :=
  obstacles.foldl (fun top r => max top r.stop) 0

/-- A gap that can take the buffer. -/
structure Fit where
  /-- The length of the gap. -/
  length : Nat
  /-- The first aligned byte in it. -/
  start : Nat
deriving DecidableEq, Repr

/-- Whether `weight` bytes from `start` stay below `stop`. -/
def fitsBelow (start weight stop : Nat) : Bool :=
  match addWord? start weight with
  | some reach => decide (reach ≤ stop)
  | none => false

/-- Compares a gap with the best fit so far, which only a strictly longer gap replaces. There is no
answer where the start of the gap cannot be aligned within the word. -/
def considerGap (weight alignment : Nat) (best : Option Fit) (gap : Interval) :
    Option (Option Fit) :=
  (alignUp? gap.start alignment).map fun start =>
    if fitsBelow start weight gap.stop && best.all (·.length < gap.length) then
      some ⟨gap.length, start⟩
    else best

/-- The offset for `weight` bytes that avoid the sorted obstacles in an arena of `arenaSize` bytes.
There is none where a start cannot be aligned within the word. -/
def chooseOffset? (obstacles : List Interval) (arenaSize weight alignment : Nat) : Option Nat :=
  match (gaps obstacles arenaSize).foldlM (considerGap weight alignment) none with
  | none => none
  | some (some fit) => some fit.start
  | some none => alignUp? (topOf obstacles) alignment

/-- The offset at an alignment that comes from outside. -/
def chooseOffset (obstacles : List Interval) (arenaSize weight alignment : Nat) :
    Except Fault (Option Nat) := do
  requireAlignment alignment
  return chooseOffset? obstacles arenaSize weight alignment

end LifetimeArena
