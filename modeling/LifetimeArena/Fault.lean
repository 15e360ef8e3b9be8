/-!
# Faults

A fault is a misuse that no error value describes: an index that belongs to another tree, an
arithmetic step that leaves the machine word, an argument that breaks a stated precondition. The
operation that meets one answers with nothing else, and whatever was done before it stays done.

- `Fault`: the causes.
- `Fault.message`: the diagnostic text of each.
-/

namespace LifetimeArena

/-- Why an operation was abandoned. -/
inductive Fault where
  /-- A position was asked for that a sequence of `size` items does not have. -/
  | indexOutOfBounds (size index : Nat)
  /-- A run ending before position `stop` was asked for in a sequence of `size` items. -/
  | rangeOutOfBounds (stop size : Nat)
  /-- A difference of words fell below zero. -/
  | differenceBelowZero
  /-- A sum of words exceeded the largest word. -/
  | sumAboveWord
  /-- A word was divided by zero. -/
  | divisionByZero
  /-- A page size was no power of two. -/
  | pageSizeNotPowerOfTwo
  /-- A random tree was asked for without stages, or without room for a positive weight. -/
  | emptyDraw
  /-- An exhaustive search was asked for on too many stages. -/
  | searchTooLarge
deriving DecidableEq, Repr

/-- The diagnostic text of a fault. -/
def Fault.message : Fault → String
  | .indexOutOfBounds size index =>
    s!"index out of bounds: the len is {size} but the index is {index}"
  | .rangeOutOfBounds stop size =>
    s!"range end index {stop} out of range for slice of length {size}"
  | .differenceBelowZero => "attempt to subtract with overflow"
  | .sumAboveWord => "attempt to add with overflow"
  | .divisionByZero => "attempt to divide by zero"
  | .pageSizeNotPowerOfTwo => "assertion failed: page.is_power_of_two()"
  | .emptyDraw => "assertion failed: n > 0 && max_weight > 0"
  | .searchTooLarge => "brute force is exponential"

instance : ToString Fault where
  toString := Fault.message

end LifetimeArena
