/-!
# Events

Operations report what they did as events: a level, a fixed text and named values. An operation
returns its events in the order in which they happened; it is for the caller to write them anywhere.
-/

namespace LifetimeArena

/-- How much an event matters. -/
inductive Level where
  /-- Fine-grained progress. -/
  | trace
  /-- A completed step. -/
  | debug
  /-- Something did not work and was survived. -/
  | warn
deriving DecidableEq, Repr

/-- The value of an event's field. -/
inductive FieldValue where
  /-- A number. -/
  | number (n : Nat)
  /-- A text. -/
  | text (s : String)
deriving DecidableEq, Repr

/-- One reported event. -/
structure Event where
  /-- How much it matters. -/
  level : Level
  /-- What happened. -/
  message : String
  /-- The particulars, by name. -/
  fields : List (String × FieldValue)
deriving DecidableEq, Repr

end LifetimeArena
