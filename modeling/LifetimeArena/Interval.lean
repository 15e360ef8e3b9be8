import LifetimeArena.Word

/-!
# Byte intervals

An `Interval` is the half-open run of bytes `[start, stop)` that a buffer occupies. Intervals are
plain pairs: one whose `stop` lies below its `start` covers no byte.

- `Interval.ofLength?`: the run of a given length, if it stays within the word.
- `Interval.Overlaps`: two runs reach into each other.
- `Interval.Precedes`: the order by start, then by stop.
- `Interval.ranks`: the positions of a list of intervals in that order.
-/

namespace LifetimeArena

/-- The half-open run of bytes from `start` up to `stop`. -/
structure Interval where
  /-- The first byte. -/
  start : Nat
  /-- One past the last byte. -/
  stop : Nat
deriving DecidableEq, Repr

namespace Interval

/-- A byte belongs to an interval from its start up to, but not at, its stop. -/
instance : Membership Nat Interval where
  mem r x := r.start ≤ x ∧ x < r.stop

theorem mem_iff {r : Interval} {x : Nat} : x ∈ r ↔ r.start ≤ x ∧ x < r.stop := Iff.rfl

instance (x : Nat) (r : Interval) : Decidable (x ∈ r) :=
  inferInstanceAs (Decidable (r.start ≤ x ∧ x < r.stop))

/-- The interval of `length` bytes from `start`, if its stop is a word. -/
def ofLength? (start length : Nat) : Option Interval :=
  (addWord? start length).map (⟨start, ·⟩)

theorem ofLength?_eq_some_iff {start length : Nat} {r : Interval} :
    ofLength? start length = some r ↔
      r = ⟨start, start + length⟩ ∧ start + length ≤ wordMax := by
  simp only [ofLength?, Option.map_eq_some_iff, addWord?_eq_some_iff]
  constructor
  · rintro ⟨_, ⟨rfl, h⟩, rfl⟩
    exact ⟨rfl, h⟩
  · rintro ⟨rfl, h⟩
    exact ⟨_, ⟨rfl, h⟩, rfl⟩

theorem ofLength?_eq_none_iff {start length : Nat} :
    ofLength? start length = none ↔ wordMax < start + length := by
  simp [ofLength?, addWord?_eq_none_iff]

/-- The number of bytes covered; zero for an interval that runs backwards. -/
def length (r : Interval) : Nat := r.stop - r.start

/-- The distance from start to stop. An interval that runs backwards has none. -/
def span (r : Interval) : Except Fault Nat :=
  if r.stop < r.start then .error .differenceBelowZero else .ok r.length

/-- Whether the interval covers no byte. -/
def isEmpty (r : Interval) : Bool := decide (r.stop ≤ r.start)

/-- Each of the two intervals starts before the other stops. For intervals that cover a byte this
says that they share one. -/
def Overlaps (r s : Interval) : Prop := r.start < s.stop ∧ s.start < r.stop

instance (r s : Interval) : Decidable (r.Overlaps s) :=
  inferInstanceAs (Decidable (r.start < s.stop ∧ s.start < r.stop))

theorem Overlaps.symm {r s : Interval} (h : r.Overlaps s) : s.Overlaps r := ⟨h.2, h.1⟩

/-- The order of intervals: by start, and by stop where the starts agree. -/
def Precedes (r s : Interval) : Prop := r.start < s.start ∨ (r.start = s.start ∧ r.stop ≤ s.stop)

instance (r s : Interval) : Decidable (r.Precedes s) :=
  inferInstanceAs (Decidable (r.start < s.start ∨ (r.start = s.start ∧ r.stop ≤ s.stop)))

/-- Puts a numbered interval behind those that precede or equal it. -/
def insertRanked (r : Interval × Nat) : List (Interval × Nat) → List (Interval × Nat)
  | [] => [r]
  | s :: l => if s.1.Precedes r.1 then s :: insertRanked r l else r :: s :: l

/-- The positions of the listed intervals in their order; equal intervals keep their listing. -/
def ranks (l : List Interval) : List Nat :=
  (l.zipIdx.foldl (fun sorted r => insertRanked r sorted) []).map (·.2)

instance : ToString Interval where
  toString r := s!"[{r.start}, {r.stop})"

end Interval

end LifetimeArena
