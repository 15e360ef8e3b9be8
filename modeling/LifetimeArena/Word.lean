import LifetimeArena.Fault

/-!
# Machine words

Sizes, offsets and addresses are 64-bit words. They are kept as natural numbers, and every sum that
could leave the word says so: `addWord?` has no answer where the sum is no word.

- `wordMax`: the largest word.
- `addWord?`: addition that notices when the sum is too large.
- `clearBits`: switches off the bits of a mask.
- `alignUp?`: rounds a word up to an alignment by adding the mask below it and clearing that mask.
-/

namespace LifetimeArena

/-- The largest word. -/
def wordMax : Nat := (1 <<< 64) - 1

/-- The sum of two words, if it is a word. -/
def addWord? (a b : Nat) : Option Nat :=
  if a + b ≤ wordMax then some (a + b) else none

theorem addWord?_eq_some_iff {a b c : Nat} :
    addWord? a b = some c ↔ a + b = c ∧ a + b ≤ wordMax := by
  unfold addWord?
  split
  · simp_all
  · simp only [reduceCtorEq, false_iff]
    omega

theorem addWord?_eq_none_iff {a b : Nat} : addWord? a b = none ↔ wordMax < a + b := by
  unfold addWord?
  split
  · simp only [reduceCtorEq, false_iff]
    omega
  · simp only [true_iff]
    omega

/-- The sum of two words; a sum that is no word is a fault. -/
def addWord (a b : Nat) : Except Fault Nat :=
  if a + b ≤ wordMax then .ok (a + b) else .error .sumAboveWord

/-- Switches off in `x` every bit of `mask`. The bits to go are a part of `x`, so taking them away
changes no other bit. -/
def clearBits (x mask : Nat) : Nat :=
  x - (x &&& mask)

/-- Rounds `value` up to the next multiple of `alignment`, if that is a word. Exact for powers of
two; any other alignment goes through the same mask. The alignment is at least one. -/
def alignUp? (value alignment : Nat) : Option Nat :=
  (addWord? value (alignment - 1)).map (clearBits · (alignment - 1))

/-- The alignment must leave a mask below it: zero has no word below. -/
def requireAlignment (alignment : Nat) : Except Fault Unit :=
  if alignment = 0 then .error .differenceBelowZero else .ok ()

/-- Rounds a word up to an alignment that comes from outside. -/
def alignUp (value alignment : Nat) : Except Fault (Option Nat) := do
  requireAlignment alignment
  return alignUp? value alignment

end LifetimeArena
