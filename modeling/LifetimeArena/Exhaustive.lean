import LifetimeArena.BufferTree.OfStages

/-!
# Exhaustive search

The heaviest antichain of a short stage list by trying every set of stages, and kinship by looking
up names in the list. Nothing is shared with buffer trees, so the two can be compared. The list need
not describe a tree: a name means its first occurrence, and an unknown name has no parent.

The sets can be counted through as masks with one bit for each position. Going through the positions
once, and putting none to one that it is related to, comes to the same answers and takes less time.

- `Exhaustive.isAncestor`: kinship by names.
- `Exhaustive.maxAntichainWeight`: the heaviest antichain.
- `Exhaustive.tryMasks`: the search mask by mask.
-/

namespace LifetimeArena

namespace Exhaustive

/-- Whether `target` is met within `looks` names when parent links are followed, the first link
leading to `next`. -/
def climbs (stages : List Stage) (target : StageId) : (looks : Nat) → (next : Option StageId) → Bool
  | _, none => false
  | 0, some _ => false
  | looks + 1, some id =>
    if id = target then true else climbs stages target looks (listedParent? stages id)

/-- Following parent links from the stage at position `b` leads to the name of the stage at position
`a`. A path without repetition meets each listed name at most once, and one unlisted name at its
end. -/
def isAncestor (stages : List Stage) (a b : Nat) : Bool :=
  match stages[a]?, stages[b]? with
  | some s, some r => climbs stages s.id (stages.length + 1) r.parent
  | _, _ => false

/-- Kinship of two positions that come from outside; the first is looked up first. -/
def isAncestorAt (stages : List Stage) (a b : Nat) : Except Fault Bool :=
  if stages.length ≤ a then .error (.indexOutOfBounds stages.length a)
  else if stages.length ≤ b then .error (.indexOutOfBounds stages.length b)
  else .ok (isAncestor stages a b)

/-- Either of the two positions is an ancestor of the other. -/
def related (stages : List Stage) (a b : Nat) : Bool :=
  isAncestor stages a b || isAncestor stages b a

/-- The weight at a position. -/
def weight (stages : List Stage) (i : Nat) : Nat := (stages[i]?.map (·.weight)).getD 0

/-- The largest weight of the chosen positions together with some of the listed ones, where no two
positions that are put together clash and `sum` is the weight of the chosen ones. -/
def heaviest (clash : Nat → Nat → Bool) (weight : Nat → Nat) (chosen : List Nat) (sum : Nat) :
    List Nat → Nat
  | [] => sum
  | i :: rest =>
    let without := heaviest clash weight chosen sum rest
    if chosen.any (clash · i) then without
    else max without (heaviest clash weight (i :: chosen) (sum + weight i) rest)

/-- Which positions are related, row by row. -/
def relatedTable (stages : List Stage) : Array (Array Bool) :=
  ((List.range stages.length).map fun a =>
    ((List.range stages.length).map fun b => related stages a b).toArray).toArray

/-- The entry of a table of truth values. -/
def entry (table : Array (Array Bool)) (a b : Nat) : Bool := (table.getD a #[]).getD b false

/-- The largest weight of a set of pairwise unrelated positions. -/
def maxAntichainWeight (stages : List Stage) : Nat :=
  let table := relatedTable stages
  heaviest (entry table) (weight stages) [] 0 (List.range stages.length)

/-- The longest list that is searched. -/
def searchLimit : Nat := 20

/-- The heaviest antichain of a list that comes from outside, which must be short; no antichain may
weigh more than a word. -/
def maxAntichainWeightAt (stages : List Stage) : Except Fault Nat :=
  if searchLimit < stages.length then .error .searchTooLarge
  else if wordMax < maxAntichainWeight stages then .error .sumAboveWord
  else .ok (maxAntichainWeight stages)

/-! ## Mask by mask -/

/-- The positions whose bit is set in a mask. -/
def members (n mask : Nat) : List Nat := (List.range n).filter mask.testBit

/-- Whether no position is related to a later one. -/
def unrelated (stages : List Stage) : List Nat → Bool
  | [] => true
  | a :: rest => rest.all (fun b => !related stages a b) && unrelated stages rest

/-- The larger of the best weight so far and the weight of the set of a mask, if no two of its
positions are related. -/
def tryMask (stages : List Stage) (best mask : Nat) : Except Fault Nat :=
  let chosen := members stages.length mask
  if unrelated stages chosen then do
    let sum ← chosen.foldlM (fun sum i => addWord sum (weight stages i)) 0
    return max best sum
  else return best

/-- The heaviest antichain of a list that comes from outside, by looking at the sets of all masks
one after the other. -/
def tryMasks (stages : List Stage) : Except Fault Nat :=
  if searchLimit < stages.length then .error .searchTooLarge
  else (List.range' 1 ((1 <<< stages.length) - 1)).foldlM (tryMask stages) 0

end Exhaustive

end LifetimeArena
