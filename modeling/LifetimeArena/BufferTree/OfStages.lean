import LifetimeArena.BufferTree.Draft

/-!
# Trees from stage lists

`BufferTree.ofStages` builds the tree of a whole list. Unlike a draft it can see what is still to
come, so for a parent that was not listed before its child it tells apart a parent that is nowhere,
a cycle of parent links, and a parent that is merely listed too late.

- `firstPosition?`, `listedParent?`: what a name means in a list that may repeat names: its first
  occurrence counts.
- `ClosesCycle`: following parent links from a name leads to a given stage.
- `checkOrder`: the test on the parent of one stage.
- `BufferTree.ofStages`: the tree, or the cause of the first refusal.
-/

namespace LifetimeArena

/-- The first position at which a name is listed. -/
def firstPosition? (stages : List Stage) (id : StageId) : Option Nat :=
  stages.findIdx? (·.id = id)

/-- The parent named by the first stage of that name. -/
def listedParent? (stages : List Stage) (id : StageId) : Option StageId :=
  (stages.find? (·.id = id)).bind (·.parent)

/-- Whether `target` is met within `looks` names when parent links are followed from `id`. -/
def meets (stages : List Stage) (target : StageId) : (looks : Nat) → (id : StageId) → Bool
  | 0, _ => false
  | looks + 1, id =>
    if id = target then true
    else
      match listedParent? stages id with
      | some next => meets stages target looks next
      | none => false

/-- Following parent links from `parent` leads to `stage`. There are no more names to meet than
stages in the list. -/
def ClosesCycle (stages : List Stage) (stage parent : StageId) : Prop :=
  meets stages stage stages.length parent = true

instance (stages : List Stage) (stage parent : StageId) :
    Decidable (ClosesCycle stages stage parent) :=
  inferInstanceAs (Decidable (meets stages stage stages.length parent = true))

/-- The parent named by the stage at position `pos` must be listed before that position. -/
def checkOrder (stages : List Stage) (pos : Nat) (s : Stage) : Except Malformed Unit :=
  match s.parent with
  | none => .ok ()
  | some p =>
    match firstPosition? stages p with
    | none => .error (.dangling s.id p)
    | some q =>
      if q < pos then .ok ()
      else if ClosesCycle stages s.id p then .error (.cyclic s.id)
      else .error (.outOfOrder s.id p)

/-- Pushes the stages of `rest`, which start at position `pos` of the whole list, each after the
test on its parent. Stops at the first refusal. -/
def growFrom (stages : List Stage) (d : Draft) (pos : Nat) : List Stage → Except Malformed Draft
  | [] => .ok d
  | s :: rest =>
    match checkOrder stages pos s with
    | .error e => .error e
    | .ok () =>
      match d.push s with
      | (.error e, _) => .error e
      | (.ok _, d') => growFrom stages d' (pos + 1) rest

/-- The tree of a list of stages in execution order. -/
def BufferTree.ofStages (stages : List Stage) : Except Malformed BufferTree :=
  match growFrom stages {} 0 stages with
  | .error e => .error e
  | .ok d => d.finish

end LifetimeArena
