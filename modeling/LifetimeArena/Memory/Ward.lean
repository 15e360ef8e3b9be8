import LifetimeArena.Memory.Arena
import LifetimeArena.Paging.Watch

/-!
# Memory under guards

Arenas and regions of memory, and the guards over their buffers and slices. A guard can begin over
anything, and guards end in any order. Any number of them may share pages.

- `Region.guardSlice`: a guard over bytes of a region.
- `Ward`: memory and the guards over it.
- `Ward.step`, `Ward.run`: guards begin and end.
-/

namespace LifetimeArena

/-- Guards the bytes of an interval, which must be usable. -/
def Region.guardSlice (r : Region) (range : Interval) (t : PageTable) :
    Except Fault (Guard × Effect) :=
  match r.read range with
  | .ok bytes => .ok (Guard.engage (.system r.page) (r.start + range.start) bytes.size t)
  | .error f => .error f

/-- Memory, and the guards over it. -/
structure Ward where
  arenas : List Arena := []
  regions : List Region := []
  watch : Watch

namespace Ward

/-- What a guard can be begun over. -/
inductive Target where
  /-- The buffer of a stage in an arena, to be sealed. -/
  | buffer (arena : Nat) (stage : StageId)
  /-- The bytes of an interval in a region. -/
  | slice (region : Nat) (range : Interval)
  /-- Any block of memory. -/
  | block (addr size : Nat)
deriving DecidableEq, Repr

/-- What can happen to guards. -/
inductive Move where
  /-- A guard begins. -/
  | guard (target : Target)
  /-- The guard of a number ends, if it is alive. -/
  | drop (number : Nat)
deriving DecidableEq, Repr

/-- The beginning of a guard over a target, if there is such a target. -/
def engage? (w : Ward) : Target → Option (Guard × Effect)
  | .buffer arena stage =>
    match w.arenas[arena]?.map fun a : Arena => a.sealBuffer stage w.watch.table with
    | some (.ok begun) => some begun
    | _ => none
  | .slice region range =>
    match w.regions[region]?.map fun r : Region => r.guardSlice range w.watch.table with
    | some (.ok begun) => some begun
    | _ => none
  | .block addr size =>
    some (Guard.engage (.system w.watch.table.pageSize) addr size w.watch.table)

/-- One move. A guard over nothing does not begin. -/
def step (w : Ward) : Move → Ward
  | .guard target =>
    match w.engage? target with
    | some begun => { w with watch := w.watch.add begun }
    | none => w
  | .drop number => { w with watch := (w.watch.drop number).2 }

/-- The moves one after the other. -/
def run (w : Ward) (moves : List Move) : Ward := moves.foldl step w

end Ward

end LifetimeArena
