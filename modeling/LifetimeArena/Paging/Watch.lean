import LifetimeArena.Paging.Guard

/-!
# Guards alive together

Any number of guards may be alive at a time, over the same or different pages, and they end in any
order. A `Watch` is the state of such a run: the rights of the pages, and the guards by the number
of their creation, of which the ended ones have left their number behind.

- `Watch.engage`, `Watch.drop`: one guard begins or ends.
- `Watch.dropAll`: the guards that are still alive end in the order of their creation.
-/

namespace LifetimeArena

/-- The rights of the pages and the guards created so far. -/
structure Watch where
  /-- The rights of the pages. -/
  table : PageTable
  /-- The guards by number; an ended guard is `none`. -/
  guards : List (Option Guard) := []

namespace Watch

/-- The guard of a number, if it is alive. -/
def guard? (w : Watch) (number : Nat) : Option Guard := w.guards[number]?.join

/-- The guards that are alive. -/
def live (w : Watch) : List Guard := w.guards.filterMap id

/-- Adds a guard that has just begun. -/
def add (w : Watch) (begun : Guard × Effect) : Watch where
  table := begun.2.table
  guards := w.guards ++ [some begun.1]

/-- Takes the next number without a guard. -/
def skip (w : Watch) : Watch := { w with guards := w.guards ++ [none] }

/-- Ends the guard of a number, if it is alive. -/
def drop (w : Watch) (number : Nat) : Option Effect × Watch :=
  match w.guard? number with
  | none => (none, w)
  | some g =>
    let effect := g.drop w.table
    (some effect, { table := effect.table, guards := w.guards.set number none })

/-- Ends the guards with the given numbers, one after the other. -/
def dropEach (w : Watch) : List Nat → List (Nat × Effect) × Watch
  | [] => ([], w)
  | number :: rest =>
    match w.drop number with
    | (none, w') => w'.dropEach rest
    | (some effect, w') =>
      let (effects, w'') := w'.dropEach rest
      ((number, effect) :: effects, w'')

/-- Ends all guards in the order of their creation, with what the end of each did. -/
def dropAll (w : Watch) : List (Nat × Effect) × Watch :=
  w.dropEach (List.range w.guards.length)

end Watch

end LifetimeArena
