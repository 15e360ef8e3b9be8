import LifetimeArena.Stage

/-!
# Values by stage

A map from stages to values is the list of its entries, one for each stage, in the order in which
the stages were entered first.

- `insertByStage`: enters a value.
- `byStage`: a list of values, sorted into a map.
- `findByStage?`: the value of a stage.
-/

namespace LifetimeArena

variable {α : Type}

/-- Enters a value under its stage, in place of an earlier value of that stage or at the end. -/
def insertByStage (e : StageId × α) : List (StageId × α) → List (StageId × α)
  | [] => [e]
  | x :: l => if x.1 = e.1 then e :: l else x :: insertByStage e l

/-- The listed values by stage, one for each stage, in the order in which the stages come up. -/
def byStage (l : List (StageId × α)) : List (StageId × α) :=
  l.foldl (fun sorted e => insertByStage e sorted) []

/-- The value of a stage. -/
def findByStage? (l : List (StageId × α)) (stage : StageId) : Option α :=
  (l.find? (·.1 = stage)).map (·.2)

theorem insertByStage_of_notMem {e : StageId × α} {l : List (StageId × α)}
    (h : e.1 ∉ l.map (·.1)) : insertByStage e l = l ++ [e] := by
  induction l with
  | nil => rfl
  | cons x l ih =>
    rw [List.map_cons, List.mem_cons, not_or] at h
    rw [insertByStage, if_neg (Ne.symm h.1), ih h.2, List.cons_append]

/-- A stage without a value is none of those in the map. -/
theorem findByStage?_eq_none_iff {l : List (StageId × α)} {stage : StageId} :
    findByStage? l stage = none ↔ stage ∉ l.map (·.1) := by
  rw [findByStage?, Option.map_eq_none_iff, List.find?_eq_none, List.mem_map]
  constructor
  · rintro h ⟨e, he, rfl⟩
    exact h e he (decide_eq_true rfl)
  · intro h e he heq
    exact h ⟨e, he, of_decide_eq_true heq⟩

/-- In a list of numbered names a name has the number at which it comes first. -/
theorem findByStage?_zipIdx (names : List StageId) (stage : StageId) :
    findByStage? names.zipIdx stage = names.findIdx? (· = stage) := by
  rw [List.findIdx?_eq_fst_find?_zipIdx]
  rfl

end LifetimeArena
