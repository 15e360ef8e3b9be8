import LifetimeArena.Proofs.BufferTree.WellFormed

/-!
# Drafts and lists

A draft takes stages one by one. `BufferTree.ofStages` would take them from a list, after a test on
the place of their parents in the whole list. That test passes what the draft accepts, so the stages
of a draft are taken from every list that they are the front of.

- `Draft.pushes`: the draft after any pushes, accepted or not.
- `Draft.Lists`: the stages that a draft took.
- `Draft.Lists.checkOrder_eq`, `Draft.Lists.extend`: one stage more.
-/

namespace LifetimeArena

theorem growFrom_append (stages : List Stage) (l l' : List Stage) (d : Draft) (pos : Nat) :
    growFrom stages d pos (l ++ l') =
      (growFrom stages d pos l).bind fun d' => growFrom stages d' (pos + l.length) l' := by
  induction l generalizing d pos with
  | nil => rfl
  | cons s l ih =>
    rw [List.cons_append, growFrom, growFrom]
    split
    · rfl
    · split
      · rfl
      · rw [ih, List.length_cons, Nat.add_assoc, Nat.add_comm 1]

namespace Draft

/-- The draft after the listed pushes. -/
def pushes (d : Draft) (stages : List Stage) : Draft := stages.foldl (fun d s => (d.push s).2) d

/-- The draft took the listed stages, and would take them from any longer list. -/
structure Lists (d : Draft) (taken : List Stage) : Prop where
  names : d.tree.names = taken.map (·.id)
  grown : ∀ more, growFrom (taken ++ more) {} 0 taken = .ok d

variable {d : Draft} {taken : List Stage} {s : Stage} {parent : Option Nat}

theorem lists_empty : Lists {} [] := ⟨rfl, fun _ => rfl⟩

/-- An accepted stage names a parent that the draft knows. -/
theorem exists_indexOf? (wf : d.tree.Linked) (h : d.accept s = .ok parent) {p : StageId}
    (hp : s.parent = some p) : ∃ i, d.indexOf? p = some i ∧ i < d.size := by
  obtain ⟨-, -, hparent, -⟩ := accept_eq_ok_iff.1 h
  rcases parentFor_eq_ok_iff.1 hparent with ⟨hnone, -, -⟩ | ⟨q, i, hq, -, hi, -⟩
  · rw [hp] at hnone
    cases hnone
  · rw [hp] at hq
    cases hq
    exact ⟨i, hi, wf.lt_size_of_indexOf? hi⟩

namespace Lists

theorem length_eq (h : d.Lists taken) : d.size = taken.length := by
  have hlength := congrArg List.length h.names
  rwa [BufferTree.names, List.length_map, List.length_map, Array.length_toList] at hlength

/-- A name that the draft knows was listed before. -/
theorem firstPosition?_eq (h : d.Lists taken) (wf : d.tree.Linked) {p : StageId} {i : Nat}
    (hi : d.indexOf? p = some i) (more : List Stage) :
    firstPosition? (taken ++ more) p = some i := by
  have hlisted : taken.findIdx? (·.id = p) = some i := by
    have hsame : d.indexOf? p = d.tree.names.findIdx? (· = p) := wf.indexOf?_eq p
    rw [hi, h.names, List.findIdx?_map] at hsame
    exact hsame.symm
  rw [firstPosition?, List.findIdx?_append, hlisted]
  rfl

/-- What the draft accepts passes the test on its parent in the list. -/
theorem checkOrder_eq (h : d.Lists taken) (wf : d.tree.Linked)
    (haccept : d.accept s = .ok parent) (more : List Stage) :
    checkOrder (taken ++ more) taken.length s = .ok () := by
  unfold checkOrder
  split
  · rfl
  · next p hp =>
    obtain ⟨i, hi, hlt⟩ := exists_indexOf? wf haccept hp
    rw [h.firstPosition?_eq wf hi]
    exact if_pos (h.length_eq ▸ hlt)

/-- Accepting a stage makes the list longer by it. -/
theorem extend (h : d.Lists taken) (wf : d.tree.Linked) (haccept : d.accept s = .ok parent) :
    (d.extend s parent).Lists (taken ++ [s]) where
  names := by
    rw [names_extend, h.names, List.map_append]
    rfl
  grown := by
    intro more
    rw [List.append_assoc, growFrom_append, h.grown]
    show growFrom (taken ++ s :: more) d (0 + taken.length) [s] = .ok (d.extend s parent)
    rw [Nat.zero_add, growFrom, h.checkOrder_eq wf haccept, Draft.push, haccept]
    rfl

end Lists

end Draft

end LifetimeArena
