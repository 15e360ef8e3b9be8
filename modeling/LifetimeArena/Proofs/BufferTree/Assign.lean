import LifetimeArena.Proofs.BufferTree.Ancestry

/-!
# Writing a solution

`BufferTree.assign` writes offsets and the arena size and nothing else: links, sizes and stages
stay, and with them the shape of the tree, kinship and well-formedness. A list with one offset for
every node leaves no node without one.

- `BufferTree.get?_assign`: the nodes afterwards.
- `BufferTree.offset?`, `BufferTree.offset?_assign`: the offsets, before and afterwards.
- `BufferTree.related_assign`, `BufferTree.WellFormed.assign`: what stays.
-/

namespace LifetimeArena

namespace BufferTree

/-- Where the buffer of a node starts, once solved. -/
def offset? (t : BufferTree) (i : Nat) : Option Nat := (t.get? i).bind (·.offset)

theorem offset?_of_get? {t : BufferTree} {i : Nat} {n : Node} (h : t.get? i = some n) :
    t.offset? i = n.offset := by
  rw [offset?, h, Option.bind_some]

section

variable (t : BufferTree) (offsets : Array Nat) (arena : Nat)

/-- A node keeps everything but, where the list has one for it, the offset. -/
theorem get?_assign (i : Nat) :
    (t.assign offsets arena).get? i = (t.get? i).map fun n =>
      { n with offset := (offsets[i]?).or n.offset } := by
  show (t.nodes.mapIdx _)[i]? = (t.nodes[i]?).map _
  rw [Array.getElem?_mapIdx]
  congr 1
  funext n
  cases offsets[i]? with
  | none => rfl
  | some o => rfl

@[simp] theorem parent?_assign (i : Nat) : (t.assign offsets arena).parent? i = t.parent? i := by
  unfold parent?
  rw [get?_assign]
  cases t.get? i with
  | none => rfl
  | some n => rfl

@[simp] theorem children_assign (i : Nat) :
    (t.assign offsets arena).children i = t.children i := by
  unfold children
  rw [get?_assign]
  cases t.get? i with
  | none => rfl
  | some n => rfl

@[simp] theorem weight_assign (i : Nat) : (t.assign offsets arena).weight i = t.weight i := by
  unfold weight
  rw [get?_assign]
  cases t.get? i with
  | none => rfl
  | some n => rfl

@[simp] theorem names_assign : (t.assign offsets arena).names = t.names := by
  refine List.ext_getElem? fun i => ?_
  rw [names, names, List.getElem?_map, List.getElem?_map, Array.getElem?_toList,
    Array.getElem?_toList]
  show ((t.assign offsets arena).get? i).map (·.stage) = (t.get? i).map (·.stage)
  rw [get?_assign, Option.map_map]
  rfl

theorem climb_assign (steps i : Nat) :
    (t.assign offsets arena).climb steps i = t.climb steps i := by
  induction steps generalizing i with
  | zero => rfl
  | succ steps ih =>
    rw [climb, climb, parent?_assign]
    cases t.parent? i with
    | none => rfl
    | some p =>
      dsimp only
      rw [ih]

@[simp] theorem isAncestor_assign {a b : Nat} :
    (t.assign offsets arena).IsAncestor a b ↔ t.IsAncestor a b := by
  unfold IsAncestor ancestors
  rw [climb_assign, size_assign]

@[simp] theorem related_assign {a b : Nat} :
    (t.assign offsets arena).Related a b ↔ t.Related a b := by
  unfold Related
  rw [isAncestor_assign, isAncestor_assign]

end

variable {t : BufferTree} {offsets : Array Nat} {arena : Nat}

/-- A list of the right length holds the new offset of every node. -/
theorem offset?_assign (h : offsets.size = t.size) (i : Nat) :
    (t.assign offsets arena).offset? i = offsets[i]? := by
  unfold offset?
  rw [get?_assign]
  by_cases hi : i < t.size
  · obtain ⟨n, hn⟩ := exists_get? hi
    have hget : offsets[i]? = some offsets[i] := Array.getElem?_eq_getElem (h ▸ hi)
    rw [hn, hget]
    rfl
  · have hnone : t.get? i = none := get?_eq_none_iff.2 (Nat.le_of_not_lt hi)
    have hget : offsets[i]? = none := Array.getElem?_eq_none_iff.2 (h ▸ Nat.le_of_not_lt hi)
    rw [hnone, hget]
    rfl

theorem WellFormed.assign (wf : t.WellFormed) (offsets : Array Nat) (arena : Nat) :
    (t.assign offsets arena).WellFormed where
  parent_zero := by
    rw [parent?_assign]
    exact wf.parent_zero
  parent_of_pos := by
    intro i hpos hi
    rw [parent?_assign]
    exact wf.parent_of_pos i hpos (size_assign t offsets arena ▸ hi)
  children_eq := by
    intro i
    rw [children_assign, size_assign, wf.children_eq]
    simp only [parent?_assign]
  index_eq := by
    rw [names_assign]
    exact wf.index_eq
  weight_pos := by
    intro i hi
    rw [weight_assign]
    exact wf.weight_pos i (size_assign t offsets arena ▸ hi)
  total_eq := by
    rw [totalWeight_assign, size_assign, wf.total_eq]
    simp only [weight_assign]
  total_le := wf.total_le
  size_pos := by
    rw [size_assign]
    exact wf.size_pos

end BufferTree

end LifetimeArena
