import LifetimeArena.Placement.Layout
import LifetimeArena.Proofs.Placement.Soundness

/-!
# Layouts mirror the tree

`Layout.ofTree` goes through a tree node by node and may find one without an interval, or two of one
name, of which the later would take the place of the earlier. After the test it never does: the
layout has one entry for every node, in listing order, and to look up a stage in it is to look up
the stage in the tree.

- `byStage_of_nodup`: values of different stages all stay.
- `Layout.mirror`: the layout of a tree whose nodes all have offsets.
- `Layout.ofTree_ok`: a layout that was taken from a tree mirrors it.
- `BufferTree.Linked.indexOf?_eq_find?`: look-up by stage in the tree, as a search of the nodes.
- `Layout.node?_mirror`, `Layout.range?_mirror`: look-up by stage.
-/

namespace LifetimeArena

/-! ## Values by stage -/

section

variable {α : Type} {l : List (StageId × α)}

/-- Values of different stages all stay, in their order. -/
theorem byStage_of_nodup (h : (l.map (·.1)).Nodup) : byStage l = l := by
  induction l using List.reverseRecOn with
  | nil => rfl
  | append_singleton l e ih =>
    rw [List.map_append, List.map_singleton] at h
    obtain ⟨hl, -, hnew⟩ := List.nodup_append.1 h
    have hfresh : e.1 ∉ l.map (·.1) := fun hmem => hnew _ hmem _ (List.mem_singleton_self _) rfl
    rw [byStage, List.foldl_concat, ← byStage, ih hl, insertByStage_of_notMem hfresh]

/-- To look up a stage is to find its value in the list. -/
theorem findByStage?_eq_some_iff (h : (l.map (·.1)).Nodup) {stage : StageId} {v : α} :
    findByStage? l stage = some v ↔ (stage, v) ∈ l := by
  unfold findByStage?
  induction l with
  | nil => simp
  | cons x l ih =>
    obtain ⟨k, w⟩ := x
    obtain ⟨hk, hl⟩ := List.nodup_cons.1 h
    by_cases heq : k = stage
    · subst heq
      have hnot : (k, v) ∉ l := fun hmem => hk (List.mem_map.2 ⟨_, hmem, rfl⟩)
      simp [hnot, eq_comm]
    · simp [heq, Ne.symm heq, ih hl]

end

namespace BufferTree

/-- To look up a name is to find the first node of that name. -/
theorem Linked.indexOf?_eq_find? {t : BufferTree} (wf : t.Linked) (stage : StageId) :
    t.indexOf? stage = (t.numbered.find? fun x => decide (x.1.stage = stage)).map (·.2) := by
  rw [wf.indexOf?_eq, names, List.findIdx?_map]
  exact List.findIdx?_eq_fst_find?_zipIdx

end BufferTree

namespace Layout

/-- The entry of a numbered node, under its stage. -/
def entryAt (t : BufferTree) (x : Node × Nat) : StageId × Entry :=
  (x.1.stage, { node := x.2, range := (t.occupiedAt x.2).range, payload := x.1.payload })

/-- One entry for every node of the tree, in listing order. -/
def mirror (t : BufferTree) (arena : Nat) : Layout where
  arenaSize := arena
  totalWeight := t.totalWeight
  entries := t.numbered.map (entryAt t)

variable {t : BufferTree} {arena : Nat}

theorem entryOf_eq (h : t.LaidOut arena) {n : Node} {i : Nat} (hn : t.get? i = some n) :
    entryOf (n, i) = .ok (entryAt t (n, i)) := by
  unfold entryOf
  dsimp only
  rw [h.range?_eq hn]
  rfl

theorem stages_mirror (t : BufferTree) (arena : Nat) :
    (mirror t arena).entries.map (·.1) = t.names := by
  show (t.numbered.map (entryAt t)).map (·.1) = _
  rw [BufferTree.numbered, List.map_map, BufferTree.names]
  show t.nodes.toList.zipIdx.map (Node.stage ∘ Prod.fst) = _
  rw [← List.map_map, List.zipIdx_map_fst]

/-- After the test no node is without its interval, and no entry takes the place of another. -/
theorem ofTree_of_laidOut (hnames : t.names.Nodup) (h : t.LaidOut arena)
    (hcheck : t.check = .ok ()) : ofTree t = .ok (mirror t arena) := by
  have hkeep : byStage (t.numbered.map (entryAt t)) = t.numbered.map (entryAt t) :=
    byStage_of_nodup ((stages_mirror t arena).symm ▸ hnames)
  have hentries : t.numbered.mapM entryOf = .ok (t.numbered.map (entryAt t)) :=
    mapM_eq_ok fun _ hx => entryOf_eq h (BufferTree.mem_numbered.1 hx)
  unfold ofTree
  rw [hcheck]
  dsimp only
  rw [hentries]
  dsimp only
  rw [h.recorded, hkeep]
  rfl

theorem check_of_ofTree {l : Layout} (h : ofTree t = .ok l) : t.check = .ok () := by
  unfold ofTree at h
  split at h
  · cases h
  · next hcheck => exact hcheck

/-- Layouts are taken from correct trees only, and mirror them. -/
theorem ofTree_ok (hreach : Solver.Reachable t) {l : Layout} (h : ofTree t = .ok l) :
    ∃ arena, t.LaidOut arena ∧ l = mirror t arena := by
  have hcheck := check_of_ofTree h
  obtain ⟨arena, hlaid⟩ := (BufferTree.check_eq_ok_iff hreach.wellFormed hreach.filled).1 hcheck
  rw [ofTree_of_laidOut hreach.nodup_names hlaid hcheck] at h
  cases h
  exact ⟨arena, hlaid, rfl⟩

/-! ## Look-up -/

theorem get?_mirror (t : BufferTree) (arena : Nat) (stage : StageId) :
    (mirror t arena).get? stage =
      (t.numbered.find? fun x => decide (x.1.stage = stage)).map fun x => (entryAt t x).2 := by
  show ((t.numbered.map (entryAt t)).find? _).map (·.2) = _
  rw [List.find?_map, Option.map_map]
  rfl

/-- The stages of the layout are those of the tree, with the same nodes. -/
theorem node?_mirror (wf : t.Linked) (arena : Nat) (stage : StageId) :
    ((mirror t arena).get? stage).map (·.node) = t.indexOf? stage := by
  rw [get?_mirror, wf.indexOf?_eq_find?, Option.map_map]
  rfl

/-- The interval of a stage in the layout is that of its node. -/
theorem range?_mirror (wf : t.Linked) (arena : Nat) (stage : StageId) :
    (mirror t arena).range? stage = (t.indexOf? stage).map fun i => (t.occupiedAt i).range := by
  rw [range?, get?_mirror, wf.indexOf?_eq_find?, Option.map_map, Option.map_map]
  rfl

end Layout

end LifetimeArena
