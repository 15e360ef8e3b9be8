import LifetimeArena.Proofs.BufferTree.Drafts
import LifetimeArena.Proofs.BufferTree.ExecutionOrder
import LifetimeArena.Sample.Families

/-!
# Which lists are trees

`BufferTree.ofStages` accepts the lists that describe a tree and no others, and the tree that it
builds shows the list again in everything that can be asked of it.

A draft that has taken some stages reads back as their list (`BufferTree.stages`), and the next
stage is accepted exactly if it may follow them (`Draft.Took.exists_accept_iff`). So the run over a
whole list carries the draft and the order of what it took side by side.

- `BufferTree.Mirrors`: a tree shows a list of stages.
- `Draft.Took`: the draft after some stages.
- `BufferTree.ofStages_ok_iff_describesTree`: which lists are accepted, and what is built.
-/

namespace LifetimeArena

/-! ## Trees that show a list -/

namespace BufferTree

/-- The stage that a node was made from. -/
def stageOf (t : BufferTree) (n : Node) : Stage where
  id := n.stage
  weight := n.weight
  parent := n.parent.map t.stageAt
  payload := n.payload

/-- The stages that the nodes were made from, in listing order. -/
def stages (t : BufferTree) : List Stage := t.nodes.toList.map t.stageOf

/-- The tree has a node for every listed stage, in the order of the list. Parents, children, look-up
by name and the total are those of the list, and nothing is solved. -/
structure Mirrors (t : BufferTree) (stages : List Stage) : Prop where
  size_eq : t.size = stages.length
  /-- Node numbers are 32-bit numbers. -/
  size_le : t.size ≤ 2 ^ 32
  node : ∀ i s, stages[i]? = some s → ∃ n, t.get? i = some n ∧
    n.stage = s.id ∧ n.weight = s.weight ∧ n.payload = s.payload ∧ n.offset = none
  /-- The parent is the position of the stage that is named. -/
  parent : ∀ i s, stages[i]? = some s →
    (s.parent = none → t.parent? i = none) ∧
    ∀ id, s.parent = some id →
      ∃ p, t.parent? i = some p ∧ p < i ∧ (stages[p]?).map (·.id) = some id
  /-- The children are the positions of the stages that name it. -/
  children : ∀ i s, stages[i]? = some s →
    t.children i =
      (List.range stages.length).filter fun j => (stages[j]?).bind (·.parent) = some s.id
  indexOf? : ∀ id i, t.indexOf? id = some i ↔ (stages[i]?).map (·.id) = some id
  totalWeight : t.totalWeight = (stages.map (·.weight)).sum
  arenaSize : t.arenaSize = none

variable {t : BufferTree} {i : Nat}

theorem getElem?_stages (t : BufferTree) (i : Nat) :
    t.stages[i]? = (t.get? i).map t.stageOf := by
  rw [stages, List.getElem?_map, Array.getElem?_toList]
  rfl

theorem length_stages (t : BufferTree) : t.stages.length = t.size := by
  rw [stages, List.length_map, Array.length_toList]
  rfl

theorem map_id_stages (t : BufferTree) : t.stages.map (·.id) = t.names := by
  rw [stages, List.map_map]
  rfl

theorem getElem?_names (h : i < t.size) : t.names[i]? = some (t.stageAt i) := by
  obtain ⟨n, hn⟩ := exists_get? h
  rw [names, List.getElem?_map, Array.getElem?_toList, stageAt_of_get? hn]
  show (t.get? i).map (·.stage) = some n.stage
  rw [hn]
  rfl

theorem length_names (t : BufferTree) : t.names.length = t.size := by
  rw [← map_id_stages, List.length_map, length_stages]

/-- With names of their own, nodes are found where they are. -/
theorem Linked.indexOf?_eq_some_iff (wf : t.Linked) (h : t.names.Nodup) {id : StageId} :
    t.indexOf? id = some i ↔ t.names[i]? = some id := by
  rw [wf.indexOf?_eq, List.findIdx?_eq_some_iff_getElem, List.getElem?_eq_some_iff]
  refine exists_congr fun hi => ?_
  rw [decide_eq_true_iff, and_iff_left_iff_imp]
  rintro rfl j hj
  rw [decide_eq_true_iff, h.getElem_inj_iff]
  exact Nat.ne_of_lt hj

theorem stageAt_injective (h : t.names.Nodup) {j : Nat} (hi : i < t.size) (hj : j < t.size)
    (heq : t.stageAt i = t.stageAt j) : i = j := by
  refine (List.getElem?_inj (t.length_names ▸ hi) h).1 ?_
  rw [getElem?_names hi, getElem?_names hj, heq]

theorem Linked.totalWeight_eq (wf : t.Linked) : t.totalWeight = (t.stages.map (·.weight)).sum := by
  have hweights : t.stages.map (·.weight) = (List.range t.size).map t.weight := by
    refine List.ext_getElem? fun i => ?_
    rw [List.getElem?_map, List.getElem?_map, getElem?_stages]
    by_cases hi : i < t.size
    · obtain ⟨n, hn⟩ := exists_get? hi
      rw [hn, List.getElem?_range hi, Option.map_some, Option.map_some, Option.map_some,
        weight_of_get? hn]
      rfl
    · rw [get?_eq_none_iff.2 (Nat.le_of_not_lt hi),
        List.getElem?_eq_none (by rw [List.length_range]; omega)]
      rfl
  rw [hweights, wf.total_eq]
  rfl

/-- A linked tree shows the list that it reads back as. -/
theorem Linked.mirrors (wf : t.Linked) (hunsolved : t.Unsolved) (horder : InOrder t.stages) :
    t.Mirrors t.stages := by
  have hnodup : t.names.Nodup := t.map_id_stages ▸ horder.nodup
  have hstage : ∀ {i s}, t.stages[i]? = some s → ∃ n, t.get? i = some n ∧ s = t.stageOf n := by
    intro i s hs
    rw [getElem?_stages] at hs
    obtain ⟨n, hn, rfl⟩ := Option.map_eq_some_iff.1 hs
    exact ⟨n, hn, rfl⟩
  have hnames : ∀ i, (t.stages[i]?).map Stage.id = t.names[i]? := fun i => by
    rw [← t.map_id_stages, List.getElem?_map]
  refine
    { size_eq := t.length_stages.symm
      size_le := t.length_stages ▸ horder.length_le
      node := fun i s hs => ?_
      parent := fun i s hs => ?_
      children := fun i s hs => ?_
      indexOf? := fun id i => by rw [hnames, wf.indexOf?_eq_some_iff hnodup]
      totalWeight := wf.totalWeight_eq
      arenaSize := hunsolved.arenaSize }
  · obtain ⟨n, hn, rfl⟩ := hstage hs
    exact ⟨n, hn, rfl, rfl, rfl, hunsolved.offset i n hn⟩
  · obtain ⟨n, hn, rfl⟩ := hstage hs
    have hparent : t.parent? i = n.parent := by rw [parent?, hn, Option.bind_some]
    rw [hparent]
    refine ⟨Option.map_eq_none_iff.1, fun id hid => ?_⟩
    obtain ⟨p, hp, rfl⟩ := Option.map_eq_some_iff.1 hid
    have hlt : p < i := wf.parent_lt (hparent.trans hp)
    exact ⟨p, hp, hlt, by rw [hnames, getElem?_names (Nat.lt_trans hlt (lt_size_of_get? hn))]⟩
  · -- To name the stage of a node is to have that node as parent.
    obtain ⟨n, hn, rfl⟩ := hstage hs
    rw [wf.children_eq, length_stages]
    refine List.filter_congr fun j hj => decide_eq_decide.2 ?_
    obtain ⟨m, hm⟩ := exists_get? (List.mem_range.1 hj)
    have hparent : t.parent? j = m.parent := by rw [parent?, hm, Option.bind_some]
    rw [getElem?_stages, hm, hparent]
    show m.parent = some i ↔ m.parent.map t.stageAt = some n.stage
    rw [Option.map_eq_some_iff]
    constructor
    · intro h
      exact ⟨i, h, stageAt_of_get? hn⟩
    · rintro ⟨p, hp, heq⟩
      have hlt : p < j := wf.parent_lt (hparent.trans hp)
      have hsize := List.mem_range.1 hj
      rw [← stageAt_of_get? hn] at heq
      rw [hp, stageAt_injective hnodup (by omega) (lt_size_of_get? hn) heq]

theorem Mirrors.names_eq {stages : List Stage} (h : t.Mirrors stages) :
    t.names = stages.map (·.id) := by
  refine List.ext_getElem (by rw [length_names, List.length_map, h.size_eq]) fun i hi hi' => ?_
  rw [List.length_map] at hi'
  obtain ⟨n, hn, hid, -⟩ := h.node i stages[i] (List.getElem?_eq_getElem hi')
  have hname := getElem?_names (t.length_names ▸ hi)
  rw [List.getElem?_eq_getElem hi, stageAt_of_get? hn, hid] at hname
  rw [List.getElem_map]
  exact Option.some.inj hname

end BufferTree

/-! ## Extending drafts -/

namespace Draft

variable {d : Draft} {taken rest : List Stage} {s : Stage} {parent : Option Nat}

theorem stageAt_extend {i : Nat} (hi : i < d.tree.size) :
    (d.extend s parent).tree.stageAt i = d.tree.stageAt i := by
  obtain ⟨n, hn⟩ := BufferTree.exists_get? hi
  have hnew := get?_extend d s parent i
  rw [if_neg (Nat.ne_of_lt hi), hn, Option.map_some] at hnew
  rw [BufferTree.stageAt_of_get? hnew, BufferTree.stageAt_of_get? hn]
  split <;> rfl

theorem stageOf_extend (wf : d.tree.Linked) {i : Nat} {n : Node} (hn : d.tree.get? i = some n) :
    (d.extend s parent).tree.stageOf n = d.tree.stageOf n := by
  have hparent : n.parent.map (d.extend s parent).tree.stageAt = n.parent.map d.tree.stageAt := by
    refine Option.map_congr fun p hp => stageAt_extend ?_
    have hlt : p < i := wf.parent_lt (by rw [BufferTree.parent?, hn, Option.bind_some, hp])
    exact Nat.lt_trans hlt (BufferTree.lt_size_of_get? hn)
  unfold BufferTree.stageOf
  rw [hparent]

theorem stageOf_nodeOf (hp : d.FitsParent parent)
    (hparent : s.parent = parent.map d.tree.stageAt) :
    (d.extend s parent).tree.stageOf (nodeOf s parent) = s := by
  have hsame : parent.map (d.extend s parent).tree.stageAt = s.parent := by
    rw [hparent]
    exact Option.map_congr fun p hmem => stageAt_extend (hp.lt p hmem)
  unfold BufferTree.stageOf
  dsimp only [nodeOf]
  rw [hsame]

/-- A draft that is extended by a stage reads back with that stage at the end. -/
theorem stages_extend (wf : d.tree.Linked) (hp : d.FitsParent parent)
    (hparent : s.parent = parent.map d.tree.stageAt) :
    (d.extend s parent).tree.stages = d.tree.stages ++ [s] := by
  refine List.ext_getElem? fun i => ?_
  rw [BufferTree.getElem?_stages, get?_extend, List.getElem?_append, d.tree.length_stages,
    BufferTree.getElem?_stages]
  rcases Nat.lt_trichotomy i d.tree.size with hlt | rfl | hgt
  · -- The parent of an old node may have a new child, which does not show.
    obtain ⟨n, hn⟩ := BufferTree.exists_get? hlt
    rw [if_neg (Nat.ne_of_lt hlt), if_pos hlt, hn, Option.map_some, Option.map_some,
      Option.map_some, ← stageOf_extend wf hn]
    split <;> rfl
  · rw [if_pos rfl, if_neg (Nat.lt_irrefl _), Nat.sub_self, Option.map_some,
      stageOf_nodeOf hp hparent]
    rfl
  · have hnone : d.tree.get? i = none := BufferTree.get?_eq_none_iff.2 (Nat.le_of_lt hgt)
    rw [if_neg (Nat.ne_of_gt hgt), if_neg (Nat.lt_asymm hgt), hnone,
      List.getElem?_eq_none (by rw [List.length_singleton]; omega)]
    rfl

/-! ## The draft after some stages -/

theorem push_of_accept (h : d.accept s = .ok parent) :
    d.push s = (.ok d.size, d.extend s parent) := by
  rw [push, h]

/-- The draft took the listed stages, which are in order, and shows them. -/
structure Took (d : Draft) (taken : List Stage) : Prop extends Sound d where
  inOrder : InOrder taken
  stages_eq : d.tree.stages = taken
  lists : d.Lists taken

theorem took_empty : Took {} [] where
  toSound := sound_empty
  inOrder := .nil
  stages_eq := rfl
  lists := lists_empty

theorem stageAt_of_indexOf? (wf : d.tree.Linked) {p : StageId} {i : Nat}
    (h : d.indexOf? p = some i) : d.tree.stageAt i = p := by
  have hfound : d.tree.names.findIdx? (· = p) = some i := (wf.indexOf?_eq p).symm.trans h
  obtain ⟨hi, hp, -⟩ := List.findIdx?_eq_some_iff_getElem.1 hfound
  have hname := BufferTree.getElem?_names (wf.lt_size_of_indexOf? h)
  rw [List.getElem?_eq_getElem hi, of_decide_eq_true hp] at hname
  exact (Option.some.inj hname).symm

theorem parent_eq_of_parentFor (wf : d.tree.Linked) (h : d.parentFor s = .ok parent) :
    s.parent = parent.map d.tree.stageAt := by
  rcases parentFor_eq_ok_iff.1 h with ⟨hnone, -, rfl⟩ | ⟨p, i, hp, -, hi, rfl⟩
  · exact hnone
  · rw [hp, Option.map_some, stageAt_of_indexOf? wf hi]

namespace Took

theorem totalWeight_eq (h : d.Took taken) : d.totalWeight = (taken.map (·.weight)).sum := by
  rw [← h.stages_eq]
  exact h.linked.totalWeight_eq

theorem indexOf?_eq_none_iff (h : d.Took taken) {p : StageId} :
    d.indexOf? p = none ↔ p ∉ taken.map (·.id) := by
  have hindex : d.indexOf? p = d.tree.names.findIdx? (· = p) := h.linked.indexOf?_eq p
  rw [hindex, h.lists.names, List.findIdx?_eq_none_iff]
  simp only [decide_eq_false_iff_not]
  exact ⟨fun hne hmem => hne p hmem rfl, fun hnot q hq heq => hnot (heq ▸ hq)⟩

/-- A stage with a name of its own finds the parent that it has to name. -/
theorem exists_parentFor (h : d.Took taken) (hfresh : s.id ∉ taken.map (·.id))
    (hroot : s.parent = none → taken = [])
    (hparent : ∀ p, s.parent = some p → p ∈ taken.map (·.id)) :
    ∃ parent, d.parentFor s = .ok parent := by
  cases hp : s.parent with
  | none =>
    have hsize : d.size = 0 := by rw [h.lists.length_eq, hroot hp, List.length_nil]
    exact ⟨none, parentFor_eq_ok_iff.2 (.inl ⟨hp, hsize, rfl⟩)⟩
  | some p =>
    have hmem := hparent p hp
    have hne : p ≠ s.id := fun heq => hfresh (heq ▸ hmem)
    cases hi : d.indexOf? p with
    | none => exact absurd hmem (h.indexOf?_eq_none_iff.1 hi)
    | some i => exact ⟨some i, parentFor_eq_ok_iff.2 (.inr ⟨p, i, hp, hne, hi, rfl⟩)⟩

theorem root_of_parentFor (h : d.Took taken) (hfound : d.parentFor s = .ok parent)
    (hnone : s.parent = none) : taken = [] := by
  rcases parentFor_eq_ok_iff.1 hfound with ⟨-, hsize, -⟩ | ⟨p, i, hp, -⟩
  · exact List.length_eq_zero_iff.1 (h.lists.length_eq ▸ hsize)
  · rw [hnone] at hp
    cases hp

/-- The next stage is accepted exactly if it may come next. -/
theorem exists_accept_iff (h : d.Took taken) :
    (∃ parent, d.accept s = .ok parent) ↔ MayFollow taken s := by
  constructor
  · rintro ⟨parent, haccept⟩
    obtain ⟨hw, hfresh, hparent, htotal⟩ := accept_eq_ok_iff.1 haccept
    refine ⟨hw, h.indexOf?_eq_none_iff.1 hfresh, h.root_of_parentFor hparent, fun p hp => ?_,
      h.totalWeight_eq ▸ htotal⟩
    obtain ⟨i, hi, -⟩ := exists_indexOf? h.linked haccept hp
    by_contra hnot
    rw [h.indexOf?_eq_none_iff.2 hnot] at hi
    cases hi
  · intro hs
    obtain ⟨parent, hparent⟩ := h.exists_parentFor hs.fresh hs.root hs.parent
    refine ⟨parent, accept_eq_ok_iff.2 ⟨hs.weight_pos, ?_, hparent, ?_⟩⟩
    · exact h.indexOf?_eq_none_iff.2 hs.fresh
    · rw [h.totalWeight_eq]
      exact hs.total_le

theorem extend (h : d.Took taken) (haccept : d.accept s = .ok parent) :
    (d.extend s parent).Took (taken ++ [s]) where
  toSound := sound_push (push_of_accept haccept) h.toSound
  inOrder := h.inOrder.append_singleton (h.exists_accept_iff.1 ⟨parent, haccept⟩)
  stages_eq := by
    have hparent := (accept_eq_ok_iff.1 haccept).2.2.1
    rw [stages_extend h.linked (parentFor_fits h.linked hparent)
      (parent_eq_of_parentFor h.linked hparent), h.stages_eq]
  lists := h.lists.extend h.linked haccept

/-- A stage that may not come next ends the run over a list. -/
theorem exists_growFrom_error (h : d.Took taken) (hs : ¬ MayFollow taken s)
    (stages rest : List Stage) :
    ∃ e, growFrom stages d taken.length (s :: rest) = .error e := by
  rw [growFrom]
  cases checkOrder stages taken.length s with
  | error e => exact ⟨e, rfl⟩
  | ok _ =>
    cases haccept : d.accept s with
    | ok parent => exact absurd (h.exists_accept_iff.1 ⟨parent, haccept⟩) hs
    | error e => exact ⟨e, by rw [Draft.push, haccept]⟩

/-- The run over a list comes to the draft that took its front. -/
theorem growFrom_append (h : d.Took taken) (rest more : List Stage) :
    growFrom (taken ++ rest) {} 0 (taken ++ more) =
      growFrom (taken ++ rest) d taken.length more := by
  rw [LifetimeArena.growFrom_append, h.lists.grown, Nat.zero_add]
  rfl

theorem growFrom_eq (h : d.Took taken) : growFrom taken {} 0 taken = .ok d := by
  have hgrown := h.lists.grown []
  rwa [List.append_nil] at hgrown

end Took

theorem pushes_append_singleton (d : Draft) (stages : List Stage) (s : Stage) :
    d.pushes (stages ++ [s]) = ((d.pushes stages).push s).2 := by
  rw [pushes, List.foldl_append]
  rfl

/-- Stages that are in order are taken when they are pushed one after the other. -/
theorem took_pushes (h : InOrder taken) : (pushes {} taken).Took taken := by
  induction taken using List.reverseRecOn with
  | nil => exact took_empty
  | append_singleton taken s ih =>
    have htook := ih h.of_append
    obtain ⟨parent, haccept⟩ := htook.exists_accept_iff.2 h.mayFollow_of_append
    rw [pushes_append_singleton, push_of_accept haccept]
    exact htook.extend haccept

/-- The run over stages that are not in order ends early, also in a longer list. -/
theorem exists_growFrom_error {front : List Stage} (h : ¬ InOrder front) (more : List Stage) :
    ∃ e, growFrom (front ++ more) {} 0 front = .error e := by
  obtain ⟨taken, s, rest, rfl, htaken, hs⟩ := InOrder.exists_not_mayFollow h
  rw [List.append_assoc, (took_pushes htaken).growFrom_append]
  exact (took_pushes htaken).exists_growFrom_error hs ..

end Draft

namespace BufferTree

/-- A list is built into a tree that shows it, or refused because it describes none. -/
theorem ofStages_cases (stages : List Stage) :
    (∃ t, ofStages stages = .ok t ∧ DescribesTree stages ∧ t.Mirrors stages) ∨
      (∃ e, ofStages stages = .error e) ∧ ¬ DescribesTree stages := by
  by_cases horder : InOrder stages
  · have htook := Draft.took_pushes horder
    unfold ofStages
    rw [htook.growFrom_eq]
    generalize Draft.pushes {} stages = d at htook
    dsimp only [Draft.finish]
    have hsize : d.size = stages.length := htook.lists.length_eq
    by_cases hnil : stages = []
    · have hempty : d.isEmpty = true := beq_iff_eq.2 (by rw [hsize, hnil, List.length_nil])
      rw [if_pos hempty]
      exact .inr ⟨⟨_, rfl⟩, fun hdescribes => hdescribes.ne_nil hnil⟩
    · have hempty : ¬ d.isEmpty = true := fun h => by
        rw [Draft.isEmpty, beq_iff_eq, hsize] at h
        exact hnil (List.length_eq_zero_iff.1 h)
      rw [if_neg hempty]
      refine .inl ⟨d.tree, rfl, ⟨htook.inOrder, hnil⟩, ?_⟩
      have hmirrors := htook.linked.mirrors htook.unsolved (htook.stages_eq ▸ htook.inOrder)
      rwa [htook.stages_eq] at hmirrors
  · obtain ⟨e, hgrow⟩ := Draft.exists_growFrom_error horder []
    rw [List.append_nil] at hgrow
    unfold ofStages
    rw [hgrow]
    exact .inr ⟨⟨e, rfl⟩, fun hdescribes => horder hdescribes.toInOrder⟩

theorem exists_ofStages {stages : List Stage} (h : DescribesTree stages) :
    ∃ t, ofStages stages = .ok t := by
  rcases ofStages_cases stages with ⟨t, hbuilt, -⟩ | ⟨-, hnot⟩
  · exact ⟨t, hbuilt⟩
  · exact absurd h hnot

/-- A list that is accepted describes a tree, and the tree that is built shows it. -/
theorem describesTree_and_mirrors {stages : List Stage} {t : BufferTree}
    (h : ofStages stages = .ok t) : DescribesTree stages ∧ t.Mirrors stages := by
  rcases ofStages_cases stages with ⟨t', hbuilt, hshows⟩ | ⟨⟨e, hrefused⟩, -⟩
  · rw [h] at hbuilt
    cases hbuilt
    exact hshows
  · rw [h] at hrefused
    cases hrefused

/-- No two nodes of a built tree have one name. -/
theorem nodup_names_of_ofStages {stages : List Stage} {t : BufferTree}
    (h : ofStages stages = .ok t) : t.names.Nodup := by
  obtain ⟨hdescribes, hmirrors⟩ := describesTree_and_mirrors h
  rw [hmirrors.names_eq]
  exact hdescribes.nodup

/-- The lists that are accepted are those that describe a tree, and the tree that is built shows its
list: one node for every position, linked by positions, with the sizes, payloads and total of the
list and nothing solved. -/
theorem ofStages_ok_iff_describesTree (stages : List Stage) :
    ((∃ t, ofStages stages = .ok t) ↔ DescribesTree stages) ∧
      ∀ t, ofStages stages = .ok t → t.Mirrors stages := by
  rcases ofStages_cases stages with ⟨t, hbuilt, hdescribes, hmirrors⟩ | ⟨⟨e, hrefused⟩, hnot⟩
  · refine ⟨⟨fun _ => hdescribes, fun _ => ⟨t, hbuilt⟩⟩, fun t' ht' => ?_⟩
    rw [hbuilt] at ht'
    cases ht'
    exact hmirrors
  · rw [hrefused]
    exact ⟨⟨fun ⟨t, ht⟩ => (nomatch ht), fun h => absurd h hnot⟩, fun t ht => nomatch ht⟩

/-- Ten stages with every kind of branching. -/
theorem ofStages_ok_iff_describesTree_reference :
    ∃ t, ofStages Sample.reference = .ok t ∧ DescribesTree Sample.reference ∧
      t.Mirrors Sample.reference ∧ t.children 2 = [3, 4, 5] := by
  obtain ⟨t, h, hchildren⟩ : ∃ t, ofStages Sample.reference = .ok t ∧ t.children 2 = [3, 4, 5] :=
    ⟨_, rfl, rfl⟩
  obtain ⟨hiff, hmirrors⟩ := ofStages_ok_iff_describesTree Sample.reference
  exact ⟨t, h, hiff.1 ⟨t, h⟩, hmirrors t h, hchildren⟩

end BufferTree

end LifetimeArena
