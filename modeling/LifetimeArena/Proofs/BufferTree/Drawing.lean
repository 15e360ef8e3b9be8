import LifetimeArena.Proofs.BufferTree.DrawingText
import LifetimeArena.Proofs.BufferTree.Preorder
import LifetimeArena.Proofs.Placement.Solving

/-!
# What a drawing shows

The text of a drawing reads back as its lines, and the lines tell everything about the tree but the
payloads: how many nodes it has, what each of them is like, how they are linked, and where they are
once the tree is solved.

- `BufferTree.DrawnAs`: what the lines of a drawing are like, whatever they were made by.
- `WellFormed.drawnAs`: the lines of a tree's drawing are like that.
- `DrawnAs.resembles`: two trees that are drawn by the same lines differ in payloads only.
- `BufferTree.drawing_loses_nothing`: the drawings of all states that a built tree gets into.
-/

namespace LifetimeArena

namespace Drawing.Line

/-- The node that a record is about. -/
def recorded? : Line → Option Nat
  | .record index .. => some index
  | _ => none

/-- The child that an edge leads to. -/
def child? : Line → Option Nat
  | .edge _ child => some child
  | _ => none

/-- The arena size on a label. -/
def labelled? : Line → Option Nat
  | .arenaLabel bytes => some bytes
  | _ => none

/-- Whether a line is an edge. -/
def isEdge : Line → Bool
  | .edge .. => true
  | _ => false

end Drawing.Line

namespace BufferTree

open Drawing (Line)

/-- Directly behind every record there is an edge to each child of its node, in the order of the
children, and no other edge. -/
def EdgesFollow (t : BufferTree) (lines : List Line) : Prop :=
  ∀ front i stage weight offset back, lines = front ++ .record i stage weight offset :: back →
    ∃ rest, back = (t.children i).map (.edge i) ++ rest ∧ ∀ l ∈ rest.head?, l.isEdge = false

/-- What the lines that draw a tree are like. -/
structure DrawnAs (t : BufferTree) (lines : List Line) : Prop where
  /-- The records come in pre-order. -/
  records : lines.filterMap Line.recorded? = t.preorder
  /-- There are as many as there are nodes. -/
  length_records : (lines.filterMap Line.recorded?).length = t.size
  /-- A record shows its node as it is. -/
  node : ∀ i stage weight offset, .record i stage weight offset ∈ lines →
    ∃ n, t.get? i = some n ∧ n.stage = stage ∧ n.weight = weight ∧ n.offset = offset
  edges : t.EdgesFollow lines
  /-- There is one edge less than there are nodes. -/
  length_edges : (lines.filterMap Line.child?).length + 1 = t.size
  /-- The arena size is there exactly if there is one. -/
  label : lines.filterMap Line.labelled? = t.arenaSize.toList

/-- The two trees have the same arena size and the same nodes, except for payloads. -/
structure Resembles (t t' : BufferTree) : Prop where
  size : t.size = t'.size
  arenaSize : t.arenaSize = t'.arenaSize
  node : ∀ i n n', t.get? i = some n → t'.get? i = some n' →
    n.stage = n'.stage ∧ n.weight = n'.weight ∧ n.parent = n'.parent ∧
      n.children = n'.children ∧ n.offset = n'.offset

variable {t t' : BufferTree}

/-! ## Edges behind records -/

theorem nodeLines_of_get? {i : Nat} {n : Node} (h : t.get? i = some n) :
    t.nodeLines i = .record i n.stage n.weight n.offset :: (t.children i).map (.edge i) := by
  rw [nodeLines, h, children_of_get? h]

namespace EdgesFollow

variable {lines : List Line}

/-- A line that is no record needs no edges behind it. -/
theorem cons {l : Line} (hl : l.recorded? = none) (h : t.EdgesFollow lines) :
    t.EdgesFollow (l :: lines) := by
  intro front i stage weight offset back hsplit
  cases front with
  | nil =>
    cases hsplit
    cases hl
  | cons _ front => exact h front i stage weight offset back (List.cons.inj hsplit).2

theorem append {front : List Line} (hfront : ∀ l ∈ front, l.recorded? = none)
    (h : t.EdgesFollow lines) : t.EdgesFollow (front ++ lines) := by
  induction front with
  | nil => exact h
  | cons l front ih =>
    rw [List.forall_mem_cons] at hfront
    exact (ih hfront.2).cons hfront.1

/-- The record of a node has the edges of the node behind it; they end where another record or the
end of the graph comes. -/
theorem nodeLines_append {i : Nat} {n : Node} (hn : t.get? i = some n)
    (hhead : ∀ l ∈ lines.head?, l.isEdge = false) (h : t.EdgesFollow lines) :
    t.EdgesFollow (t.nodeLines i ++ lines) := by
  have hedges : t.EdgesFollow ((t.children i).map (.edge i) ++ lines) := by
    refine h.append fun l hl => ?_
    obtain ⟨c, -, rfl⟩ := List.mem_map.1 hl
    rfl
  rw [nodeLines_of_get? hn]
  intro front j stage weight offset back hsplit
  cases front with
  | nil =>
    cases hsplit
    exact ⟨lines, rfl, hhead⟩
  | cons _ front => exact hedges front j stage weight offset back (List.cons.inj hsplit).2

end EdgesFollow

/-- The lines of nodes begin with a record. -/
theorem head?_flatMap_nodeLines {nodes : List Nat} (h : ∀ i ∈ nodes, i < t.size) :
    ∀ l ∈ (nodes.flatMap t.nodeLines ++ [Line.closing]).head?, l.isEdge = false := by
  cases nodes with
  | nil =>
    rintro l ⟨⟩
    rfl
  | cons i nodes =>
    obtain ⟨n, hn⟩ := exists_get? (h i (List.mem_cons_self ..))
    rw [List.flatMap_cons, nodeLines_of_get? hn]
    rintro l ⟨⟩
    rfl

theorem edgesFollow_flatMap_nodeLines {nodes : List Nat} (h : ∀ i ∈ nodes, i < t.size) :
    t.EdgesFollow (nodes.flatMap t.nodeLines ++ [Line.closing]) := by
  induction nodes with
  | nil => exact .cons rfl fun front _ _ _ _ _ hsplit => by cases front <;> cases hsplit
  | cons i nodes ih =>
    rw [List.forall_mem_cons] at h
    obtain ⟨n, hn⟩ := exists_get? h.1
    rw [List.flatMap_cons, List.append_assoc]
    exact (ih h.2).nodeLines_append hn (head?_flatMap_nodeLines h.2)

/-! ## The lines of a tree -/

section

variable {i : Nat} {n : Node} (hn : t.get? i = some n)
include hn

theorem filterMap_recorded?_nodeLines : (t.nodeLines i).filterMap Line.recorded? = [i] := by
  have hedges : (t.children i).filterMap (Line.recorded? ∘ .edge i) = [] :=
    List.filterMap_eq_nil_iff.2 fun _ _ => rfl
  rw [nodeLines_of_get? hn, List.filterMap_cons, List.filterMap_map, hedges]
  rfl

theorem filterMap_child?_nodeLines : (t.nodeLines i).filterMap Line.child? = t.children i := by
  rw [nodeLines_of_get? hn, List.filterMap_cons_none rfl, List.filterMap_map]
  exact List.filterMap_some

theorem filterMap_labelled?_nodeLines : (t.nodeLines i).filterMap Line.labelled? = [] := by
  rw [nodeLines_of_get? hn, List.filterMap_cons_none rfl, List.filterMap_map]
  exact List.filterMap_eq_nil_iff.2 fun _ _ => rfl

end

/-- What the lines at the beginning and at the end have no part in is read off the label and the
lines of the nodes. -/
theorem filterMap_drawingLines {f : Line → Option Nat} {g : Nat → List Nat}
    (hopening : f .opening = none) (hshape : f .recordShape = none) (hclosing : f .closing = none)
    (hnode : ∀ i ∈ t.preorder, (t.nodeLines i).filterMap f = g i) :
    t.drawingLines.filterMap f =
      (t.arenaSize.bind fun bytes => f (.arenaLabel bytes)).toList ++ t.preorder.flatMap g := by
  have hnodes : (t.preorder.flatMap t.nodeLines).filterMap f = t.preorder.flatMap g := by
    rw [List.filterMap_flatMap]
    exact List.flatMap_congr hnode
  unfold drawingLines
  rw [List.filterMap_append, List.filterMap_append, List.filterMap_append, hnodes]
  cases harena : t.arenaSize with
  | none => simp [hopening, hshape, hclosing]
  | some bytes =>
    cases hlabel : f (.arenaLabel bytes) <;> simp [hopening, hshape, hclosing, hlabel]

theorem mem_nodeLines_of_record {i : Nat} {stage : StageId} {weight : Nat} {offset : Option Nat}
    (h : .record i stage weight offset ∈ t.drawingLines) :
    ∃ n, t.get? i = some n ∧ n.stage = stage ∧ n.weight = weight ∧ n.offset = offset := by
  have hlabel : Line.record i stage weight offset ∉ (t.arenaSize.map Line.arenaLabel).toList := by
    cases t.arenaSize <;> simp
  obtain ⟨j, -, hj⟩ : ∃ j ∈ t.preorder, .record i stage weight offset ∈ t.nodeLines j := by
    simpa [drawingLines, hlabel, List.mem_flatMap] using h
  cases hn : t.get? j with
  | none =>
    rw [nodeLines, hn] at hj
    cases hj
  | some n =>
    rw [nodeLines_of_get? hn, List.mem_cons] at hj
    rcases hj with hrecord | hedge
    · cases hrecord
      exact ⟨n, hn, rfl, rfl, rfl⟩
    · obtain ⟨c, -, hc⟩ := List.mem_map.1 hedge
      cases hc

namespace WellFormed

variable (wf : t.WellFormed)
include wf

/-- Every node but the root is the child of one node. -/
theorem flatMap_children_perm :
    (t.preorder.flatMap t.children).Perm (List.range' 1 (t.size - 1)) := by
  have hnodup : (t.preorder.flatMap t.children).Nodup := by
    refine List.nodup_flatMap.2 ⟨fun i _ => wf.nodup_children i, ?_⟩
    refine wf.nodup_preorder.imp fun {a b} hne c hca hcb => hne ?_
    have hparent := wf.mem_children.1 hca
    rw [wf.mem_children.1 hcb] at hparent
    exact (Option.some.inj hparent).symm
  rw [List.perm_ext_iff_of_nodup hnodup List.nodup_range']
  intro c
  rw [List.mem_flatMap, List.mem_range'_1]
  constructor
  · rintro ⟨p, -, hc⟩
    have hparent := wf.mem_children.1 hc
    have hlt := wf.parent_lt hparent
    have hsize := lt_size_of_parent? hparent
    omega
  · rintro ⟨hpos, hlt⟩
    obtain ⟨p, hp, hpc⟩ := wf.parent_of_pos c hpos (by omega)
    exact ⟨p, wf.mem_preorder.2 (by omega), wf.mem_children.2 hp⟩

/-- A tree is drawn by the lines of its drawing. -/
theorem drawnAs : t.DrawnAs t.drawingLines := by
  have hnode : ∀ i ∈ t.preorder, ∃ n, t.get? i = some n := fun i hi =>
    exists_get? (wf.mem_preorder.1 hi)
  have hrecords : t.drawingLines.filterMap Line.recorded? = t.preorder := by
    rw [filterMap_drawingLines rfl rfl rfl fun i hi =>
      (hnode i hi).elim fun _ => filterMap_recorded?_nodeLines]
    cases t.arenaSize <;> exact List.flatMap_singleton' _
  have hchildren : t.drawingLines.filterMap Line.child? = t.preorder.flatMap t.children := by
    rw [filterMap_drawingLines rfl rfl rfl fun i hi =>
      (hnode i hi).elim fun _ => filterMap_child?_nodeLines]
    cases t.arenaSize <;> rfl
  have hlabel : t.drawingLines.filterMap Line.labelled? = t.arenaSize.toList := by
    rw [filterMap_drawingLines rfl rfl rfl fun i hi =>
      (hnode i hi).elim fun _ => filterMap_labelled?_nodeLines]
    cases t.arenaSize <;> simp [Line.labelled?]
  have hedges : t.EdgesFollow t.drawingLines := by
    have hnodes := edgesFollow_flatMap_nodeLines fun i hi => wf.mem_preorder.1 hi
    unfold drawingLines
    rw [List.append_assoc, List.append_assoc]
    refine .cons rfl (.cons rfl ?_)
    cases t.arenaSize with
    | none => exact hnodes
    | some bytes => exact hnodes.cons rfl
  exact
    { records := hrecords
      length_records := by rw [hrecords, wf.preorder_perm.length_eq, List.length_range]
      node := fun _ _ _ _ => mem_nodeLines_of_record
      edges := hedges
      length_edges := by
        have hsize := wf.size_pos
        rw [hchildren, wf.flatMap_children_perm.length_eq, List.length_range']
        omega
      label := hlabel }

end WellFormed

/-! ## The tree of the lines -/

/-- Where edges end, the children they lead to are known. -/
theorem map_edge_append_inj {i : Nat} {cs cs' : List Nat} {rest rest' : List Line}
    (hrest : ∀ l ∈ rest.head?, l.isEdge = false) (hrest' : ∀ l ∈ rest'.head?, l.isEdge = false)
    (h : cs.map (.edge i) ++ rest = cs'.map (.edge i) ++ rest') : cs = cs' := by
  induction cs generalizing cs' with
  | nil =>
    cases cs' with
    | nil => rfl
    | cons c' cs' =>
      subst h
      cases hrest _ rfl
  | cons c cs ih =>
    cases cs' with
    | nil =>
      subst h
      cases hrest' _ rfl
    | cons c' cs' =>
      obtain ⟨hhead, htail⟩ := List.cons.inj h
      cases hhead
      rw [ih htail]

namespace DrawnAs

variable {lines : List Line}

theorem exists_record (wf : t.WellFormed) (h : t.DrawnAs lines) {i : Nat} (hi : i < t.size) :
    ∃ stage weight offset, .record i stage weight offset ∈ lines := by
  rw [← wf.mem_preorder, ← h.records, List.mem_filterMap] at hi
  obtain ⟨l, hl, hrecorded⟩ := hi
  cases l with
  | record index stage weight offset =>
    cases hrecorded
    exact ⟨stage, weight, offset, hl⟩
  | _ => cases hrecorded

/-- The record of a node, with the edges behind it, is the record of the same node in any other tree
that is drawn by the same lines. -/
theorem node_eq (wf : t.WellFormed) (h : t.DrawnAs lines) (h' : t'.DrawnAs lines) {i : Nat}
    {n n' : Node} (hn : t.get? i = some n) (hn' : t'.get? i = some n') :
    n.stage = n'.stage ∧ n.weight = n'.weight ∧ n.offset = n'.offset ∧
      n.children = n'.children := by
  obtain ⟨stage, weight, offset, hrecord⟩ := h.exists_record wf (lt_size_of_get? hn)
  obtain ⟨m, hm, hstage, hweight, hoffset⟩ := h.node i _ _ _ hrecord
  obtain ⟨m', hm', hstage', hweight', hoffset'⟩ := h'.node i _ _ _ hrecord
  rw [hn] at hm
  rw [hn'] at hm'
  cases hm
  cases hm'
  obtain ⟨front, back, hsplit⟩ := List.append_of_mem hrecord
  obtain ⟨rest, hback, hrest⟩ := h.edges front i _ _ _ back hsplit
  obtain ⟨rest', hback', hrest'⟩ := h'.edges front i _ _ _ back hsplit
  have hchildren := map_edge_append_inj hrest hrest' (hback.symm.trans hback')
  rw [children_of_get? hn, children_of_get? hn'] at hchildren
  exact ⟨hstage.trans hstage'.symm, hweight.trans hweight'.symm, hoffset.trans hoffset'.symm,
    hchildren⟩

/-- What is drawn by the same lines is the same tree, up to payloads. Parents are not drawn, but
they are known from the children. -/
theorem resembles (wf : t.WellFormed) (wf' : t'.WellFormed) (h : t.DrawnAs lines)
    (h' : t'.DrawnAs lines) : t.Resembles t' := by
  have hsize : t.size = t'.size := h.length_records.symm.trans h'.length_records
  have hchildren : ∀ i, t.children i = t'.children i := by
    intro i
    by_cases hi : i < t.size
    · obtain ⟨n, hn⟩ := exists_get? hi
      obtain ⟨n', hn'⟩ := exists_get? (hsize ▸ hi)
      rw [children_of_get? hn, children_of_get? hn', (h.node_eq wf h' hn hn').2.2.2]
    · rw [children, children, get?_eq_none_iff.2 (Nat.le_of_not_lt hi),
        get?_eq_none_iff.2 (hsize ▸ Nat.le_of_not_lt hi)]
  have harena : t.arenaSize = t'.arenaSize := by
    rw [← Option.head?_toList (o := t.arenaSize), ← h.label, h'.label, Option.head?_toList]
  refine ⟨hsize, harena, fun i n n' hn hn' => ?_⟩
  obtain ⟨hstage, hweight, hoffset, hlist⟩ := h.node_eq wf h' hn hn'
  have hparent : t.parent? i = t'.parent? i := by
    refine Option.ext fun p => ?_
    rw [← wf.mem_children, ← wf'.mem_children, hchildren]
  rw [parent?, parent?, hn, hn'] at hparent
  exact ⟨hstage, hweight, hparent, hlist, hoffset⟩

end DrawnAs

/-- In whatever state solvers have left two built trees, if their drawings are the same text then so
are the trees, up to payloads. The text is that of one list of lines and no other, into which it
falls at its line breaks: a record for every node in pre-order, each directly followed by the edges
to the children of the node in their order, one edge less than records in all, and a label with the
arena size exactly if the tree is solved. -/
theorem drawing_loses_nothing (h : Solver.Reachable t) :
    (∀ t', Solver.Reachable t' → t.drawing = t'.drawing → t.Resembles t') ∧
    ∃ lines, (∀ lines', Drawing.render lines' = t.drawing ↔ lines' = lines) ∧
      t.drawing.toList.splitOn '\n' = lines.map (·.text.toList) ++ [[]] ∧ t.DrawnAs lines := by
  have hdrawn := h.wellFormed.drawnAs
  refine ⟨fun t' h' hsame => ?_, t.drawingLines, fun lines' => ⟨fun hrender => ?_, ?_⟩,
    Drawing.splitOn_render t.drawingLines, hdrawn⟩
  · have hlines : t.drawingLines = t'.drawingLines := by
      rw [← Drawing.read_render t.drawingLines, ← Drawing.read_render t'.drawingLines]
      exact congrArg Drawing.read hsame
    exact hdrawn.resembles h.wellFormed h'.wellFormed (hlines ▸ h'.wellFormed.drawnAs)
  · rw [← Drawing.read_render lines', hrender]
    exact Drawing.read_render t.drawingLines
  · rintro rfl
    rfl

/-- A root with two children, solved and not. -/
theorem drawing_loses_nothing_star :
    ∃ t t', Solver.Reachable t ∧ Solver.Reachable t' ∧ t.drawing ≠ t'.drawing ∧
      ∃ lines, Drawing.render lines = t'.drawing ∧
        lines.filterMap Line.recorded? = [0, 1, 2] ∧ lines.filterMap Line.labelled? = [8] := by
  obtain ⟨t, t', h, h', hnone, hsome, hpreorder⟩ : ∃ t t', Solver.Reachable t ∧
      Solver.Reachable t' ∧ t.arenaSize = none ∧ t'.arenaSize = some 8 ∧
        t'.preorder = [0, 1, 2] :=
    ⟨_, _, ⟨Sample.star 2 4, _, [], rfl, rfl⟩, ⟨Sample.star 2 4, _, [Solver.standard], rfl, rfl⟩,
      rfl, rfl, rfl⟩
  refine ⟨t, t', h, h', fun hsame => ?_, ?_⟩
  · have harena := ((drawing_loses_nothing h).1 t' h' hsame).arenaSize
    rw [hnone, hsome] at harena
    cases harena
  · obtain ⟨lines, hrender, -, hdrawn⟩ := (drawing_loses_nothing h').2
    refine ⟨lines, (hrender lines).2 rfl, ?_, ?_⟩
    · rw [hdrawn.records, hpreorder]
    · rw [hdrawn.label, hsome]
      rfl

end BufferTree

end LifetimeArena
