import LifetimeArena.BufferTree.OfStages
import Mathlib.Algebra.BigOperators.Group.Finset.Basic
import Mathlib.Algebra.Order.BigOperators.Group.Finset

/-!
# Well-formed trees

Whatever `BufferTree.ofStages` builds has consistent links: every node but the first has a parent
with a smaller number, and the children of a node are exactly the nodes that name it. The map knows
every node by its name. Buffers are not empty and together fit a word. The same holds of a draft
after every accepted stage, which is where it is proved; solving changes none of it, since it writes
offsets and the arena size only.

- `BufferTree.Linked`: the consistency of links, names and sizes, for drafts and trees.
- `BufferTree.Linked.indexOf?_eq`: the map and the nodes agree on every name.
- `BufferTree.WellFormed`: a linked tree with a root.
- `BufferTree.Unsolved`: no offset and no arena size is set.
- `BufferTree.ofStages_wellFormed`, `BufferTree.ofStages_unsolved`: built trees are both.
-/

namespace LifetimeArena

open Finset

namespace BufferTree

/-- The stages that write the nodes, in listing order. -/
def names (t : BufferTree) : List StageId := t.nodes.toList.map (·.stage)

/-- The links of the nodes agree with each other, the map with the names of the nodes, and the sizes
with their sum. -/
structure Linked (t : BufferTree) : Prop where
  /-- The first node has no parent. -/
  parent_zero : t.parent? 0 = none
  /-- Every other node has one with a smaller number. -/
  parent_of_pos : ∀ i, 0 < i → i < t.size → ∃ p, t.parent? i = some p ∧ p < i
  /-- The children of a node are the nodes that name it as their parent, in order. -/
  children_eq : ∀ i, t.children i = (List.range t.size).filter (t.parent? · = some i)
  /-- The map has the name of every node with the number of the node, in order, and no others. -/
  index_eq : t.index = t.names.zipIdx
  /-- Every buffer has a byte. -/
  weight_pos : ∀ i, i < t.size → 0 < t.weight i
  /-- The total is the sum of the sizes. -/
  total_eq : t.totalWeight = ∑ i ∈ range t.size, t.weight i
  /-- The total is a word. -/
  total_le : t.totalWeight ≤ wordMax

/-- The tree is linked and has a root. -/
structure WellFormed (t : BufferTree) : Prop extends Linked t where
  size_pos : 0 < t.size

/-- Nothing has been written into the tree yet. -/
structure Unsolved (t : BufferTree) : Prop where
  arenaSize : t.arenaSize = none
  offset : ∀ i n, t.get? i = some n → n.offset = none

/-! ## Looking up nodes -/

theorem get?_eq_none_iff {t : BufferTree} {i : Nat} : t.get? i = none ↔ t.size ≤ i := by
  rw [get?, Array.getElem?_eq_none_iff, size]

theorem exists_get? {t : BufferTree} {i : Nat} (h : i < t.size) : ∃ n, t.get? i = some n :=
  ⟨t.nodes[i], Array.getElem?_eq_getElem h⟩

theorem lt_size_of_get? {t : BufferTree} {i : Nat} {n : Node} (h : t.get? i = some n) :
    i < t.size :=
  (Array.getElem?_eq_some_iff.1 h).1

theorem weight_of_get? {t : BufferTree} {i : Nat} {n : Node} (h : t.get? i = some n) :
    t.weight i = n.weight := by
  rw [weight, h, Option.map_some, Option.getD_some]

theorem stageAt_of_get? {t : BufferTree} {i : Nat} {n : Node} (h : t.get? i = some n) :
    t.stageAt i = n.stage := by
  rw [stageAt, h, Option.map_some, Option.getD_some]

theorem children_of_get? {t : BufferTree} {i : Nat} {n : Node} (h : t.get? i = some n) :
    t.children i = n.children := by
  rw [children, h, Option.map_some, Option.getD_some]

theorem lt_size_of_parent? {t : BufferTree} {i p : Nat} (h : t.parent? i = some p) :
    i < t.size := by
  obtain ⟨n, hn, -⟩ := Option.bind_eq_some_iff.1 h
  exact lt_size_of_get? hn

namespace Linked

variable {t : BufferTree} (wf : t.Linked)
include wf

theorem parent_lt {i p : Nat} (h : t.parent? i = some p) : p < i := by
  rcases Nat.eq_zero_or_pos i with rfl | hi
  · rw [wf.parent_zero] at h
    cases h
  · obtain ⟨q, hq, hlt⟩ := wf.parent_of_pos i hi (lt_size_of_parent? h)
    rw [h] at hq
    cases hq
    exact hlt

theorem mem_children {i c : Nat} : c ∈ t.children i ↔ t.parent? c = some i := by
  rw [wf.children_eq, List.mem_filter, decide_eq_true_iff, List.mem_range]
  exact ⟨fun h => h.2, fun h => ⟨lt_size_of_parent? h, h⟩⟩

theorem nodup_children (i : Nat) : (t.children i).Nodup := by
  rw [wf.children_eq]
  exact List.nodup_range.filter _

/-- To look up a name is to find the first node of that name. -/
theorem indexOf?_eq (stage : StageId) : t.indexOf? stage = t.names.findIdx? (· = stage) := by
  rw [indexOf?, wf.index_eq, findByStage?_zipIdx]

theorem lt_size_of_indexOf? {stage : StageId} {i : Nat} (h : t.indexOf? stage = some i) :
    i < t.size := by
  rw [wf.indexOf?_eq] at h
  obtain ⟨hi, -⟩ := List.findIdx?_eq_some_iff_getElem.1 h
  rwa [names, List.length_map, Array.length_toList] at hi

end Linked

end BufferTree

/-! ## Drafts -/

namespace Draft

/-- The unsolved tree of the stages accepted so far. -/
def tree (d : Draft) : BufferTree where
  nodes := d.nodes
  index := d.index
  totalWeight := d.totalWeight
  arenaSize := none

/-- The node that a stage adds. -/
def nodeOf (s : Stage) (parent : Option Nat) : Node where
  stage := s.id
  weight := s.weight
  parent := parent
  children := []
  payload := s.payload
  offset := none

theorem size_link (nodes : Array Node) (parent : Option Nat) (child : Nat) :
    (link nodes parent child).size = nodes.size := by
  cases parent with
  | none => rfl
  | some p => exact Array.size_modify

theorem getElem?_link (nodes : Array Node) (parent : Option Nat) (child i : Nat) :
    (link nodes parent child)[i]? =
      nodes[i]?.map fun n =>
        if parent = some i then { n with children := n.children ++ [child] } else n := by
  cases parent with
  | none => simp [link]
  | some p =>
    by_cases h : p = i
    · simp [link, Array.getElem?_modify, h]
    · simp [link, Array.getElem?_modify, h]

theorem size_extend (d : Draft) (s : Stage) (parent : Option Nat) :
    (d.extend s parent).tree.size = d.tree.size + 1 := by
  show ((link d.nodes parent d.size).push _).size = d.nodes.size + 1
  rw [Array.size_push, size_link]

/-- Extending adds the node at the end and a link at its parent. -/
theorem get?_extend (d : Draft) (s : Stage) (parent : Option Nat) (i : Nat) :
    (d.extend s parent).tree.get? i =
      if i = d.tree.size then some (nodeOf s parent)
      else (d.tree.get? i).map fun n =>
        if parent = some i then { n with children := n.children ++ [d.tree.size] } else n := by
  show ((link d.nodes parent d.size).push (nodeOf s parent))[i]? = _
  rw [Array.getElem?_push, size_link]
  by_cases h : i = d.tree.size
  · rw [if_pos h, if_pos (show i = d.nodes.size from h)]
  · rw [if_neg h, if_neg (show ¬ i = d.nodes.size from h), getElem?_link]
    rfl

theorem names_extend (d : Draft) (s : Stage) (parent : Option Nat) :
    (d.extend s parent).tree.names = d.tree.names ++ [s.id] := by
  have hlink : (link d.nodes parent d.size).toList.map (·.stage) = d.tree.names := by
    refine List.ext_getElem? fun i => ?_
    rw [BufferTree.names, List.getElem?_map, List.getElem?_map, Array.getElem?_toList,
      Array.getElem?_toList, getElem?_link, Option.map_map]
    congr 1
    funext n
    show (if parent = some i then _ else n).stage = n.stage
    split <;> rfl
  show ((link d.nodes parent d.size).push _).toList.map _ = _
  rw [Array.toList_push, List.map_append, hlink]
  rfl

section

variable {d : Draft} {s : Stage} {parent : Option Nat}

theorem parent?_extend (i : Nat) :
    (d.extend s parent).tree.parent? i = if i = d.tree.size then parent else d.tree.parent? i := by
  unfold BufferTree.parent?
  rw [get?_extend]
  split
  · rfl
  · cases d.tree.get? i with
    | none => rfl
    | some n =>
      rw [Option.map_some, Option.bind_some, Option.bind_some]
      split <;> rfl

theorem weight_extend (i : Nat) :
    (d.extend s parent).tree.weight i = if i = d.tree.size then s.weight else d.tree.weight i := by
  unfold BufferTree.weight
  rw [get?_extend]
  split
  · rfl
  · cases d.tree.get? i with
    | none => rfl
    | some n =>
      rw [Option.map_some, Option.map_some, Option.map_some]
      split <;> rfl

theorem children_extend (hp : ∀ p, parent = some p → p < d.tree.size) (i : Nat) :
    (d.extend s parent).tree.children i =
      d.tree.children i ++ if parent = some i then [d.tree.size] else [] := by
  unfold BufferTree.children
  rw [get?_extend]
  by_cases hi : i = d.tree.size
  · -- The new node has no children yet, and no node links to itself.
    have hne : parent ≠ some i := fun h => by
      have := hp i h
      omega
    have hnone : d.tree.get? i = none := BufferTree.get?_eq_none_iff.2 (by omega)
    rw [if_pos hi, if_neg hne, hnone]
    rfl
  · rw [if_neg hi]
    cases hn : d.tree.get? i with
    | none =>
      have hne : parent ≠ some i := fun h => by
        have hlt := hp i h
        have hge := BufferTree.get?_eq_none_iff.1 hn
        omega
      rw [if_neg hne]
      rfl
    | some n =>
      by_cases h : parent = some i
      · simp [h]
      · simp [h]

/-- A parent for the next node of a draft: none for the first, an earlier node for any other. -/
def FitsParent (d : Draft) (parent : Option Nat) : Prop :=
  match parent with
  | none => d.tree.size = 0
  | some p => p < d.tree.size

theorem FitsParent.lt (h : d.FitsParent parent) : ∀ p, parent = some p → p < d.tree.size := by
  rintro p rfl
  exact h

/-- Extending a linked draft by a stage with a new name, below an earlier node, keeps it linked. -/
theorem linked_extend (wf : d.tree.Linked) (hp : d.FitsParent parent) (hw : 0 < s.weight)
    (hfresh : d.indexOf? s.id = none) (htotal : d.totalWeight + s.weight ≤ wordMax) :
    (d.extend s parent).tree.Linked where
  parent_zero := by
    rw [parent?_extend]
    split
    · -- The new node is the first one, so there was none to be its parent.
      next h0 =>
      cases parent with
      | none => rfl
      | some p =>
        have hlt : p < d.tree.size := hp
        omega
    · exact wf.parent_zero
  parent_of_pos := by
    intro i hpos hi
    rw [size_extend] at hi
    rw [parent?_extend]
    split
    · next hsize =>
      cases parent with
      | none =>
        have hzero : d.tree.size = 0 := hp
        omega
      | some p =>
        have hlt : p < d.tree.size := hp
        exact ⟨p, rfl, by omega⟩
    · exact wf.parent_of_pos i hpos (by omega)
  children_eq := by
    intro i
    rw [children_extend hp.lt, size_extend, List.range_succ, List.filter_append, wf.children_eq]
    congr 1
    · -- The old nodes keep their parents.
      refine List.filter_congr fun j hj => ?_
      have hne : j ≠ d.tree.size := Nat.ne_of_lt (List.mem_range.1 hj)
      rw [parent?_extend, if_neg hne]
    · -- The new node is entered exactly where it names its parent.
      rw [List.filter_singleton, parent?_extend, if_pos rfl]
      by_cases h : parent = some i <;> simp [h]
  index_eq := by
    -- The new name is not in the map yet, so it is entered at the end.
    have hnew : s.id ∉ d.tree.index.map (·.1) := findByStage?_eq_none_iff.1 hfresh
    have hsize : d.tree.names.length = d.size := by
      rw [BufferTree.names, List.length_map, Array.length_toList]
      rfl
    show insertByStage (s.id, d.size) d.tree.index = (d.extend s parent).tree.names.zipIdx
    rw [insertByStage_of_notMem hnew, names_extend, List.zipIdx_append, ← wf.index_eq, hsize,
      Nat.zero_add]
    rfl
  weight_pos := by
    intro i hi
    rw [size_extend] at hi
    rw [weight_extend]
    split
    · exact hw
    · exact wf.weight_pos i (by omega)
  total_eq := by
    have hsum : ∑ i ∈ range d.tree.size, (d.extend s parent).tree.weight i =
        ∑ i ∈ range d.tree.size, d.tree.weight i := by
      refine Finset.sum_congr rfl fun i hi => ?_
      rw [weight_extend, if_neg (Nat.ne_of_lt (Finset.mem_range.1 hi))]
    rw [size_extend, Finset.sum_range_succ, hsum, ← wf.total_eq, weight_extend, if_pos rfl]
    rfl
  total_le := htotal

end

/-! ## Accepted stages -/

/-- Only the first stage has no parent; any other names a stage that the draft knows. -/
theorem parentFor_eq_ok_iff {d : Draft} {s : Stage} {parent : Option Nat} :
    d.parentFor s = .ok parent ↔
      (s.parent = none ∧ d.size = 0 ∧ parent = none) ∨
        ∃ p i, s.parent = some p ∧ p ≠ s.id ∧ d.indexOf? p = some i ∧ parent = some i := by
  unfold parentFor
  cases s.parent with
  | none =>
    cases hfirst : d.nodes[0]? with
    | none =>
      have hsize : d.size = 0 := Nat.le_zero.1 (Array.getElem?_eq_none_iff.1 hfirst)
      simp [hsize, eq_comm]
    | some first =>
      have hsize : d.size ≠ 0 := Nat.ne_of_gt (Array.getElem?_eq_some_iff.1 hfirst).1
      simp [hsize]
  | some p =>
    by_cases hself : p = s.id
    · simp [hself]
    · cases hindex : d.indexOf? p with
      | none => simp [hself, hindex]
      | some i => simp [hself, hindex, eq_comm]

/-- What it takes for a stage to be accepted. -/
theorem accept_eq_ok_iff {d : Draft} {s : Stage} {parent : Option Nat} :
    d.accept s = .ok parent ↔
      0 < s.weight ∧ d.indexOf? s.id = none ∧ d.parentFor s = .ok parent ∧
        d.totalWeight + s.weight ≤ wordMax := by
  unfold accept
  by_cases hw : s.weight = 0
  · simp [hw]
  · cases hindex : d.indexOf? s.id with
    | some i => simp [hw]
    | none =>
      cases hparent : d.parentFor s with
      | error e => simp [hw]
      | ok q =>
        by_cases htotal : wordMax < d.totalWeight + s.weight
        · simp [hw, htotal]
        · simp [hw, htotal, Nat.pos_of_ne_zero hw, Nat.le_of_not_lt htotal]

/-- What makes a stage be refused, in the order in which it is looked for. -/
theorem accept_eq_error_cases {d : Draft} {s : Stage} {e : Malformed} (h : d.accept s = .error e) :
    (s.weight = 0 ∧ e = .weightless s.id) ∨
      0 < s.weight ∧
        ((d.indexOf? s.id ≠ none ∧ e = .duplicate s.id) ∨
          d.indexOf? s.id = none ∧
            (d.parentFor s = .error e ∨
              ∃ parent, d.parentFor s = .ok parent ∧ wordMax < d.totalWeight + s.weight ∧
                e = .tooHeavy)) := by
  unfold accept at h
  by_cases hweight : s.weight = 0
  · rw [if_pos hweight] at h
    cases h
    exact .inl ⟨hweight, rfl⟩
  rw [if_neg hweight] at h
  refine .inr ⟨Nat.pos_of_ne_zero hweight, ?_⟩
  cases hindex : d.indexOf? s.id with
  | some i =>
    rw [hindex] at h
    cases h
    exact .inl ⟨nofun, rfl⟩
  | none =>
    rw [hindex, if_neg nofun] at h
    refine .inr ⟨rfl, ?_⟩
    cases hparent : d.parentFor s with
    | error e' =>
      rw [hparent] at h
      cases h
      exact .inl rfl
    | ok parent =>
      rw [hparent] at h
      dsimp only at h
      split at h
      · next htotal =>
        cases h
        exact .inr ⟨parent, rfl, htotal, rfl⟩
      · cases h

theorem parentFor_fits {d : Draft} (wf : d.tree.Linked) {s : Stage} {parent : Option Nat}
    (h : d.parentFor s = .ok parent) : d.FitsParent parent := by
  rcases parentFor_eq_ok_iff.1 h with ⟨-, hsize, rfl⟩ | ⟨p, i, -, -, hi, rfl⟩
  · exact hsize
  · exact wf.lt_size_of_indexOf? hi

theorem push_ok {d d' : Draft} {s : Stage} {i : Nat} (h : d.push s = (.ok i, d')) :
    ∃ parent, d.accept s = .ok parent ∧ i = d.size ∧ d' = d.extend s parent := by
  unfold push at h
  split at h
  · next parent hparent =>
    cases h
    exact ⟨parent, hparent, rfl, rfl⟩
  · cases h

theorem push_error {d d' : Draft} {s : Stage} {e : Malformed} (h : d.push s = (.error e, d')) :
    d.accept s = .error e ∧ d' = d := by
  unfold push at h
  split at h
  · cases h
  · next haccept =>
    cases h
    exact ⟨haccept, rfl⟩

/-- What holds of the trees of all drafts that pushes can lead to. -/
structure Sound (d : Draft) : Prop where
  linked : d.tree.Linked
  unsolved : d.tree.Unsolved

theorem sound_empty : Sound {} where
  linked :=
    { parent_zero := rfl
      parent_of_pos := fun _ _ hi => absurd hi (Nat.not_lt_zero _)
      children_eq := fun _ => rfl
      index_eq := rfl
      weight_pos := fun _ hi => absurd hi (Nat.not_lt_zero _)
      total_eq := rfl
      total_le := Nat.zero_le _ }
  unsolved :=
    { arenaSize := rfl
      offset := fun i _ h => absurd (BufferTree.lt_size_of_get? h) (Nat.not_lt_zero i) }

theorem sound_push {d d' : Draft} {s : Stage} {i : Nat} (h : d.push s = (.ok i, d'))
    (hd : d.Sound) : d'.Sound := by
  obtain ⟨parent, haccept, -, rfl⟩ := push_ok h
  obtain ⟨hw, hfresh, hparent, htotal⟩ := accept_eq_ok_iff.1 haccept
  have hfits := parentFor_fits hd.linked hparent
  refine ⟨linked_extend hd.linked hfits hw hfresh htotal, rfl, fun j n hn => ?_⟩
  rw [get?_extend] at hn
  split at hn
  · cases hn
    rfl
  · obtain ⟨m, hm, rfl⟩ := Option.map_eq_some_iff.1 hn
    have hm' := hd.unsolved.offset j m hm
    split
    · exact hm'
    · exact hm'

end Draft

theorem growFrom_sound {stages rest : List Stage} {d d' : Draft} {pos : Nat}
    (h : growFrom stages d pos rest = .ok d') (hd : d.Sound) : d'.Sound := by
  induction rest generalizing d pos with
  | nil =>
    cases h
    exact hd
  | cons s rest ih =>
    unfold growFrom at h
    split at h
    · cases h
    · split at h
      · cases h
      · next hpush => exact ih h (Draft.sound_push hpush hd)

namespace BufferTree

theorem ofStages_ok {stages : List Stage} {t : BufferTree} (h : ofStages stages = .ok t) :
    ∃ d : Draft, d.Sound ∧ 0 < d.tree.size ∧ t = d.tree := by
  unfold ofStages at h
  split at h
  · cases h
  · next d hgrow =>
    unfold Draft.finish at h
    split at h
    · cases h
    · next hempty =>
      cases h
      refine ⟨d, growFrom_sound hgrow Draft.sound_empty, ?_, rfl⟩
      exact Nat.pos_of_ne_zero fun h0 => hempty (beq_iff_eq.2 h0)

/-- Built trees are well formed. -/
theorem ofStages_wellFormed {stages : List Stage} {t : BufferTree}
    (h : ofStages stages = .ok t) : t.WellFormed := by
  obtain ⟨d, hd, hpos, rfl⟩ := ofStages_ok h
  exact ⟨hd.linked, hpos⟩

/-- Built trees are not solved yet. -/
theorem ofStages_unsolved {stages : List Stage} {t : BufferTree}
    (h : ofStages stages = .ok t) : t.Unsolved := by
  obtain ⟨d, hd, -, rfl⟩ := ofStages_ok h
  exact hd.unsolved

end BufferTree

end LifetimeArena
