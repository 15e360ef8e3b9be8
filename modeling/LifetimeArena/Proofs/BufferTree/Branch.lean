import LifetimeArena.Proofs.BufferTree.Building
import LifetimeArena.Proofs.BufferTree.Preorder
import Mathlib.Algebra.Order.BigOperators.Group.List

/-!
# Branches

The stages below a stage, and the stage itself without its parent, describe a pipeline of their own.
Its tree is a branch of the whole tree: the same nodes, numbered anew in the same order, with the
same links among each other. So the walk through the branch alone is the run of the whole walk that
goes through it.

- `BufferTree.branch`: the stages of a branch, as a list of its own.
- `BufferTree.branchNode`: the number in the whole tree of a node of the branch.
- `BufferTree.IsBranch`: a tree is a branch of another.
- `BufferTree.exists_branch`: the stages of a branch are accepted, and their tree is the branch.
- `IsBranch.rank_eq`, `IsBranch.extent_eq`: where the whole walk meets the nodes of the branch.
-/

namespace LifetimeArena

namespace BufferTree

/-! ## The stages of a branch -/

/-- A listed stage with its position, as a stage of the branch of `r`, where the root of the branch
has no parent. -/
def branchStage (r : Nat) (x : Stage × Nat) : Stage :=
  if x.2 = r then { x.1 with parent := none } else x.1

/-- The stages of the subtree of `r`, in the order in which they are listed. -/
def branch (t : BufferTree) (r : Nat) (stages : List Stage) : List Stage :=
  (stages.zipIdx.filter fun x => t.InSubtree r x.2).map (branchStage r)

/-- The nodes of the subtree of `r`, in listing order. -/
def branchNodes (t : BufferTree) (r : Nat) : List Nat :=
  (List.range t.size).filter fun i => t.InSubtree r i

/-- The number in the whole tree of node `j` of the branch of `r`. -/
def branchNode (t : BufferTree) (r j : Nat) : Nat := (t.branchNodes r).getD j 0

variable {t b : BufferTree} {r i j k : Nat} {stages : List Stage}

@[simp] theorem id_branchStage (r : Nat) (x : Stage × Nat) : (branchStage r x).id = x.1.id := by
  unfold branchStage
  split <;> rfl

@[simp] theorem weight_branchStage (r : Nat) (x : Stage × Nat) :
    (branchStage r x).weight = x.1.weight := by
  unfold branchStage
  split <;> rfl

theorem branchStage_of_ne {x : Stage × Nat} (h : x.2 ≠ r) : branchStage r x = x.1 := if_neg h

theorem mem_branchNodes : i ∈ t.branchNodes r ↔ i < t.size ∧ t.InSubtree r i := by
  rw [branchNodes, List.mem_filter, List.mem_range, decide_eq_true_iff]

theorem getElem?_branchNodes (hj : j < (t.branchNodes r).length) :
    (t.branchNodes r)[j]? = some (t.branchNode r j) := by
  rw [branchNode, List.getD_eq_getElem?_getD, List.getElem?_eq_getElem hj, Option.getD_some]

theorem branchNode_mem (hj : j < (t.branchNodes r).length) :
    t.branchNode r j < t.size ∧ t.InSubtree r (t.branchNode r j) :=
  mem_branchNodes.1 (List.mem_of_getElem? (getElem?_branchNodes hj))

theorem exists_branchNode (hi : i < t.size) (hri : t.InSubtree r i) :
    ∃ j, j < (t.branchNodes r).length ∧ t.branchNode r j = i := by
  obtain ⟨j, hj, heq⟩ := List.mem_iff_getElem.1 (mem_branchNodes.2 ⟨hi, hri⟩)
  refine ⟨j, hj, Option.some.inj ?_⟩
  rw [← getElem?_branchNodes hj, List.getElem?_eq_getElem hj, heq]

/-- The numbering of the branch keeps the order. -/
theorem branchNode_lt_iff (hj : j < (t.branchNodes r).length)
    (hk : k < (t.branchNodes r).length) : t.branchNode r j < t.branchNode r k ↔ j < k := by
  have hsorted : (t.branchNodes r).Pairwise (· < ·) := List.pairwise_lt_range.filter _
  have hlt : ∀ {x y}, x < (t.branchNodes r).length → y < (t.branchNodes r).length → x < y →
      t.branchNode r x < t.branchNode r y := fun {x y} hx hy hxy => by
    have h := List.pairwise_iff_getElem.1 hsorted x y hx hy hxy
    rwa [← Option.some.inj ((List.getElem?_eq_getElem hx).symm.trans (getElem?_branchNodes hx)),
      ← Option.some.inj ((List.getElem?_eq_getElem hy).symm.trans (getElem?_branchNodes hy))]
  refine ⟨fun h => ?_, hlt hj hk⟩
  rcases Nat.lt_trichotomy j k with hjk | rfl | hkj
  · exact hjk
  · exact absurd h (Nat.lt_irrefl _)
  · exact absurd h (Nat.lt_asymm (hlt hk hj hkj))

theorem branchNode_inj (hj : j < (t.branchNodes r).length) (hk : k < (t.branchNodes r).length) :
    t.branchNode r j = t.branchNode r k ↔ j = k := by
  refine ⟨fun h => ?_, fun h => h ▸ rfl⟩
  have hjk := branchNode_lt_iff hj hk
  have hkj := branchNode_lt_iff hk hj
  omega

/-- The root of the branch is its first node. -/
theorem Linked.branchNode_zero (wf : t.Linked) (hr : r < t.size) :
    0 < (t.branchNodes r).length ∧ t.branchNode r 0 = r := by
  obtain ⟨j, hj, heq⟩ := exists_branchNode hr (.refl t r)
  have hpos : 0 < (t.branchNodes r).length := Nat.lt_of_le_of_lt (Nat.zero_le j) hj
  have hle := wf.inSubtree_le (branchNode_mem hpos).2
  have hlt := branchNode_lt_iff hj hpos
  exact ⟨hpos, by omega⟩

/-! ## The list of a branch describes a tree -/

theorem map_snd_zipIdx_filter (hsize : t.size = stages.length) :
    (stages.zipIdx.filter fun x => t.InSubtree r x.2).map (·.2) = t.branchNodes r := by
  have hpositions : stages.zipIdx.map (·.2) = List.range t.size := by
    rw [List.zipIdx_map_snd, List.range_eq_range', hsize]
  rw [branchNodes, ← hpositions, List.filter_map]
  rfl

theorem length_branch (hsize : t.size = stages.length) :
    (t.branch r stages).length = (t.branchNodes r).length := by
  rw [← map_snd_zipIdx_filter hsize, branch, List.length_map, List.length_map]

/-- The stages of the branch are those of its nodes. -/
theorem getElem?_branch (hsize : t.size = stages.length) (hj : j < (t.branchNodes r).length) :
    ∃ s, stages[t.branchNode r j]? = some s ∧
      (t.branch r stages)[j]? = some (branchStage r (s, t.branchNode r j)) := by
  have hnode := getElem?_branchNodes hj
  rw [← map_snd_zipIdx_filter hsize, List.getElem?_map] at hnode
  obtain ⟨⟨s, i⟩, hx, hi⟩ := Option.map_eq_some_iff.1 hnode
  have hlisted := (List.mem_filter.1 (List.mem_of_getElem? hx)).1
  obtain rfl : i = t.branchNode r j := hi
  refine ⟨s, List.mk_mem_zipIdx_iff_getElem?.1 hlisted, ?_⟩
  rw [branch, List.getElem?_map, hx, Option.map_some]

theorem map_branch_sublist {β : Type} (f : Stage → β) (hf : ∀ x, f (branchStage r x) = f x.1) :
    ((t.branch r stages).map f).Sublist (stages.map f) := by
  have hbranch : (t.branch r stages).map f =
      (stages.zipIdx.filter fun x => t.InSubtree r x.2).map fun x => f x.1 := by
    rw [branch, List.map_map]
    exact List.map_congr_left fun x _ => hf x
  have hlist : stages.map f = stages.zipIdx.map fun x => f x.1 := by
    conv_lhs => rw [← List.zipIdx_map_fst 0 stages, List.map_map]
    rfl
  rw [hbranch, hlist]
  exact List.filter_sublist.map _

section

variable (wf : t.WellFormed) (hshows : t.Mirrors stages)
include wf hshows

/-- Below its root the branch keeps the parents, and it has them all. -/
theorem exists_parent_branch (hj : j < (t.branchNodes r).length) (hne : t.branchNode r j ≠ r)
    {s : Stage} (hs : stages[t.branchNode r j]? = some s) :
    ∃ k s', k < j ∧ t.parent? (t.branchNode r j) = some (t.branchNode r k) ∧
      stages[t.branchNode r k]? = some s' ∧ s.parent = some s'.id := by
  obtain ⟨-, hsub⟩ := branchNode_mem hj
  obtain ⟨p, hp, hrp⟩ := wf.isAncestor_iff.1 (hsub.resolve_left (Ne.symm hne))
  have hlt := wf.parent_lt hp
  obtain ⟨k, hk, rfl⟩ := exists_branchNode (Nat.lt_trans hlt (branchNode_mem hj).1) hrp
  obtain ⟨hnone, hsome⟩ := hshows.parent _ s hs
  cases hparent : s.parent with
  | none =>
    rw [hnone hparent] at hp
    cases hp
  | some id =>
    obtain ⟨q, hq, -, hid⟩ := hsome id hparent
    rw [hp] at hq
    cases hq
    obtain ⟨s', hs', rfl⟩ := Option.map_eq_some_iff.1 hid
    exact ⟨k, s', (branchNode_lt_iff hk hj).1 hlt, hp, hs', rfl⟩

theorem describesTree_branch (horder : InOrder stages) (hr : r < t.size) :
    DescribesTree (t.branch r stages) := by
  have hsize := hshows.size_eq
  obtain ⟨hpos, hzero⟩ := wf.branchNode_zero hr
  have hlength : (t.branch r stages).length = (t.branchNodes r).length := length_branch hsize
  refine
    { nodup := (map_branch_sublist (·.id) (id_branchStage r)).nodup horder.nodup
      weight_pos := fun s hs => ?_
      root := fun s hs => ?_
      parent := fun j s hj hs => ?_
      total_le := ?_
      ne_nil := fun hnil => ?_ }
  · have hweight : s.weight ∈ stages.map (·.weight) :=
      (map_branch_sublist (·.weight) (weight_branchStage r)).subset (List.mem_map_of_mem hs)
    obtain ⟨s', hs', heq⟩ := List.mem_map.1 hweight
    exact heq ▸ horder.weight_pos s' hs'
  · obtain ⟨s', -, hs'⟩ := getElem?_branch hsize hpos
    rw [hs] at hs'
    cases hs'
    rw [branchStage, if_pos hzero]
  · have hlt : j < (t.branchNodes r).length := hlength ▸ (List.getElem?_eq_some_iff.1 hs).1
    obtain ⟨s₁, hs₁, hbranch⟩ := getElem?_branch hsize hlt
    have hne : t.branchNode r j ≠ r := fun heq => by
      have hinj := branchNode_inj hlt hpos
      omega
    obtain ⟨k, s₂, hk, -, hs₂, hparent⟩ := exists_parent_branch wf hshows hlt hne hs₁
    obtain ⟨s₃, hs₃, hbranch'⟩ := getElem?_branch hsize (Nat.lt_trans hk hlt)
    rw [hs₂] at hs₃
    cases hs₃
    rw [hs] at hbranch
    cases hbranch
    exact ⟨k, _, hk, hbranch', by rw [branchStage_of_ne hne, hparent, id_branchStage]⟩
  · have hsub : ((t.branch r stages).map (·.weight)).Sublist (stages.map (·.weight)) :=
      map_branch_sublist (·.weight) (weight_branchStage r)
    exact Nat.le_trans (hsub.sum_le_sum fun _ _ => Nat.zero_le _) horder.total_le
  · rw [hnil, List.length_nil] at hlength
    omega

end

/-! ## The tree of a branch -/

/-- The tree `b` has the nodes of the subtree of `r` in `t`, numbered anew in the same order, with
the same sizes and the same parents within the subtree. -/
structure IsBranch (b t : BufferTree) (r : Nat) : Prop where
  size_eq : b.size = (t.branchNodes r).length
  weight_eq : ∀ j, j < b.size → b.weight j = t.weight (t.branchNode r j)
  parent?_eq_some_iff : ∀ j k, j < b.size → k < b.size →
    (b.parent? j = some k ↔ t.parent? (t.branchNode r j) = some (t.branchNode r k))
  indexOf?_eq : ∀ j, j < b.size → b.indexOf? (t.stageAt (t.branchNode r j)) = some j

/-- A tree that shows the list of a branch is the branch. -/
theorem isBranch_of_mirrors (wf : t.WellFormed) (hshows : t.Mirrors stages)
    (hb : b.Mirrors (t.branch r stages)) : b.IsBranch t r := by
  have hsize := hshows.size_eq
  have hlength : b.size = (t.branchNodes r).length := by rw [hb.size_eq, length_branch hsize]
  have hstage : ∀ {j}, j < b.size → ∃ s n, stages[t.branchNode r j]? = some s ∧
      (t.branch r stages)[j]? = some (branchStage r (s, t.branchNode r j)) ∧
      t.get? (t.branchNode r j) = some n ∧ n.stage = s.id ∧ n.weight = s.weight := by
    intro j hj
    obtain ⟨s, hs, hbranch⟩ := getElem?_branch hsize (hlength ▸ hj)
    obtain ⟨n, hn, hid, hweight, -⟩ := hshows.node _ s hs
    exact ⟨s, n, hs, hbranch, hn, hid, hweight⟩
  refine ⟨hlength, fun j hj => ?_, fun j k hj hk => ?_, fun j hj => ?_⟩
  · obtain ⟨s, n, -, hbranch, hn, -, hweight⟩ := hstage hj
    obtain ⟨m, hm, -, hmweight, -⟩ := hb.node j _ hbranch
    rw [weight_of_get? hm, weight_of_get? hn, hweight, hmweight, weight_branchStage]
  · obtain ⟨s, -, hs, hbranch, -⟩ := hstage hj
    by_cases hroot : t.branchNode r j = r
    · -- The root of the branch has no parent there, and in the whole tree none in the branch.
      have hnone : b.parent? j = none :=
        (hb.parent j _ hbranch).1 (by rw [branchStage, if_pos hroot])
      have hout : t.parent? r ≠ some (t.branchNode r k) := fun h => by
        have hlt := wf.parent_lt h
        have hle := wf.inSubtree_le (branchNode_mem (hlength ▸ hk)).2
        omega
      rw [hnone, hroot]
      exact ⟨fun h => (nomatch h), fun h => absurd h hout⟩
    · obtain ⟨l, s', hl, hp, hs', hparent⟩ :=
        exists_parent_branch wf hshows (hlength ▸ hj) hroot hs
      have hlsize : l < b.size := Nat.lt_trans hl hj
      -- The branch finds the parent by the same name.
      obtain ⟨s'', -, hs'', hbranch', -⟩ := hstage hlsize
      rw [hs'] at hs''
      cases hs''
      have hpl : b.parent? j = some l := by
        obtain ⟨q, hq, -, hname⟩ := (hb.parent j _ hbranch).2 s'.id (by
          rw [branchStage_of_ne hroot, hparent])
        have hql := (hb.indexOf? s'.id q).2 hname
        rw [(hb.indexOf? s'.id l).2 (by rw [hbranch', Option.map_some, id_branchStage])] at hql
        rw [hq, Option.some.inj hql]
      rw [hpl, hp, Option.some.injEq, Option.some.injEq,
        branchNode_inj (hlength ▸ hlsize) (hlength ▸ hk)]
  · obtain ⟨s, n, -, hbranch, hn, hid, -⟩ := hstage hj
    rw [hb.indexOf?, hbranch, Option.map_some, id_branchStage, stageAt_of_get? hn, hid]

/-- The stages of a branch are accepted, and their tree is the branch. -/
theorem exists_branch (h : ofStages stages = .ok t) (hr : r < t.size) :
    ∃ b, ofStages (t.branch r stages) = .ok b ∧ b.IsBranch t r := by
  have wf := ofStages_wellFormed h
  obtain ⟨horder, hshows⟩ := describesTree_and_mirrors h
  have hdescribes := describesTree_branch wf hshows horder.toInOrder hr
  rcases ofStages_cases (t.branch r stages) with ⟨b, hb, -, hmirrors⟩ | ⟨-, hnot⟩
  · exact ⟨b, hb, isBranch_of_mirrors wf hshows hmirrors⟩
  · exact absurd hdescribes hnot

/-! ## The walk through a branch -/

namespace IsBranch

variable (h : b.IsBranch t r)
include h

theorem inSubtree_branchNode (hj : j < b.size) : t.InSubtree r (t.branchNode r j) :=
  (branchNode_mem (h.size_eq ▸ hj)).2

theorem branchNode_lt_size (hj : j < b.size) : t.branchNode r j < t.size :=
  (branchNode_mem (h.size_eq ▸ hj)).1

theorem map_branchNode_range : (List.range b.size).map (t.branchNode r) = t.branchNodes r := by
  refine List.ext_getElem? fun j => ?_
  rw [List.getElem?_map, h.size_eq]
  by_cases hj : j < (t.branchNodes r).length
  · rw [List.getElem?_range hj, getElem?_branchNodes hj, Option.map_some]
  · rw [List.getElem?_eq_none (by rw [List.length_range]; omega),
      List.getElem?_eq_none (Nat.le_of_not_lt hj), Option.map_none]

section

variable (wf : t.WellFormed) (wfb : b.WellFormed)
include wf wfb

/-- The branch has all children of its nodes, in the same order. -/
theorem map_children (hj : j < b.size) :
    (b.children j).map (t.branchNode r) = t.children (t.branchNode r j) := by
  have hinside : t.children (t.branchNode r j) =
      (t.branchNodes r).filter fun i => t.parent? i = some (t.branchNode r j) := by
    rw [wf.children_eq, branchNodes, List.filter_filter]
    refine List.filter_congr fun i _ => ?_
    by_cases hp : t.parent? i = some (t.branchNode r j)
    · have hsub : t.InSubtree r i :=
        wf.inSubtree_trans (h.inSubtree_branchNode hj) (.inr (wf.isAncestor_of_parent hp))
      simp [hp, hsub]
    · simp [hp]
  rw [hinside, ← h.map_branchNode_range, List.filter_map, wfb.children_eq]
  refine congrArg (List.map _) (List.filter_congr fun k hk => decide_eq_decide.2 ?_)
  exact h.parent?_eq_some_iff k j (List.mem_range.1 hk) hj

theorem map_subtree (hj : j < b.size) :
    (b.subtree j).map (t.branchNode r) = t.subtree (t.branchNode r j) := by
  induction j using wfb.induction_on_children with
  | step j ih =>
    rw [wfb.subtree_eq, wf.subtree_eq, List.map_cons, List.map_flatMap,
      ← h.map_children wf wfb hj, List.flatMap_map]
    refine congrArg _ (List.flatMap_congr fun c hc => ?_)
    exact ih c hc (lt_size_of_parent? (wfb.mem_children.1 hc))

theorem extent_eq (hj : j < b.size) : t.extent (t.branchNode r j) = b.extent j := by
  rw [extent, extent, ← h.map_subtree wf wfb hj, List.length_map]

/-- The whole walk meets the nodes of the branch in the order of the branch's own walk. -/
theorem rank_eq (hr : r < t.size) (hj : j < b.size) :
    t.rank (t.branchNode r j) = t.rank r + b.rank j := by
  obtain ⟨before, after, hrun, hrank⟩ := wf.exists_run hr
  obtain ⟨before', after', hrun'⟩ := List.append_of_mem (wfb.mem_preorder.2 hj)
  have hwalk : b.preorder.map (t.branchNode r) = t.subtree r := by
    rw [wfb.preorder_eq_subtree, h.map_subtree wf wfb (j := b.root) wfb.size_pos]
    exact congrArg t.subtree (wf.branchNode_zero hr).2
  have hsplit : t.preorder = (before ++ before'.map (t.branchNode r)) ++
      t.branchNode r j :: (after'.map (t.branchNode r) ++ after) := by
    rw [hrun, ← hwalk, hrun']
    simp
  rw [wf.rank_of_split hsplit, wfb.rank_of_split hrun', hrank, List.length_append,
    List.length_map]

end

end IsBranch

end BufferTree

end LifetimeArena
