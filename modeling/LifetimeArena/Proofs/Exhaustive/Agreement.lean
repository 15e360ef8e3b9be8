import LifetimeArena.Proofs.Exhaustive.SetSearch
import LifetimeArena.Proofs.Placement.LowerBound
import Mathlib.Algebra.BigOperators.Group.Finset.Basic
import Mathlib.Data.Finset.Pairwise

/-!
# The exhaustive search and the tree

The exhaustive search knows nothing of trees. It climbs from name to name, looking each name up in
the list, and tries sets of positions. On a list that was built into a tree it answers as the tree
does: a climb by names takes the parent links of the tree one by one, so it ends where they end, and
the sets of positions that it finds unrelated are the antichains of the tree.

- `Exhaustive.ClimbEnds`: what the climb comes to, without a bound on the looks.
- `BufferTree.Mirrors.climbEnds`: in a built list it ends, and meets the ancestors.
- `BufferTree.Mirrors.antichainWeights_eq`: sets of positions and antichains weigh the same.
- `Exhaustive.agrees_with_tree`: both answers are those of the tree.
-/

namespace LifetimeArena

open Finset

namespace Exhaustive

variable {stages : List Stage} {target : StageId} {next : Option StageId} {looks : Nat}
  {answer : Bool}

/-- Following parent links from the link `next` comes to an end after so many looks. The answer is
whether it ends at `target` or at a name without a parent. -/
inductive ClimbEnds (stages : List Stage) (target : StageId) :
    (next : Option StageId) → (looks : Nat) → (answer : Bool) → Prop
  /-- There is nothing left to look at. -/
  | top : ClimbEnds stages target none 0 false
  /-- The target is met. -/
  | found : ClimbEnds stages target (some target) 1 true
  /-- Another name is met, and the climb goes on from it. -/
  | onward {id : StageId} {looks : Nat} {answer : Bool} : id ≠ target →
    ClimbEnds stages target (listedParent? stages id) looks answer →
    ClimbEnds stages target (some id) (looks + 1) answer

/-- With as many looks as it takes, or more, the bounded climb comes to the same answer. -/
theorem ClimbEnds.climbs_eq (h : ClimbEnds stages target next looks answer) {bound : Nat}
    (hbound : looks ≤ bound) : climbs stages target bound next = answer := by
  induction h generalizing bound with
  | top => cases bound <;> rfl
  | found =>
    obtain ⟨bound, rfl⟩ := Nat.exists_eq_add_of_lt hbound
    rw [Nat.zero_add, climbs, if_pos rfl]
  | onward hne _ ih =>
    obtain ⟨bound, rfl⟩ : ∃ b, bound = b + 1 := ⟨bound - 1, by omega⟩
    rw [climbs, if_neg hne]
    exact ih (Nat.le_of_succ_le_succ hbound)

end Exhaustive

namespace BufferTree

open Exhaustive

variable {t : BufferTree} {stages : List Stage} {a b i : Nat}

/-! ## The stages of a built tree -/

/-- A node was made from the stage at its number. -/
theorem Mirrors.exists_stage (h : t.Mirrors stages) (hi : i < t.size) :
    ∃ s, stages[i]? = some s ∧ s.id = t.stageAt i ∧ s.weight = t.weight i ∧
      s.parent = (t.parent? i).map t.stageAt := by
  have hlength : i < stages.length := h.size_eq ▸ hi
  obtain ⟨s, hs⟩ : ∃ s, stages[i]? = some s := ⟨_, List.getElem?_eq_getElem hlength⟩
  obtain ⟨n, hn, hid, hweight, -⟩ := h.node i s hs
  refine ⟨s, hs, by rw [stageAt_of_get? hn, hid], by rw [weight_of_get? hn, hweight], ?_⟩
  cases hparent : s.parent with
  | none => rw [(h.parent i s hs).1 hparent, Option.map_none]
  | some id =>
    obtain ⟨p, hp, hlt, hname⟩ := (h.parent i s hs).2 id hparent
    rw [← List.getElem?_map, ← h.names_eq, getElem?_names (Nat.lt_trans hlt hi)] at hname
    rw [hp, Option.map_some, hname]

/-- The first stage of a name is the one that the node of that name was made from. -/
theorem Mirrors.listedParent?_eq (h : t.Mirrors stages) (hnodup : t.names.Nodup)
    (hi : i < t.size) : listedParent? stages (t.stageAt i) = (t.parent? i).map t.stageAt := by
  obtain ⟨s, hs, hid, -, hparent⟩ := h.exists_stage hi
  cases hfind : stages.find? (·.id = t.stageAt i) with
  | none =>
    have hmiss := List.find?_eq_none.1 hfind s (List.mem_of_getElem? hs)
    exact absurd (decide_eq_true hid) hmiss
  | some r =>
    have hname : r.id = t.stageAt i := by simpa using List.find?_some hfind
    obtain ⟨j, hj⟩ := List.mem_iff_getElem?.1 (List.mem_of_find?_eq_some hfind)
    have hjsize : j < t.size := h.size_eq ▸ (List.getElem?_eq_some_iff.1 hj).1
    obtain ⟨r', hr', hid', -⟩ := h.exists_stage hjsize
    rw [hj] at hr'
    cases hr'
    -- Names are not repeated, so the first stage of the name is the stage of the node.
    have hsame := stageAt_injective hnodup hjsize hi (hid'.symm.trans hname)
    rw [hsame, hs] at hj
    cases hj
    rw [listedParent?, hfind, Option.bind_some, hparent]

/-! ## Climbing by names -/

namespace Mirrors

variable (h : t.Mirrors stages) (wf : t.WellFormed) (hnodup : t.names.Nodup)
include h wf hnodup

/-- The climb by names takes the parent links of the tree, so it is over after as many looks as the
number of its start says. -/
theorem climbEnds (ha : a < t.size) (hb : b < t.size) :
    ∃ looks ≤ b, ClimbEnds stages (t.stageAt a) ((t.parent? b).map t.stageAt) looks
      (decide (t.IsAncestor a b)) := by
  induction b using Nat.strong_induction_on with
  | _ b ih =>
    cases hp : t.parent? b with
    | none =>
      have hnot : ¬ t.IsAncestor a b := by
        rw [wf.isAncestor_iff, hp]
        simp
      rw [decide_eq_false hnot]
      exact ⟨0, Nat.zero_le b, .top⟩
    | some p =>
      have hlt := wf.parent_lt hp
      have hpsize := Nat.lt_trans hlt hb
      have hstep : t.IsAncestor a b ↔ t.InSubtree a p := by
        rw [wf.isAncestor_iff, hp]
        simp
      by_cases hap : a = p
      · subst hap
        rw [decide_eq_true (hstep.2 (.refl t a))]
        exact ⟨1, Nat.one_le_of_lt hlt, .found⟩
      · obtain ⟨looks, hle, hends⟩ := ih p hlt hpsize
        have hname : t.stageAt p ≠ t.stageAt a := fun heq =>
          hap (stageAt_injective hnodup ha hpsize heq.symm)
        rw [← h.listedParent?_eq hnodup hpsize] at hends
        refine ⟨looks + 1, Nat.succ_le_of_lt (Nat.lt_of_le_of_lt hle hlt), ?_⟩
        rw [decide_eq_decide.2 (hstep.trans (or_iff_right hap))]
        exact .onward hname hends

theorem isAncestor_eq (ha : a < t.size) (hb : b < t.size) :
    Exhaustive.isAncestor stages a b = decide (t.IsAncestor a b) := by
  obtain ⟨s, hs, hid, -⟩ := h.exists_stage ha
  obtain ⟨r, hr, -, -, hparent⟩ := h.exists_stage hb
  obtain ⟨looks, hle, hends⟩ := h.climbEnds wf hnodup ha hb
  rw [Exhaustive.isAncestor, hs, hr]
  dsimp only
  rw [hid, hparent]
  refine hends.climbs_eq ?_
  have hsize := h.size_eq
  omega

/-! ## Sets of positions -/

theorem related_eq_false_iff (ha : a < t.size) (hb : b < t.size) (hne : a ≠ b) :
    Exhaustive.related stages a b = false ↔ ¬ t.Related a b := by
  rw [Exhaustive.related, h.isAncestor_eq wf hnodup ha hb, h.isAncestor_eq wf hnodup hb ha,
    Bool.or_eq_false_iff, decide_eq_false_iff_not, decide_eq_false_iff_not, ← not_or, Related,
    or_iff_right hne]

/-- The sets of unrelated positions are the antichains of the tree. -/
theorem unrelated_iff_isAntichain {l : List Nat} (hl : l.Sublist (List.range t.size)) :
    Unrelated stages l ↔ t.IsAntichain l.toFinset := by
  have hsize : ∀ {i}, i ∈ l → i < t.size := fun hi => List.mem_range.1 (hl.subset hi)
  have hlnodup : l.Nodup := hl.nodup List.nodup_range
  have hpairs : Unrelated stages l ↔ l.Pairwise fun i j => ¬ t.Related i j := by
    refine ⟨fun hu => ?_, fun hu => ?_⟩
    · refine (hu.and hlnodup).imp_of_mem fun hi hj hij => ?_
      exact (h.related_eq_false_iff wf hnodup (hsize hi) (hsize hj) hij.2).1 hij.1
    · refine (hu.and hlnodup).imp_of_mem fun hi hj hij => ?_
      exact (h.related_eq_false_iff wf hnodup (hsize hi) (hsize hj) hij.2).2 hij.1
  have : Std.Symm fun i j => ¬ t.Related i j := ⟨fun i j hij hji => hij hji.symm⟩
  rw [hpairs, ← List.pairwise_iff_coe_toFinset_pairwise hlnodup]
  exact Iff.rfl

omit wf hnodup in
theorem sumWeights_eq {l : List Nat} (hl : l.Sublist (List.range t.size)) :
    sumWeights stages l = ∑ i ∈ l.toFinset, t.weight i := by
  rw [List.sum_toFinset _ (hl.nodup List.nodup_range), sumWeights]
  refine congrArg List.sum (List.map_congr_left fun i hi => ?_)
  obtain ⟨s, hs, -, hweight, -⟩ := h.exists_stage (List.mem_range.1 (hl.subset hi))
  rw [Exhaustive.weight, hs, Option.map_some, Option.getD_some, hweight]

theorem antichainWeights_eq : Exhaustive.antichainWeights stages = t.antichainWeights := by
  ext w
  unfold Exhaustive.antichainWeights antichainWeights
  rw [← h.size_eq]
  constructor
  · rintro ⟨l, hl, hunrelated, rfl⟩
    refine ⟨l.toFinset, fun i hi => ?_, (h.unrelated_iff_isAntichain wf hnodup hl).1 hunrelated,
      (h.sumWeights_eq hl).symm⟩
    rw [mem_range, ← List.mem_range]
    exact hl.subset (List.mem_toFinset.1 hi)
  · rintro ⟨s, hs, hanti, rfl⟩
    have hl : ((List.range t.size).filter (· ∈ s)).Sublist (List.range t.size) :=
      List.filter_sublist
    have hfinset : ((List.range t.size).filter (· ∈ s)).toFinset = s := by
      ext i
      rw [List.mem_toFinset, List.mem_filter, decide_eq_true_iff, List.mem_range,
        and_iff_right_iff_imp]
      exact fun hi => mem_range.1 (hs hi)
    refine ⟨_, hl, (h.unrelated_iff_isAntichain wf hnodup hl).2 (hfinset.symm ▸ hanti), ?_⟩
    rw [h.sumWeights_eq hl, hfinset]

theorem maxAntichainWeight_eq : Exhaustive.maxAntichainWeight stages = t.maxAntichainWeight := by
  refine (isGreatest_maxAntichainWeight stages).unique ?_
  rw [h.antichainWeights_eq wf hnodup, wf.maxAntichainWeight_eq]
  exact isGreatest_heaviestAntichain

end Mirrors

end BufferTree

namespace Exhaustive

open BufferTree

variable {stages : List Stage} {t : BufferTree}

/-- The climb by names ends, and its answer is that of the tree. -/
theorem isAncestorAt_of_built (h : ofStages stages = .ok t) {a b : Nat} {s r : Stage}
    (hs : stages[a]? = some s) (hr : stages[b]? = some r) :
    ∃ looks answer, ClimbEnds stages s.id r.parent looks answer ∧
      isAncestorAt stages a b = .ok answer ∧ t.isAncestorAt a b = .ok answer := by
  have wf := ofStages_wellFormed h
  have hnodup := nodup_names_of_ofStages h
  have hshows := (describesTree_and_mirrors h).2
  have ha := (List.getElem?_eq_some_iff.1 hs).1
  have hb := (List.getElem?_eq_some_iff.1 hr).1
  rw [← hshows.size_eq] at ha hb
  obtain ⟨s', hs', hid, -⟩ := hshows.exists_stage ha
  obtain ⟨r', hr', -, -, hparent⟩ := hshows.exists_stage hb
  rw [hs] at hs'
  rw [hr] at hr'
  cases hs'
  cases hr'
  obtain ⟨looks, -, hends⟩ := hshows.climbEnds wf hnodup ha hb
  rw [← hid, ← hparent] at hends
  refine ⟨looks, _, hends, ?_, ?_⟩
  · rw [isAncestorAt, ← hshows.size_eq, if_neg (Nat.not_le.2 ha), if_neg (Nat.not_le.2 hb),
      hshows.isAncestor_eq wf hnodup ha hb]
  · rw [BufferTree.isAncestorAt, requireNode, if_pos hb]
    rfl

/-- The search has an answer, since no antichain weighs more than the tree does. -/
theorem maxAntichainWeightAt_of_built (h : ofStages stages = .ok t)
    (hshort : stages.length ≤ searchLimit) :
    maxAntichainWeightAt stages = .ok t.maxAntichainWeight := by
  have wf := ofStages_wellFormed h
  have hweight := (describesTree_and_mirrors h).2.maxAntichainWeight_eq wf
    (nodup_names_of_ofStages h)
  have hword : t.maxAntichainWeight ≤ wordMax := by
    rw [wf.maxAntichainWeight_eq]
    exact Nat.le_trans wf.heaviestAntichain_le_total wf.total_le
  rw [maxAntichainWeightAt, if_neg (Nat.not_lt.2 hshort), hweight, if_neg (Nat.not_lt.2 hword)]

/-- On a list that was built into a tree, the climb by names ends and answers as the tree does, and
on a short list trying all sets, position by position or mask by mask, gives the weight of the
heaviest antichain of the tree. No sum on the way leaves the word, whatever the sizes. -/
theorem agrees_with_tree (h : ofStages stages = .ok t) :
    (∀ a b s r, stages[a]? = some s → stages[b]? = some r →
      ∃ looks answer, ClimbEnds stages s.id r.parent looks answer ∧
        isAncestorAt stages a b = .ok answer ∧ t.isAncestorAt a b = .ok answer) ∧
    (stages.length ≤ searchLimit →
      maxAntichainWeightAt stages = .ok t.maxAntichainWeight ∧
      tryMasks stages = .ok t.maxAntichainWeight) := by
  refine ⟨fun a b s r hs hr => isAncestorAt_of_built h hs hr, fun hshort => ?_⟩
  have hsearch := maxAntichainWeightAt_of_built h hshort
  exact ⟨hsearch, (tryMasks_eq stages).trans hsearch⟩

/-- Ten stages with every kind of branching: the last one is two links below the fifth. -/
theorem agrees_with_tree_reference :
    ∃ t, ofStages Sample.reference = .ok t ∧ t.isAncestorAt 4 9 = .ok true ∧
      isAncestorAt Sample.reference 4 9 = .ok true ∧
      (∃ looks, ClimbEnds Sample.reference (.ofNat 4) (some (.ofNat 8)) looks true) ∧
      tryMasks Sample.reference = .ok 10 := by
  obtain ⟨t, h, hanc, hmax⟩ : ∃ t, ofStages Sample.reference = .ok t ∧
      t.isAncestorAt 4 9 = .ok true ∧ t.maxAntichainWeight = 10 := ⟨_, rfl, rfl, rfl⟩
  obtain ⟨hkin, hweight⟩ := agrees_with_tree h
  obtain ⟨looks, answer, hends, hnames, htree⟩ := hkin 4 9 _ _ rfl rfl
  rw [hanc] at htree
  cases htree
  have hmasks := (hweight (by decide)).2
  rw [hmax] at hmasks
  exact ⟨t, h, hanc, hnames, ⟨looks, hends⟩, hmasks⟩

end Exhaustive

end LifetimeArena
