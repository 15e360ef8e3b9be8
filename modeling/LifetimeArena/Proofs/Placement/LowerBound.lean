import LifetimeArena.Proofs.Placement.Optimality

/-!
# The lower bound

`BufferTree.maxAntichainWeight` is what no layout can do without, and it is known before anything is
placed. It is the weight of the heaviest antichain, so the buffers of that antichain lie beside each
other in every layout that passes the test, whoever proposed it. The pass that computes it adds
words only to words: in the middle of the pass the entry of a node is what the best sets below some
of its children add up to, and that is the weight of an antichain, too.

- `BufferTree.AddsWords`: no addition of the pass leaves the word.
- `BufferTree.antichainWeights`: the weights of the sets of pairwise unrelated nodes.
- `BufferTree.maxAntichainWeight_isGreatest`: what the pass computes, and that every tested layout
  needs as much.
-/

namespace LifetimeArena

open Finset

namespace BufferTree

/-- Whenever the pass from the leaves upwards adds the best weight below a node to the entry of its
parent, the sum is a word, and it is the new entry. -/
def AddsWords (t : BufferTree) : Prop :=
  ∀ visited i rest p, (List.range t.size).reverse = visited ++ i :: rest → t.parent? i = some p →
    addWord? ((t.sumsAfter visited).getD p 0) (t.bestBelow (t.sumsAfter visited) i) =
      some ((t.sumsAfter (visited ++ [i])).getD p 0)

/-- The weights of the sets of pairwise unrelated nodes. -/
def antichainWeights (t : BufferTree) : Set Nat :=
  {w | ∃ s ⊆ range t.size, t.IsAntichain s ∧ ∑ i ∈ s, t.weight i = w}

variable {t : BufferTree}

theorem isGreatest_heaviestAntichain :
    IsGreatest t.antichainWeights (t.heaviestAntichain t.weight) := by
  constructor
  · exact exists_heaviest t t.weight (range t.size)
  · rintro w ⟨s, hs, hanti, rfl⟩
    exact sum_le_heaviest hs hanti

/-- Writing offsets does not change the bound. -/
@[simp] theorem maxAntichainWeight_assign (offsets : Array Nat) (arena : Nat) :
    (t.assign offsets arena).maxAntichainWeight = t.maxAntichainWeight := by
  have hbest : (t.assign offsets arena).bestBelow = t.bestBelow := by
    funext sums i
    simp [bestBelow]
  have hcredit : (t.assign offsets arena).creditParent = t.creditParent := by
    funext sums i
    simp [creditParent, hbest]
  simp [maxAntichainWeight, childSums, hbest, hcredit, root]

namespace WellFormed

variable (wf : t.WellFormed)
include wf

theorem heaviestAntichain_le_total : t.heaviestAntichain t.weight ≤ t.totalWeight := by
  rw [wf.total_eq]
  exact t.heaviestAntichain_le_sum t.weight

/-- An antichain below a node is one of the whole tree. -/
theorem heaviestBelow_le_total {i : Nat} (hi : i < t.size) :
    t.heaviest t.weight (t.nodesBelow i) ≤ t.totalWeight := by
  have hsub : t.nodesBelow i ⊆ range t.size := by
    intro v hv
    rw [mem_range]
    rcases wf.mem_nodesBelow.1 hv with rfl | h
    · exact hi
    · exact wf.isAncestor_lt_size h
  refine Nat.le_trans (heaviest_le fun s hs hanti => ?_) wf.heaviestAntichain_le_total
  exact sum_le_heaviest (hs.trans hsub) hanti

/-- In the middle of the pass no entry weighs more than the whole tree. -/
theorem getD_sumsAfter_le_total {visited rest : List Nat}
    (hpass : (List.range t.size).reverse = visited ++ rest) {i : Nat} (hi : i < t.size) :
    (t.sumsAfter visited).getD i 0 ≤ t.totalWeight :=
  calc (t.sumsAfter visited).getD i 0
      = ∑ c ∈ (t.children i).toFinset with c ∈ visited, t.heaviest t.weight (t.nodesBelow c) :=
        wf.getD_sumsAfter hpass hi
    _ ≤ ∑ c ∈ (t.children i).toFinset, t.heaviest t.weight (t.nodesBelow c) :=
        sum_le_sum_of_subset (filter_subset _ _)
    _ ≤ t.heaviest t.weight (t.nodesBelow i) := by
        rw [wf.heaviestBelow_eq t.weight i]
        exact Nat.le_max_right _ _
    _ ≤ t.totalWeight := wf.heaviestBelow_le_total hi

theorem addsWords : t.AddsWords := by
  intro visited i rest p hpass hp
  have hpsize : p < t.size := Nat.lt_trans (wf.parent_lt hp) (lt_size_of_parent? hp)
  have hsize : p < (t.sumsAfter visited).size := by
    show p < (visited.foldl (t.credit fun c x => max (t.weight c) x) _).size
    rw [size_foldl_credit, Array.size_replicate]
    exact hpsize
  have hstep : (t.sumsAfter (visited ++ [i])).getD p 0 =
      (t.sumsAfter visited).getD p 0 + t.bestBelow (t.sumsAfter visited) i := by
    rw [sumsAfter, List.foldl_append]
    show (t.credit (fun c x => max (t.weight c) x) (t.sumsAfter visited) i).getD p 0 = _
    rw [getD_credit hsize, if_pos hp]
    rfl
  -- The sum is the entry after one more step, and that is the weight of an antichain, too.
  have hpass' : (List.range t.size).reverse = (visited ++ [i]) ++ rest :=
    hpass.trans (List.append_cons visited i rest)
  have hle := Nat.le_trans (wf.getD_sumsAfter_le_total hpass' hpsize) wf.total_le
  rw [addWord?_eq_some_iff, hstep]
  exact ⟨rfl, hstep ▸ hle⟩

end WellFormed

/-- The heaviest set of pairwise unrelated buffers weighs no more than all buffers, the pass that
finds it stays within the word, and no layout that passes the test is smaller. -/
theorem maxAntichainWeight_isGreatest {stages : List Stage} (h : ofStages stages = .ok t) :
    t.AddsWords ∧ t.maxAntichainWeight ≤ t.totalWeight ∧ t.totalWeight ≤ wordMax ∧
    IsGreatest t.antichainWeights t.maxAntichainWeight ∧
    ∀ calls, (Solver.run calls t).check = .ok () →
      ∃ arena, (Solver.run calls t).arenaSize = some arena ∧ t.maxAntichainWeight ≤ arena := by
  have wf := ofStages_wellFormed h
  refine ⟨wf.addsWords, ?_, wf.total_le, ?_, fun calls hcheck => ?_⟩
  · rw [wf.maxAntichainWeight_eq]
    exact wf.heaviestAntichain_le_total
  · rw [wf.maxAntichainWeight_eq]
    exact isGreatest_heaviestAntichain
  · have hreach : Solver.Reachable (Solver.run calls t) := ⟨stages, t, calls, h, rfl⟩
    obtain ⟨arena, hlaid⟩ := (check_eq_ok_iff hreach.wellFormed hreach.filled).1 hcheck
    refine ⟨arena, hlaid.recorded, ?_⟩
    have hbound := hlaid.heaviestAntichain_le
    rw [← hreach.wellFormed.maxAntichainWeight_eq] at hbound
    rcases Solver.run_cases calls t with hrun | ⟨p, -, hrun⟩
    · rwa [hrun] at hbound
    · rwa [hrun, maxAntichainWeight_assign] at hbound

/-- Ten stages with every kind of branching, of which the heaviest antichain is no level of the
tree. Placed one after the other they take all their eighteen bytes, and never less than ten. -/
theorem maxAntichainWeight_isGreatest_reference :
    ∃ t, ofStages Sample.reference = .ok t ∧ t.totalWeight = 18 ∧ IsGreatest t.antichainWeights 10 ∧
      ∃ arena, (Solver.run [Solver.ofSettings { strategy := .sequential }] t).arenaSize =
        some arena ∧ 10 ≤ arena := by
  obtain ⟨t, h, htotal, hmax, hcheck⟩ : ∃ t, ofStages Sample.reference = .ok t ∧
      t.totalWeight = 18 ∧ t.maxAntichainWeight = 10 ∧
      (Solver.run [Solver.ofSettings { strategy := .sequential }] t).check = .ok () :=
    ⟨_, rfl, rfl, rfl, rfl⟩
  obtain ⟨-, -, -, hgreatest, hbound⟩ := maxAntichainWeight_isGreatest h
  rw [hmax] at hgreatest hbound
  exact ⟨t, h, htotal, hgreatest, hbound _ hcheck⟩

end BufferTree

end LifetimeArena
