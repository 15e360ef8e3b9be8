import LifetimeArena.Proofs.BufferTree.Antichain
import LifetimeArena.Proofs.Placement.BuiltIn
import Mathlib.Order.Interval.Finset.Nat

/-!
# Worst fit is optimal

No correct layout needs less room than the heaviest antichain, whoever found it
(`LaidOut.heaviestAntichain_le`). Worst fit needs no more: wherever it puts a buffer, the bytes
below it are those of a chain of finished subtrees, and such a chain is an antichain. Only the
padding for the alignment lies between the two bounds.

- `WellFormed.stop_le_heaviestAntichain`: the upper bound, padding included.
- `worstFit_of_sum_le`: worst fit does not fail if all buffers fit one after the other.
- `worstFit_optimal`: the two bounds together.
-/

namespace LifetimeArena

open Finset

namespace BufferTree

variable {t : BufferTree} {a : Nat}

/-! ## No layout needs less -/

/-- The buffers of an antichain share no byte of the arena. -/
theorem LaidOut.sum_weight_le {arena : Nat} (h : t.LaidOut arena) {s : Finset Nat}
    (hs : s ⊆ range t.size) (hanti : t.IsAntichain s) : ∑ i ∈ s, t.weight i ≤ arena := by
  have hplaced : ∀ i, ∃ o, i ∈ s → t.offset? i = some o := by
    intro i
    by_cases hi : i ∈ s
    · obtain ⟨o, ho, -⟩ := h.placed i (mem_range.1 (hs hi))
      exact ⟨o, fun _ => ho⟩
    · exact ⟨0, fun hmem => absurd hmem hi⟩
  choose offset hoffset using hplaced
  -- Counting bytes: the buffers are disjoint sets of them, all inside the arena.
  have hdisjoint : (s : Set Nat).PairwiseDisjoint
      fun i => Ico (offset i) (offset i + t.weight i) := by
    intro i hi j hj hne
    refine disjoint_left.2 fun x hix hjx => ?_
    obtain ⟨histart, histop⟩ := mem_Ico.1 hix
    obtain ⟨hjstart, hjstop⟩ := mem_Ico.1 hjx
    exact h.apart i j x (mem_range.1 (hs hi)) (mem_range.1 (hs hj)) (hanti i hi j hj hne)
      ⟨⟨_, hoffset i hi, histart, histop⟩, ⟨_, hoffset j hj, hjstart, hjstop⟩⟩
  have hinside : (s.biUnion fun i => Ico (offset i) (offset i + t.weight i)) ⊆ range arena := by
    intro x hx
    obtain ⟨i, hi, hix⟩ := mem_biUnion.1 hx
    have hstop := h.highest.2 ⟨i, offset i, hoffset i hi, rfl⟩
    exact mem_range.2 (Nat.lt_of_lt_of_le (mem_Ico.1 hix).2 hstop)
  calc ∑ i ∈ s, t.weight i
      = ∑ i ∈ s, #(Ico (offset i) (offset i + t.weight i)) :=
        sum_congr rfl fun i _ => by rw [Nat.card_Ico, Nat.add_sub_cancel_left]
    _ = #(s.biUnion fun i => Ico (offset i) (offset i + t.weight i)) :=
        (card_biUnion hdisjoint).symm
    _ ≤ #(range arena) := card_le_card hinside
    _ = arena := card_range arena

theorem LaidOut.heaviestAntichain_le {arena : Nat} (h : t.LaidOut arena) :
    t.heaviestAntichain t.weight ≤ arena :=
  heaviest_le fun _ hs hanti => h.sum_weight_le hs hanti

/-- Writing offsets does not change the heaviest antichain. -/
theorem heaviestAntichain_assign_le (offsets : Array Nat) (arena : Nat) :
    t.heaviestAntichain t.weight ≤
      (t.assign offsets arena).heaviestAntichain (t.assign offsets arena).weight := by
  refine heaviest_le fun s hs hanti => ?_
  have hanti' : (t.assign offsets arena).IsAntichain s := by
    intro u hu v hv hne
    rw [related_assign]
    exact hanti u hu v hv hne
  have hsum : ∑ i ∈ s, (t.assign offsets arena).weight i = ∑ i ∈ s, t.weight i :=
    sum_congr rfl fun i _ => weight_assign t offsets arena i
  rw [← size_assign t offsets arena] at hs
  rw [← hsum]
  exact sum_le_heaviest hs hanti'

theorem heaviestAntichain_le_sum (t : BufferTree) (w : Nat → Nat) :
    t.heaviestAntichain w ≤ ∑ i ∈ range t.size, w i :=
  heaviest_le fun _ hs _ => sum_le_sum_of_subset hs

/-! ## Worst fit needs no more -/

namespace WellFormed

variable (wf : t.WellFormed)
include wf

/-- A chain of finished subtrees is an antichain. -/
theorem isAntichain_of_isChain {s : Finset Nat} (hs : s ⊆ range t.size)
    (h : t.finishOrder.IsChain s) : t.IsAntichain s := by
  have hunrelated : ∀ {u v}, u ∈ s → v ∈ s → t.finishOrder.Under u v → ¬ t.Related u v := by
    intro u v hu hv hunder hrelated
    obtain ⟨hlt, hnot⟩ := (wf.under_finishOrder_iff (mem_range.1 (hs hu))).1 hunder
    rcases related_iff.1 hrelated with huv | hvu
    · exact hnot huv
    · -- A subtree is met after its root.
      have hle := ((wf.inSubtree_iff_rank (mem_range.1 (hs hv))).1 hvu).1
      omega
  intro u hu v hv hne
  rcases h u hu v hv hne with hunder | hunder
  · exact hunrelated hu hv hunder
  · exact fun hrelated => hunrelated hv hu hunder hrelated.symm

/-- Every buffer stops within the weight of some antichain, padding included. -/
theorem stop_le_heaviestAntichain (ha : 0 < a) {i : Nat} (hi : i < t.size) :
    t.finishOrder.stop t a i ≤ t.heaviestAntichain fun j => roundUp a (t.weight j) := by
  obtain ⟨s, hchain, -, hsub, hsum⟩ := StackOrder.exists_chain (o := t.finishOrder) (t := t) ha i
  have hs : s ⊆ range t.size := by
    intro u hu
    rcases mem_insert.1 (hsub hu) with rfl | hbelow
    · exact mem_range.2 hi
    · exact mem_range.2 (StackOrder.mem_below.1 hbelow).1
  calc t.finishOrder.stop t a i
      = t.finishOrder.offset t a i + t.weight i := rfl
    _ ≤ t.finishOrder.offset t a i + roundUp a (t.weight i) :=
        Nat.add_le_add_left (le_roundUp ha _) _
    _ = ∑ u ∈ s, roundUp a (t.weight u) := hsum
    _ ≤ t.heaviestAntichain fun j => roundUp a (t.weight j) :=
        sum_le_heaviest hs (wf.isAntichain_of_isChain hs hchain)

theorem arena_le_heaviestAntichain (ha : 0 < a) :
    t.finishOrder.arena t a ≤ t.heaviestAntichain fun j => roundUp a (t.weight j) :=
  Finset.sup_le fun _ hi => wf.stop_le_heaviestAntichain ha (mem_range.1 hi)

theorem heaviestAntichain_le_arena (ha : 0 < a)
    (hword : ∀ i, i < t.size → t.finishOrder.stop t a i ≤ wordMax) :
    t.heaviestAntichain t.weight ≤ t.finishOrder.arena t a :=
  Nat.le_trans (heaviestAntichain_assign_le _ _)
    (StackOrder.laidOut_solved wf ha wf.separates_finishOrder hword).heaviestAntichain_le

end WellFormed

end BufferTree

variable {t : BufferTree} {a : Nat}

/-- If all buffers fit into the word one after the other, worst fit finds a place for each. -/
theorem worstFit_of_sum_le (wf : t.WellFormed) (ha : a.isPowerOfTwo)
    (hsum : ∑ i ∈ range t.size, roundUp a (t.weight i) ≤ wordMax) :
    (∀ i, i < t.size → t.finishOrder.stop t a i ≤ wordMax) ∧
      worstFit t a = .ok (t.finishOrder.proposal t a) := by
  have hpos : 0 < a := Nat.pos_of_isPowerOfTwo ha
  have hstop : ∀ i, i < t.size → t.finishOrder.stop t a i ≤ wordMax := fun i hi =>
    calc t.finishOrder.stop t a i
        ≤ t.heaviestAntichain fun j => roundUp a (t.weight j) :=
          wf.stop_le_heaviestAntichain hpos hi
      _ ≤ ∑ j ∈ range t.size, roundUp a (t.weight j) := t.heaviestAntichain_le_sum _
      _ ≤ wordMax := hsum
  -- The root alone takes a whole multiple of the alignment.
  have hroot : a ≤ wordMax := by
    have hweight := wf.weight_pos t.root wf.size_pos
    have hround : a ≤ roundUp a (t.weight t.root) :=
      Nat.le_of_dvd (Nat.lt_of_lt_of_le hweight (le_roundUp hpos _)) (dvd_roundUp a _)
    have hterm : roundUp a (t.weight t.root) ≤ ∑ i ∈ range t.size, roundUp a (t.weight i) :=
      single_le_sum (f := fun i => roundUp a (t.weight i)) (fun _ _ => Nat.zero_le _)
        (mem_range.2 wf.size_pos)
    omega
  have hle : a ≤ wordMax + 1 := Nat.le_succ_of_le hroot
  exact ⟨hstop, (StrategyKind.worstFit.place_eq_ok_iff wf ha).2 ⟨hle, hstop, rfl⟩⟩

/-- A buffer that takes the whole arena starts where the arena does. -/
theorem BufferTree.LaidOut.offset_eq_zero {arena i : Nat} (h : t.LaidOut arena) (hi : i < t.size)
    (hweight : arena ≤ t.weight i) : t.offset? i = some 0 := by
  obtain ⟨o, ho, -⟩ := h.placed i hi
  have hstop : o + t.weight i ≤ arena := h.highest.2 ⟨i, o, ho, rfl⟩
  have hzero : o = 0 := by omega
  rw [ho, hzero]

/-- Where nothing is aligned, worst fit takes exactly the room of the heaviest antichain. To test
its layout or not makes no difference. -/
theorem Solver.solve_unaligned {stages : List Stage} (h : BufferTree.ofStages stages = .ok t) :
    ∃ offsets, (t.assign offsets t.maxAntichainWeight).LaidOut t.maxAntichainWeight ∧
      ∀ verify, (solve (ofSettings ⟨.worstFit, 1, verify⟩) t).result = .ok t.maxAntichainWeight ∧
        (solve (ofSettings ⟨.worstFit, 1, verify⟩) t).tree =
          t.assign offsets t.maxAntichainWeight := by
  have wf := BufferTree.ofStages_wellFormed h
  have hone : Nat.isPowerOfTwo 1 := ⟨0, rfl⟩
  have hexact : ∀ i, roundUp 1 (t.weight i) = t.weight i := fun i =>
    roundUp_of_dvd Nat.one_pos (Nat.one_dvd _)
  have hsum : ∑ i ∈ range t.size, roundUp 1 (t.weight i) ≤ wordMax := by
    rw [sum_congr rfl fun i _ => hexact i, ← wf.total_eq]
    exact wf.total_le
  obtain ⟨hword, hplace⟩ := worstFit_of_sum_le wf hone hsum
  have harena : t.finishOrder.arena t 1 = t.maxAntichainWeight := by
    have hupper := wf.arena_le_heaviestAntichain Nat.one_pos
    rw [funext hexact] at hupper
    rw [wf.maxAntichainWeight_eq]
    exact Nat.le_antisymm hupper (wf.heaviestAntichain_le_arena Nat.one_pos hword)
  have hlaid := StackOrder.laidOut_solved wf Nat.one_pos wf.separates_finishOrder hword
  have hcheck := BufferTree.LaidOut.check_eq_ok (wf.assign _ _) hlaid
  rw [← harena]
  refine ⟨_, hlaid, fun verify => ?_⟩
  have hsolve := solve_of_accepts (s := ofSettings ⟨.worstFit, 1, verify⟩)
    ⟨(BufferTree.ofStages_unsolved h).arenaSize, hone, hplace, StackOrder.size_proposal _ t 1,
      fun _ => hcheck⟩
  rw [hsolve]
  exact ⟨rfl, rfl⟩

/-- Worst fit finds a layout between the heaviest antichain and the heaviest antichain with padding.
Where the sizes need no padding it takes exactly the room that any layout must take. -/
theorem worstFit_optimal {stages : List Stage} (h : BufferTree.ofStages stages = .ok t)
    (ha : a.isPowerOfTwo) :
    (∑ i ∈ range t.size, roundUp a (t.weight i) ≤ wordMax →
      ∃ p, Strategy.worstFit.place t a = .ok p ∧
        t.heaviestAntichain t.weight ≤ p.arenaSize ∧
        p.arenaSize ≤ t.heaviestAntichain fun i => roundUp a (t.weight i)) ∧
    ((∀ i, i < t.size → a ∣ t.weight i) →
      ∃ p, Strategy.worstFit.place t a = .ok p ∧ p.arenaSize = t.maxAntichainWeight) := by
  have wf := BufferTree.ofStages_wellFormed h
  have hpos : 0 < a := Nat.pos_of_isPowerOfTwo ha
  have hbounds : ∑ i ∈ range t.size, roundUp a (t.weight i) ≤ wordMax →
      ∃ p, Strategy.worstFit.place t a = .ok p ∧
        t.heaviestAntichain t.weight ≤ p.arenaSize ∧
        p.arenaSize ≤ t.heaviestAntichain fun i => roundUp a (t.weight i) := by
    intro hsum
    obtain ⟨hword, hplace⟩ := worstFit_of_sum_le wf ha hsum
    exact ⟨_, hplace, wf.heaviestAntichain_le_arena hpos hword, wf.arena_le_heaviestAntichain hpos⟩
  refine ⟨hbounds, fun hdvd => ?_⟩
  -- Without padding the two bounds are the same, and the sum is the total of the tree.
  have hexact : ∀ i ∈ range t.size, roundUp a (t.weight i) = t.weight i := fun i hi =>
    roundUp_of_dvd hpos (hdvd i (mem_range.1 hi))
  have hsum : ∑ i ∈ range t.size, roundUp a (t.weight i) ≤ wordMax := by
    rw [sum_congr rfl hexact, ← wf.total_eq]
    exact wf.total_le
  obtain ⟨p, hplace, hlower, hupper⟩ := hbounds hsum
  refine ⟨p, hplace, ?_⟩
  rw [wf.maxAntichainWeight_eq]
  refine Nat.le_antisymm (Nat.le_trans hupper ?_) hlower
  exact (BufferTree.heaviest_congr hexact).le

/-- A root with two children of four bytes each, at an alignment of four. -/
theorem worstFit_optimal_star :
    ∃ t, BufferTree.ofStages (Sample.star 2 4) = .ok t ∧ t.maxAntichainWeight = 8 ∧
      ∃ p, Strategy.worstFit.place t 4 = .ok p ∧ p.arenaSize = 8 ∧
        t.heaviestAntichain t.weight ≤ 8 := by
  obtain ⟨t, h, hmax, hsum, hdvd⟩ : ∃ t, BufferTree.ofStages (Sample.star 2 4) = .ok t ∧
      t.maxAntichainWeight = 8 ∧ ∑ i ∈ range t.size, roundUp 4 (t.weight i) ≤ wordMax ∧
      ∀ i, i < t.size → 4 ∣ t.weight i := ⟨_, rfl, rfl, by decide, by decide⟩
  obtain ⟨hbounds, hexact⟩ := worstFit_optimal h (a := 4) ⟨2, rfl⟩
  obtain ⟨p, hp, hlower, -⟩ := hbounds hsum
  obtain ⟨q, hq, harena⟩ := hexact hdvd
  rw [hp] at hq
  cases hq
  rw [hmax] at harena
  exact ⟨t, h, hmax, p, hp, harena, harena ▸ hlower⟩

end LifetimeArena
