import LifetimeArena.Exhaustive
import Mathlib.Data.Finset.Basic
import Mathlib.Data.List.Nodup
import Mathlib.Data.Nat.Bitwise
import Mathlib.Order.Bounds.Basic

/-!
# Trying every set of stages

The exhaustive search goes through the positions of a list once. It leaves a position out or puts it
to those chosen before, unless it is related to one of them. The plain way is to count through the
masks with one bit for each position and to look at the set of every mask. Both find the largest
weight of a set of pairwise unrelated positions, and both meet a sum that is no word exactly if that
weight is none.

- `Exhaustive.antichainWeights`: the weights of the sets that count.
- `Exhaustive.isGreatest_maxAntichainWeight`: the search finds the largest of them.
- `Exhaustive.tryMasks_eq`: the search mask by mask has the same answers and the same faults.
-/

namespace LifetimeArena

namespace Exhaustive

variable {stages : List Stage}

/-- No two of the positions are related. -/
def Unrelated (stages : List Stage) (l : List Nat) : Prop :=
  l.Pairwise fun a b => related stages a b = false

/-- The weight of the positions together. -/
def sumWeights (stages : List Stage) (l : List Nat) : Nat := (l.map (weight stages)).sum

/-- The weights of the sets of pairwise unrelated positions. A set is listed in ascending order. -/
def antichainWeights (stages : List Stage) : Set Nat :=
  {w | ∃ l, l.Sublist (List.range stages.length) ∧ Unrelated stages l ∧ sumWeights stages l = w}

/-! ## Position by position -/

/-- The positions of `l` may join the chosen ones: no two positions clash that are put together. -/
structure Joins (clash : Nat → Nat → Bool) (chosen l : List Nat) : Prop where
  chosen : ∀ c ∈ chosen, ∀ i ∈ l, clash c i = false
  pairwise : l.Pairwise fun i j => clash i j = false

section

variable {clash : Nat → Nat → Bool} {chosen l : List Nat} {i : Nat}

theorem joins_nil : Joins clash chosen [] := ⟨fun _ _ _ hi => (nomatch hi), .nil⟩

theorem joins_nil_iff : Joins clash [] l ↔ l.Pairwise fun i j => clash i j = false :=
  ⟨Joins.pairwise, fun h => ⟨nofun, h⟩⟩

/-- Several positions may join if the first may, and the others after it. -/
theorem joins_cons_iff :
    Joins clash chosen (i :: l) ↔ chosen.any (clash · i) = false ∧ Joins clash (i :: chosen) l := by
  rw [List.any_eq_false]
  constructor
  · rintro ⟨hchosen, hpairwise⟩
    obtain ⟨hi, hl⟩ := List.pairwise_cons.1 hpairwise
    refine ⟨fun c hc => ?_, fun c hc j hj => ?_, hl⟩
    · rw [hchosen c hc i (List.mem_cons_self ..)]
      exact Bool.false_ne_true
    · rcases List.mem_cons.1 hc with rfl | hc
      · exact hi j hj
      · exact hchosen c hc j (List.mem_cons_of_mem i hj)
  · rintro ⟨hi, hchosen, hl⟩
    refine ⟨fun c hc j hj => ?_, List.pairwise_cons.2 ⟨hchosen i (List.mem_cons_self ..), hl⟩⟩
    rcases List.mem_cons.1 hj with rfl | hj
    · exact Bool.eq_false_iff.2 (hi c hc)
    · exact hchosen c (List.mem_cons_of_mem i hc) j hj

/-- The search finds the largest weight that the chosen positions have together with some of the
remaining ones that may join them. -/
theorem isGreatest_heaviest (clash : Nat → Nat → Bool) (weight : Nat → Nat) (rest : List Nat) :
    ∀ chosen sum, IsGreatest
      {w | ∃ l, l.Sublist rest ∧ Joins clash chosen l ∧ sum + (l.map weight).sum = w}
      (heaviest clash weight chosen sum rest) := by
  induction rest with
  | nil =>
    intro chosen sum
    refine ⟨⟨[], .slnil, joins_nil, Nat.add_zero sum⟩, ?_⟩
    rintro w ⟨l, hl, -, rfl⟩
    rw [List.sublist_nil.1 hl]
    exact Nat.le_refl sum
  | cons i rest ih =>
    intro chosen sum
    rw [heaviest]
    obtain ⟨⟨l, hl, hjoins, hsum⟩, hupper⟩ := ih chosen sum
    split
    · next hclash =>
      -- The position clashes with a chosen one, so every set leaves it out.
      refine ⟨⟨l, hl.cons i, hjoins, hsum⟩, ?_⟩
      rintro w ⟨l', hl', hjoins', rfl⟩
      rcases List.sublist_cons_iff.1 hl' with hout | ⟨m, rfl, hm⟩
      · exact hupper ⟨l', hout, hjoins', rfl⟩
      · rw [(joins_cons_iff.1 hjoins').1] at hclash
        cases hclash
    · next hclash =>
      rw [Bool.not_eq_true] at hclash
      obtain ⟨⟨k, hk, hkjoins, hksum⟩, hkupper⟩ := ih (i :: chosen) (sum + weight i)
      constructor
      · rcases Nat.le_total (heaviest clash weight chosen sum rest)
          (heaviest clash weight (i :: chosen) (sum + weight i) rest) with hle | hle
        · refine ⟨i :: k, hk.cons_cons i, joins_cons_iff.2 ⟨hclash, hkjoins⟩, ?_⟩
          rw [Nat.max_eq_right hle, ← hksum, List.map_cons, List.sum_cons, Nat.add_assoc]
        · refine ⟨l, hl.cons i, hjoins, ?_⟩
          rw [Nat.max_eq_left hle, hsum]
      · rintro w ⟨l', hl', hjoins', rfl⟩
        rcases List.sublist_cons_iff.1 hl' with hout | ⟨m, rfl, hm⟩
        · exact Nat.le_trans (hupper ⟨l', hout, hjoins', rfl⟩) (Nat.le_max_left _ _)
        · refine Nat.le_trans (hkupper ⟨m, hm, (joins_cons_iff.1 hjoins').2, ?_⟩)
            (Nat.le_max_right _ _)
          rw [List.map_cons, List.sum_cons, Nat.add_assoc]

end

theorem entry_relatedTable {a b : Nat} (ha : a < stages.length) (hb : b < stages.length) :
    entry (relatedTable stages) a b = related stages a b := by
  simp [entry, relatedTable, ha, hb]

/-- The search finds the heaviest set of pairwise unrelated positions. -/
theorem isGreatest_maxAntichainWeight (stages : List Stage) :
    IsGreatest (antichainWeights stages) (maxAntichainWeight stages) := by
  have hsets : antichainWeights stages =
      {w | ∃ l, l.Sublist (List.range stages.length) ∧
        Joins (entry (relatedTable stages)) [] l ∧ 0 + (l.map (weight stages)).sum = w} := by
    ext w
    refine exists_congr fun l => and_congr_right fun hl => ?_
    have hlt : ∀ {i}, i ∈ l → i < stages.length := fun hi => List.mem_range.1 (hl.subset hi)
    rw [joins_nil_iff, Nat.zero_add]
    refine and_congr_left fun _ => List.Pairwise.iff_of_mem fun {a b} ha hb => ?_
    rw [entry_relatedTable (hlt ha) (hlt hb)]
  rw [hsets]
  exact isGreatest_heaviest ..

/-! ## Mask by mask -/

theorem unrelated_iff {l : List Nat} : unrelated stages l = true ↔ Unrelated stages l := by
  unfold Unrelated
  induction l with
  | nil => exact ⟨fun _ => .nil, fun _ => rfl⟩
  | cons a rest ih =>
    rw [unrelated, Bool.and_eq_true, List.all_eq_true, ih, List.pairwise_cons]
    simp only [Bool.not_eq_true']

/-! ### Sets and masks -/

/-- A part of a list without repetition is found by asking for its elements. -/
theorem filter_mem_of_sublist {l m : List Nat} (h : l.Sublist m) (hm : m.Nodup) :
    m.filter (· ∈ l) = l := by
  induction h with
  | slnil => rfl
  | cons a hsub ih =>
    obtain ⟨ha, hnodup⟩ := List.nodup_cons.1 hm
    rw [List.filter_cons_of_neg (by simpa using fun hmem => ha (hsub.subset hmem)), ih hnodup]
  | @cons_cons l m a hsub ih =>
    obtain ⟨ha, hnodup⟩ := List.nodup_cons.1 hm
    have hrest : m.filter (· ∈ a :: l) = m.filter (· ∈ l) := by
      refine List.filter_congr fun x hx => decide_eq_decide.2 ?_
      rw [List.mem_cons, or_iff_right]
      rintro rfl
      exact ha hx
    rw [List.filter_cons_of_pos (by simp), hrest, ih hnodup]

/-- Every set of positions has a mask. -/
theorem exists_members {n : Nat} {l : List Nat} (h : l.Sublist (List.range n)) :
    ∃ mask < 2 ^ n, members n mask = l := by
  refine ⟨Nat.ofBits fun i : Fin n => decide (i.val ∈ l), Nat.ofBits_lt_two_pow _, ?_⟩
  rw [← filter_mem_of_sublist h List.nodup_range]
  refine List.filter_congr fun i hi => ?_
  rw [Nat.testBit_ofBits_lt _ i (List.mem_range.1 hi), filter_mem_of_sublist h List.nodup_range]

theorem members_zero (n : Nat) : members n 0 = [] := by
  simp [members]

/-! ### The loop -/

theorem foldlM_addWord (l : List Nat) {sum : Nat} (h : sum ≤ wordMax) :
    l.foldlM (fun sum i => addWord sum (weight stages i)) sum =
      if sum + sumWeights stages l ≤ wordMax then .ok (sum + sumWeights stages l)
      else .error .sumAboveWord := by
  induction l generalizing sum with
  | nil => exact (if_pos h).symm
  | cons i l ih =>
    have hsum : sum + sumWeights stages (i :: l) =
        sum + weight stages i + sumWeights stages l := by
      rw [sumWeights, List.map_cons, List.sum_cons, ← Nat.add_assoc]
      rfl
    rw [List.foldlM_cons, hsum]
    by_cases hle : sum + weight stages i ≤ wordMax
    · rw [addWord, if_pos hle, ← ih hle]
      rfl
    · rw [addWord, if_neg hle, if_neg (by omega)]
      rfl

theorem tryMask_eq (stages : List Stage) (best mask : Nat) :
    tryMask stages best mask =
      if unrelated stages (members stages.length mask) then
        if sumWeights stages (members stages.length mask) ≤ wordMax then
          .ok (max best (sumWeights stages (members stages.length mask)))
        else .error .sumAboveWord
      else .ok best := by
  unfold tryMask
  dsimp only
  rw [foldlM_addWord _ (Nat.zero_le wordMax), Nat.zero_add]
  split
  · split <;> rfl
  · rfl

/-- The weights of the sets of the masks that have no two related positions. -/
def weightsOf (stages : List Stage) (masks : List Nat) : List Nat :=
  (masks.filter fun mask => unrelated stages (members stages.length mask)).map
    fun mask => sumWeights stages (members stages.length mask)

/-- The largest of some numbers. -/
theorem isGreatest_foldl_max (l : List Nat) (best : Nat) :
    IsGreatest {w | w ∈ best :: l} (l.foldl max best) := by
  induction l generalizing best with
  | nil => exact ⟨List.mem_singleton.2 rfl, fun w hw => (List.mem_singleton.1 hw).le⟩
  | cons x l ih =>
    obtain ⟨hmem, hupper⟩ := ih (max best x)
    refine ⟨?_, fun w hw => ?_⟩
    · rcases List.mem_cons.1 hmem with heq | hl
      · rw [List.foldl_cons, heq]
        rcases max_choice best x with h | h <;> rw [h] <;> simp
      · exact List.mem_cons_of_mem _ (List.mem_cons_of_mem _ hl)
    · have hbest : max best x ≤ l.foldl max (max best x) := hupper (List.mem_cons_self ..)
      rcases List.mem_cons.1 hw with rfl | hw
      · exact Nat.le_trans (Nat.le_max_left _ _) hbest
      · rcases List.mem_cons.1 hw with rfl | hw
        · exact Nat.le_trans (Nat.le_max_right _ _) hbest
        · exact hupper (List.mem_cons_of_mem _ hw)

/-- The loop over some masks finds the largest weight, unless that is no word. -/
theorem foldlM_tryMask (stages : List Stage) (masks : List Nat) {best : Nat}
    (h : best ≤ wordMax) :
    masks.foldlM (tryMask stages) best =
      if (weightsOf stages masks).foldl max best ≤ wordMax then
        .ok ((weightsOf stages masks).foldl max best)
      else .error .sumAboveWord := by
  induction masks generalizing best with
  | nil => exact (if_pos h).symm
  | cons mask masks ih =>
    rw [List.foldlM_cons, tryMask_eq, weightsOf, List.filter_cons]
    split
    · rw [List.map_cons, List.foldl_cons]
      split
      · next hword => exact ih (Nat.max_le.2 ⟨h, hword⟩)
      · next hword =>
        -- A weight that is no word is never outdone by one that is.
        have hmax := (isGreatest_foldl_max (weightsOf stages masks)
          (max best (sumWeights stages (members stages.length mask)))).2 (List.mem_cons_self ..)
        rw [if_neg]
        · rfl
        · exact fun hle => hword (Nat.le_trans (Nat.le_max_right _ _) (Nat.le_trans hmax hle))
    · exact ih h

/-- The masks stand for all sets but the empty one, which weighs nothing. -/
theorem mem_antichainWeights_iff {w : Nat} :
    w ∈ antichainWeights stages ↔
      w ∈ 0 :: weightsOf stages (List.range' 1 (2 ^ stages.length - 1)) := by
  rw [List.mem_cons, weightsOf, List.mem_map]
  constructor
  · rintro ⟨l, hl, hunrelated, rfl⟩
    obtain ⟨mask, hmask, rfl⟩ := exists_members hl
    rcases Nat.eq_zero_or_pos mask with rfl | hpos
    · exact .inl (by rw [members_zero]; rfl)
    · refine .inr ⟨mask, List.mem_filter.2 ⟨?_, unrelated_iff.2 hunrelated⟩, rfl⟩
      rw [List.mem_range'_1]
      omega
  · rintro (rfl | ⟨mask, hmask, rfl⟩)
    · exact ⟨[], List.nil_sublist _, .nil, rfl⟩
    · exact ⟨_, List.filter_sublist, unrelated_iff.1 (List.mem_filter.1 hmask).2, rfl⟩

/-- Trying mask by mask and trying position by position have the same outcome. -/
theorem tryMasks_eq (stages : List Stage) : tryMasks stages = maxAntichainWeightAt stages := by
  have hbest : (weightsOf stages (List.range' 1 (2 ^ stages.length - 1))).foldl max 0 =
      maxAntichainWeight stages := by
    refine (isGreatest_foldl_max _ 0).unique ?_
    have hgreatest := isGreatest_maxAntichainWeight stages
    rwa [show antichainWeights stages = _ from Set.ext fun _ => mem_antichainWeights_iff]
      at hgreatest
  unfold tryMasks maxAntichainWeightAt
  rw [Nat.one_shiftLeft, foldlM_tryMask stages _ (Nat.zero_le wordMax), hbest]
  split
  · rfl
  · split
    · rw [if_neg (by omega)]
    · rw [if_pos (by omega)]

end Exhaustive

end LifetimeArena
