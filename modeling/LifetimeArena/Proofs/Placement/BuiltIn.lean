import LifetimeArena.Proofs.Placement.Sequential
import LifetimeArena.Proofs.Placement.Soundness
import LifetimeArena.Proofs.Placement.WorstFit

/-!
# The strategies of the library

Both orders by which the library's strategies stack put of any two unrelated buffers one under the
other. So the layouts are correct, the test on them has nothing to find, and the only thing that can
go wrong is that a buffer would stop beyond the word.

- `StackOrder.Separates`: what makes a stacking correct.
- `StackOrder.laidOut_solved`: the correctness of such a stacking.
- `StrategyKind.place_eq_ok_iff`: when a strategy of the library succeeds, and with what.
- `Solver.solve_ofSettings`: solving with the strategies of the library.
-/

namespace LifetimeArena

open Finset

namespace StackOrder

/-- Of any two unrelated nodes one lies under the other. -/
def Separates (o : StackOrder) (t : BufferTree) : Prop :=
  ∀ u v, u < t.size → v < t.size → ¬ t.Related u v → o.Under u v ∨ o.Under v u

variable {o : StackOrder} {t : BufferTree} {a : Nat}

theorem place_cases (wf : t.WellFormed) (o : StackOrder) (a : Nat) :
    (∃ i, i < t.size ∧ wordMax < o.stop t a i ∧
      o.place t a = .error (.overflow (t.stageAt i))) ∨
    (∀ i, i < t.size → o.stop t a i ≤ wordMax) ∧ o.place t a = .ok (o.proposal t a) := by
  unfold place
  cases hfind : t.preorder.find? (wordMax < o.stop t a ·) with
  | some i =>
    have hstop := List.find?_some hfind
    rw [decide_eq_true_iff] at hstop
    exact .inl ⟨i, wf.mem_preorder.1 (List.mem_of_find?_eq_some hfind), hstop, rfl⟩
  | none =>
    refine .inr ⟨fun i hi => ?_, rfl⟩
    have hnot := List.find?_eq_none.1 hfind i (wf.mem_preorder.2 hi)
    rw [decide_eq_true_iff] at hnot
    exact Nat.le_of_not_lt hnot

theorem size_proposal (o : StackOrder) (t : BufferTree) (a : Nat) :
    (o.proposal t a).offsets.size = t.size := Array.size_ofFn

theorem getElem?_proposal {i : Nat} (hi : i < t.size) :
    (o.proposal t a).offsets[i]? = some (o.offset t a i) := by
  rw [proposal, Array.getElem?_ofFn, dif_pos hi]

/-- What a proposal lists are the offsets of the stacking. -/
theorem getElem?_proposal_eq_some_iff {i x : Nat} :
    (o.proposal t a).offsets[i]? = some x ↔ i < t.size ∧ o.offset t a i = x := by
  constructor
  · intro hx
    have hi : i < t.size := by
      rw [← size_proposal o t a]
      exact (Array.getElem?_eq_some_iff.1 hx).1
    rw [getElem?_proposal hi] at hx
    exact ⟨hi, Option.some.inj hx⟩
  · rintro ⟨hi, rfl⟩
    exact getElem?_proposal hi

/-- The tree with the offsets of the stacking. -/
def solved (o : StackOrder) (t : BufferTree) (a : Nat) : BufferTree :=
  t.assign (o.proposal t a).offsets (o.arena t a)

theorem offset?_solved {i : Nat} (hi : i < t.size) :
    (o.solved t a).offset? i = some (o.offset t a i) := by
  rw [solved, BufferTree.offset?_assign (size_proposal o t a), getElem?_proposal hi]

theorem size_solved : (o.solved t a).size = t.size := BufferTree.size_assign _ _ _

theorem weight_solved (i : Nat) : (o.solved t a).weight i = t.weight i :=
  BufferTree.weight_assign _ _ _ i

theorem eq_offset_of_offset?_solved {i x : Nat} (h : (o.solved t a).offset? i = some x) :
    i < t.size ∧ x = o.offset t a i := by
  have hi : i < t.size := size_solved (o := o) (a := a) ▸ BufferTree.lt_size_of_offset? h
  rw [offset?_solved hi] at h
  exact ⟨hi, (Option.some.inj h).symm⟩

theorem covers_solved {i x : Nat} :
    (o.solved t a).Covers i x → o.offset t a i ≤ x ∧ x < o.stop t a i := by
  rintro ⟨y, hy, hstart, hstop⟩
  obtain ⟨-, rfl⟩ := eq_offset_of_offset?_solved hy
  rw [weight_solved] at hstop
  exact ⟨hstart, hstop⟩

theorem isGreatest_arena (hsize : 0 < t.size) :
    IsGreatest (o.solved t a).stops (o.arena t a) := by
  constructor
  · obtain ⟨i, hi, harena⟩ := exists_mem_eq_sup (range t.size) (nonempty_range_iff.2 hsize.ne')
      (o.stop t a)
    refine ⟨i, _, offset?_solved (mem_range.1 hi), ?_⟩
    rw [weight_solved]
    exact harena.symm
  · rintro x ⟨i, y, hy, rfl⟩
    obtain ⟨hi, rfl⟩ := eq_offset_of_offset?_solved hy
    rw [weight_solved]
    exact stop_le_arena hi

/-- A stacking that separates unrelated nodes is a correct layout, if it stays within the word. -/
theorem laidOut_solved (wf : t.WellFormed) (ha : 0 < a) (hsep : o.Separates t)
    (hword : ∀ i, i < t.size → o.stop t a i ≤ wordMax) :
    (o.solved t a).LaidOut (o.arena t a) where
  recorded := rfl
  placed := by
    intro i hi
    rw [size_solved] at hi
    refine ⟨_, offset?_solved hi, ?_⟩
    rw [weight_solved]
    exact hword i hi
  highest := isGreatest_arena wf.size_pos
  apart := by
    rintro i j x hi hj hunrelated ⟨hix, hjx⟩
    rw [size_solved] at hi hj
    rw [solved, BufferTree.related_assign] at hunrelated
    obtain ⟨histart, histop⟩ := covers_solved hix
    obtain ⟨hjstart, hjstop⟩ := covers_solved hjx
    -- One of the two stops before the other starts.
    rcases hsep i j hi hj hunrelated with hunder | hunder
    · have hle := stop_le_offset ha (mem_below.2 ⟨hi, hunder⟩)
      omega
    · have hle := stop_le_offset ha (mem_below.2 ⟨hj, hunder⟩)
      omega

end StackOrder

namespace BufferTree

variable {t : BufferTree} (wf : t.WellFormed)
include wf

theorem WellFormed.separates_finishOrder : t.finishOrder.Separates t := by
  intro u v hu hv hunrelated
  rw [related_iff, not_or] at hunrelated
  rw [wf.under_finishOrder_iff hu, wf.under_finishOrder_iff hv]
  rcases Nat.lt_trichotomy (t.rank u) (t.rank v) with hlt | heq | hgt
  · exact .inl ⟨hlt, hunrelated.1⟩
  · exact absurd (.inl (wf.rank_injective hu heq)) hunrelated.1
  · exact .inr ⟨hgt, hunrelated.2⟩

theorem WellFormed.separates_walkOrder : t.walkOrder.Separates t := by
  intro u v hu hv hunrelated
  refine Nat.lt_or_gt_of_ne fun heq => hunrelated (.inl ?_)
  exact wf.rank_injective hu heq

end BufferTree

/-! ## Alignments beyond the word -/

section

variable {t : BufferTree} (wf : t.WellFormed) {a : Nat} (ha : a.isPowerOfTwo)
  (hlt : wordMax + 1 < a)
include wf ha hlt

/-- Not even the ground can be aligned. -/
theorem worstFit_of_wordMax_lt : worstFit t a = .error (.overflow (t.stageAt t.root)) := by
  have hground : alignUp? 0 a = none := (alignUp?_eq_none_iff ha).2 (by omega)
  have hchoose : chooseOffset? [] 0 (t.weight t.root) a = none := by
    rw [← hground]
    exact (Packed.nil a).chooseOffset?_eq ha (wf.weight_pos _ wf.size_pos) 0
  have hplace : Packing.place t (SubtreeSpans.ofTree t) a (Packing.empty t) t.root =
      .error (.overflow (t.stageAt t.root)) := by
    unfold Packing.place Packing.choose?
    rw [show chooseOffset? ((Packing.empty t).obstacles _ t.root) (Packing.empty t).arenaSize
      (t.weight t.root) a = none from hchoose]
    rfl
  unfold worstFit
  dsimp only
  rw [wf.preorder_eq_subtree, wf.subtree_eq, List.foldlM_cons, hplace]
  rfl

theorem sequential_of_wordMax_lt : sequential t a = .error (.overflow (t.stageAt t.root)) := by
  have hground : alignUp? 0 a = none := (alignUp?_eq_none_iff ha).2 (by omega)
  have hplace : Row.place t a (Row.empty t) t.root = .error (.overflow (t.stageAt t.root)) := by
    unfold Row.place Row.next?
    rw [show alignUp? (Row.empty t).cursor a = none from hground]
    rfl
  unfold sequential
  rw [wf.preorder_eq_subtree, wf.subtree_eq, List.foldlM_cons, hplace]
  rfl

end

/-! ## Solving -/

namespace StrategyKind

/-- The order by which a strategy stacks. -/
def order : StrategyKind → BufferTree → StackOrder
  | .worstFit => BufferTree.finishOrder
  | .sequential => BufferTree.walkOrder

variable {t : BufferTree}

theorem separates_order (kind : StrategyKind) (wf : t.WellFormed) :
    (kind.order t).Separates t := by
  cases kind with
  | worstFit => exact wf.separates_finishOrder
  | sequential => exact wf.separates_walkOrder

/-- Up to the largest alignment of a word a strategy stacks by its order, failures included. -/
theorem place_eq_place (kind : StrategyKind) (wf : t.WellFormed) {a : Nat} (ha : a.isPowerOfTwo)
    (hle : a ≤ wordMax + 1) : kind.strategy.place t a = (kind.order t).place t a := by
  cases kind with
  | worstFit => exact worstFit_eq_place wf ha hle
  | sequential => exact sequential_eq_place wf ha hle

/-- Beyond that it has no place for the root. -/
theorem place_of_wordMax_lt (kind : StrategyKind) (wf : t.WellFormed) {a : Nat}
    (ha : a.isPowerOfTwo) (hlt : wordMax + 1 < a) :
    kind.strategy.place t a = .error (.overflow (t.stageAt t.root)) := by
  cases kind with
  | worstFit => exact worstFit_of_wordMax_lt wf ha hlt
  | sequential => exact sequential_of_wordMax_lt wf ha hlt

/-- A strategy of the library overflows or stacks. -/
theorem place_cases (kind : StrategyKind) (wf : t.WellFormed) {a : Nat} (ha : a.isPowerOfTwo) :
    (∃ stage, kind.strategy.place t a = .error (.overflow stage)) ∨
      (∀ i, i < t.size → (kind.order t).stop t a i ≤ wordMax) ∧
        kind.strategy.place t a = .ok ((kind.order t).proposal t a) := by
  by_cases hle : a ≤ wordMax + 1
  · rw [kind.place_eq_place wf ha hle]
    rcases StackOrder.place_cases wf (kind.order t) a with ⟨i, -, -, herror⟩ | hok
    · exact .inl ⟨t.stageAt i, herror⟩
    · exact .inr hok
  · exact .inl ⟨t.stageAt t.root, kind.place_of_wordMax_lt wf ha (Nat.lt_of_not_le hle)⟩

/-- A strategy of the library succeeds exactly if the alignment and all stops of its stacking are
within the word. -/
theorem place_eq_ok_iff (kind : StrategyKind) (wf : t.WellFormed) {a : Nat} (ha : a.isPowerOfTwo)
    {p : Placement} :
    kind.strategy.place t a = .ok p ↔
      a ≤ wordMax + 1 ∧ (∀ i, i < t.size → (kind.order t).stop t a i ≤ wordMax) ∧
        p = (kind.order t).proposal t a := by
  constructor
  · intro hp
    have hle : a ≤ wordMax + 1 := by
      by_contra hlt
      rw [kind.place_of_wordMax_lt wf ha (Nat.lt_of_not_le hlt)] at hp
      cases hp
    rcases kind.place_cases wf ha with ⟨stage, herror⟩ | ⟨hword, hok⟩
    · rw [hp] at herror
      cases herror
    · rw [hp] at hok
      cases hok
      exact ⟨hle, hword, rfl⟩
  · rintro ⟨hle, hword, rfl⟩
    rw [kind.place_eq_place wf ha hle]
    rcases StackOrder.place_cases wf (kind.order t) a with ⟨i, hi, hover, -⟩ | ⟨-, hok⟩
    · exact absurd (hword i hi) (Nat.not_le_of_lt hover)
    · exact hok

end StrategyKind

namespace Solver

/-- Solving a built tree with a strategy of the library never fails on the layout, so testing it
makes no difference. Either some buffer would stop beyond the word, or the offsets are aligned and
the layout is correct. -/
theorem solve_ofSettings {stages : List Stage} {t : BufferTree}
    (h : BufferTree.ofStages stages = .ok t) (kind : StrategyKind) {a : Nat}
    (ha : a.isPowerOfTwo) :
    (∀ verify verify' : Bool,
      solve (ofSettings ⟨kind, a, verify⟩) t = solve (ofSettings ⟨kind, a, verify'⟩) t) ∧
    ∀ verify : Bool,
      (∃ stage, (solve (ofSettings ⟨kind, a, verify⟩) t).result = .error (.overflow stage)) ∨
      ∃ arena, (solve (ofSettings ⟨kind, a, verify⟩) t).result = .ok arena ∧
        (solve (ofSettings ⟨kind, a, verify⟩) t).tree.LaidOut arena ∧
        ∀ i, i < t.size →
          ∃ o, (solve (ofSettings ⟨kind, a, verify⟩) t).tree.offset? i = some o ∧ a ∣ o := by
  have wf := BufferTree.ofStages_wellFormed h
  have hunsolved := (BufferTree.ofStages_unsolved h).arenaSize
  -- In both cases the whole outcome is known, and `verify` does not occur in it.
  rcases kind.place_cases wf ha with ⟨stage, hplace⟩ | ⟨hword, hplace⟩
  · have hsolve : ∀ verify : Bool, solve (ofSettings ⟨kind, a, verify⟩) t =
        { result := .error (.overflow stage), tree := t, events := [] } := fun verify =>
      solve_of_place_error (s := ofSettings ⟨kind, a, verify⟩) hunsolved ha hplace
    refine ⟨fun verify verify' => ?_, fun verify => .inl ⟨stage, ?_⟩⟩
    · exact (hsolve verify).trans (hsolve verify').symm
    · rw [hsolve]
  · have hpos : 0 < a := Nat.pos_of_isPowerOfTwo ha
    have hlaid := StackOrder.laidOut_solved wf hpos (kind.separates_order wf) hword
    have hcheck : ((kind.order t).solved t a).check = .ok () :=
      BufferTree.LaidOut.check_eq_ok (wf.assign _ _) hlaid
    have hsolve : ∀ verify : Bool, solve (ofSettings ⟨kind, a, verify⟩) t =
        { result := .ok ((kind.order t).arena t a)
          tree := (kind.order t).solved t a
          events := [report (ofSettings ⟨kind, a, true⟩) t ((kind.order t).arena t a)] } :=
      fun verify => solve_of_accepts (s := ofSettings ⟨kind, a, verify⟩)
        ⟨hunsolved, ha, hplace, StackOrder.size_proposal _ t a, fun _ => hcheck⟩
    refine ⟨fun verify verify' => ?_, fun verify => .inr ?_⟩
    · exact (hsolve verify).trans (hsolve verify').symm
    · rw [hsolve]
      refine ⟨_, rfl, hlaid, fun i hi => ?_⟩
      exact ⟨_, StackOrder.offset?_solved hi, StackOrder.dvd_offset i⟩

/-- A root with two children of three bytes each, at an alignment of four: with reuse the layout has
7 bytes, in a row 11. -/
theorem solve_ofSettings_star :
    ∃ t, BufferTree.ofStages (Sample.star 2 3) = .ok t ∧
      (solve (ofSettings ⟨.worstFit, 4, true⟩) t).tree.LaidOut 7 ∧
      (solve (ofSettings ⟨.sequential, 4, true⟩) t).tree.LaidOut 11 := by
  obtain ⟨t, h, hreuse, hrow⟩ : ∃ t, BufferTree.ofStages (Sample.star 2 3) = .ok t ∧
      (solve (ofSettings ⟨.worstFit, 4, true⟩) t).result = .ok 7 ∧
      (solve (ofSettings ⟨.sequential, 4, true⟩) t).result = .ok 11 := ⟨_, rfl, rfl, rfl⟩
  have hlaid : ∀ {kind arena}, (solve (ofSettings ⟨kind, 4, true⟩) t).result = .ok arena →
      (solve (ofSettings ⟨kind, 4, true⟩) t).tree.LaidOut arena := by
    intro kind arena hok
    rcases (solve_ofSettings h kind (a := 4) ⟨2, rfl⟩).2 true with
      ⟨stage, herr⟩ | ⟨arena', harena, hlaid, -⟩
    · rw [hok] at herr
      cases herr
    · rw [hok] at harena
      cases harena
      exact hlaid
  exact ⟨t, h, hlaid hreuse, hlaid hrow⟩

end Solver

end LifetimeArena
