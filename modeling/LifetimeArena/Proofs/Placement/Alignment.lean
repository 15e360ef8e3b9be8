import LifetimeArena.Proofs.Placement.BuiltIn

/-!
# Aligned layouts

The alignment of the settings is handed to the strategy and nobody looks at it again: the test on a
layout knows bytes and kinship only. So a solved tree is aligned exactly if the strategy proposed
multiples of the alignment. The strategies of the library always do. A strategy of the caller's need
not, and then the misaligned layout is written into the tree although it was tested.

- `Placement.Aligned`, `BufferTree.Aligned`: every offset is a multiple of the alignment.
- `Solver.aligned_iff_of_ok`: which solved trees are aligned.
- `Solver.misaligned_layout_verified`: a tested layout that is not.
-/

namespace LifetimeArena

/-- Every proposed offset is a multiple of the alignment. -/
def Placement.Aligned (p : Placement) (a : Nat) : Prop := ∀ o ∈ p.offsets, a ∣ o

/-- Every node starts at a multiple of the alignment. -/
def BufferTree.Aligned (t : BufferTree) (a : Nat) : Prop :=
  ∀ i, i < t.size → ∃ o, t.offset? i = some o ∧ a ∣ o

namespace BufferTree

variable {t : BufferTree} {p : Placement} {a : Nat}

/-- Writing a proposal aligns the tree exactly if the proposal is aligned. -/
theorem aligned_assign_iff (h : p.offsets.size = t.size) :
    (t.assign p.offsets p.arenaSize).Aligned a ↔ p.Aligned a := by
  unfold Aligned Placement.Aligned
  rw [size_assign]
  constructor
  · intro haligned o ho
    obtain ⟨i, hi, rfl⟩ := Array.mem_iff_getElem.1 ho
    obtain ⟨o, hoffset, hdvd⟩ := haligned i (h ▸ hi)
    rw [offset?_assign h, Array.getElem?_eq_getElem hi] at hoffset
    cases hoffset
    exact hdvd
  · intro haligned i hi
    have hlt : i < p.offsets.size := h ▸ hi
    refine ⟨p.offsets[i], ?_, haligned _ (Array.getElem_mem hlt)⟩
    rw [offset?_assign h, Array.getElem?_eq_getElem hlt]

end BufferTree

theorem StackOrder.aligned_proposal (o : StackOrder) (t : BufferTree) (a : Nat) :
    (o.proposal t a).Aligned a := by
  intro x hx
  obtain ⟨i, rfl⟩ := Array.mem_ofFn.1 hx
  exact o.dvd_offset i

/-- The strategies of the library propose multiples of the alignment only. -/
theorem StrategyKind.aligned_of_place {t : BufferTree} (kind : StrategyKind) (wf : t.WellFormed)
    {a : Nat} (ha : a.isPowerOfTwo) {p : Placement} (h : kind.strategy.place t a = .ok p) :
    p.Aligned a := by
  obtain ⟨-, -, rfl⟩ := (kind.place_eq_ok_iff wf ha).1 h
  exact StackOrder.aligned_proposal _ t a

namespace Solver

variable {t : BufferTree} {s : Solver} {arena : Nat}

/-- A solved tree is aligned exactly if the strategy's proposal is, tested or not. With the
strategies of the library it always is. -/
theorem aligned_iff_of_ok (hreach : Reachable t) (h : (solve s t).result = .ok arena) :
    ((solve s t).tree.Aligned s.settings.alignment ↔
      ∃ p, s.strategy.place t s.settings.alignment = .ok p ∧ p.Aligned s.settings.alignment) ∧
    ((∃ kind : StrategyKind, s.strategy = kind.strategy) →
      (solve s t).tree.Aligned s.settings.alignment) := by
  obtain ⟨p, haccepts, -, htree⟩ := accepts_of_ok h
  have hiff : (solve s t).tree.Aligned s.settings.alignment ↔ p.Aligned s.settings.alignment := by
    rw [htree]
    exact BufferTree.aligned_assign_iff haccepts.complete
  refine ⟨hiff.trans ⟨fun hp => ⟨p, haccepts.proposed, hp⟩, ?_⟩, ?_⟩
  · rintro ⟨q, hq, haligned⟩
    rw [haccepts.proposed] at hq
    cases hq
    exact haligned
  · rintro ⟨kind, hkind⟩
    have hproposed := haccepts.proposed
    rw [hkind] at hproposed
    exact hiff.2 (kind.aligned_of_place hreach.wellFormed haccepts.aligned hproposed)

/-- A root with two children of three bytes each, at an alignment of sixteen. -/
theorem aligned_iff_of_ok_star :
    ∃ t, Reachable t ∧ (solve (ofSettings { alignment := 16 }) t).result = .ok 19 ∧
      (solve (ofSettings { alignment := 16 }) t).tree.Aligned 16 ∧
      (solve (ofSettings { alignment := 16 }) t).tree.offset? 2 = some 16 := by
  obtain ⟨t, hreach, hok, hoffset⟩ : ∃ t, Reachable t ∧
      (solve (ofSettings { alignment := 16 }) t).result = .ok 19 ∧
      (solve (ofSettings { alignment := 16 }) t).tree.offset? 2 = some 16 :=
    ⟨_, ⟨Sample.star 2 3, _, [], rfl, rfl⟩, rfl, rfl⟩
  exact ⟨t, hreach, hok, (aligned_iff_of_ok hreach hok).2 ⟨.worstFit, rfl⟩, hoffset⟩

/-- A strategy puts the only buffer at byte one. The layout passes the test and is written, although
the settings ask for multiples of 64. -/
theorem misaligned_layout_verified :
    ∃ t s, Reachable t ∧ s.settings.verify = true ∧ s.settings.alignment = 64 ∧
      (solve s t).result = .ok 5 ∧ (solve s t).tree.offset? 0 = some 1 ∧
      ¬ (solve s t).tree.Aligned s.settings.alignment := by
  refine ⟨_, ⟨{ alignment := 64, verify := true }, ⟨"skewed", fun _ _ => .ok ⟨#[1], 5⟩⟩⟩,
    ⟨[Sample.rootStage 4], _, [], rfl, rfl⟩, rfl, rfl, rfl, rfl, fun haligned => ?_⟩
  obtain ⟨o, ho, hdvd⟩ := haligned 0 (by decide)
  cases ho
  exact absurd hdvd (by decide)

end Solver

end LifetimeArena
