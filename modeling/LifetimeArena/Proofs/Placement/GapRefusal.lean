import LifetimeArena.Proofs.Placement.Bump
import LifetimeArena.Proofs.Placement.GapChoice

/-!
# When the gap search has no answer

The search aligns the start of every gap and gives up at one that cannot be aligned within the word.
Such a gap begins less than one alignment below the end of the word, so there is no place behind the
obstacles, either. But a lower gap may take the buffer, and the search gives up all the same.

Worst fit never meets this. The obstacles that it passes on are packed, so the buffer fits nowhere
between them. What counts is the first aligned byte behind them, and if that is no word there is
no place for the buffer at all.

- `chooseOffset?_eq_none_iff`: when there is no answer, whatever the obstacles.
- `Packed.chooseOffset?_eq_none_iff`: when there is none for packed obstacles.
- `Packing.linedUp_obstacles`: what worst fit passes on is what the search asks for.
- `chooseOffset?_eq_none_cases`: no answer in general, and in the walk of worst fit.
- `no_offset_beside_fitting_gap`: no answer although a gap takes the buffer.
-/

namespace LifetimeArena

section

variable {obstacles : List Interval} {arenaSize weight alignment : Nat}

/-! ## Any obstacles -/

/-- What holds of the highest stop holds of the top of the search. -/
theorem exists_isGreatest_and_iff {P : Nat → Prop} :
    (∃ top, IsGreatest (insert 0 {x | ∃ r ∈ obstacles, r.stop = x}) top ∧ P top) ↔
      P (topOf obstacles) := by
  refine ⟨fun ⟨top, hgreatest, htop⟩ => ?_, fun htop => ⟨_, isGreatest_topOf obstacles, htop⟩⟩
  rwa [(isGreatest_topOf obstacles).unique hgreatest]

theorem LinedUp.givesUp_iff (hline : LinedUp obstacles arenaSize) (ha : alignment.isPowerOfTwo)
    (hle : alignment ≤ wordMax) :
    (gaps obstacles arenaSize).foldlM (considerGap weight alignment) none = none ↔
      ∃ g, IsGap obstacles 0 arenaSize g ∧ wordMax < roundUp alignment g.start := by
  rw [foldlM_considerGap_eq_none_iff]
  refine exists_congr fun g => and_congr hline.mem_gaps_iff ?_
  exact alignUp?_eq_none_iff_lt_roundUp ha (Nat.le_succ_of_le hle)

/-- There is no answer only if the top cannot be aligned within the word, and then exactly if no gap
takes the buffer or the start of some gap cannot be aligned, either. -/
theorem chooseOffset?_eq_none_iff (hline : LinedUp obstacles arenaSize)
    (hword : arenaSize ≤ wordMax) (ha : alignment.isPowerOfTwo) (hle : alignment ≤ wordMax) :
    chooseOffset? obstacles arenaSize weight alignment = none ↔
      (∃ top, IsGreatest (insert 0 {x | ∃ r ∈ obstacles, r.stop = x}) top ∧
        wordMax < roundUp alignment top) ∧
      ((∀ g, IsGap obstacles 0 arenaSize g → ¬ Takes weight alignment g) ∨
        ∃ g, IsGap obstacles 0 arenaSize g ∧ wordMax < roundUp alignment g.start) := by
  have hnone : ∀ v, alignUp? v alignment = none ↔ wordMax < roundUp alignment v := fun _ =>
    alignUp?_eq_none_iff_lt_roundUp ha (Nat.le_succ_of_le hle)
  rw [exists_isGreatest_and_iff]
  unfold chooseOffset?
  cases hrun : (gaps obstacles arenaSize).foldlM (considerGap weight alignment) none with
  | none =>
    -- The top lies at or above the start that cannot be aligned.
    obtain ⟨g, hg, hlt⟩ := (hline.givesUp_iff ha hle).1 hrun
    have hover := (alignUp?_eq_none_iff ha).1 ((hnone g.start).2 hlt)
    have hstart := hg.start_le_topOf
    have htoplt := (hnone _).1 ((alignUp?_eq_none_iff ha).2
      (show wordMax < topOf obstacles + (alignment - 1) by omega))
    exact ⟨fun _ => ⟨htoplt, .inr ⟨g, hg, hlt⟩⟩, fun _ => rfl⟩
  | some best =>
    have hgoesOn : ¬ ∃ g, IsGap obstacles 0 arenaSize g ∧ wordMax < roundUp alignment g.start :=
      fun h => by
        rw [(hline.givesUp_iff ha hle).2 h] at hrun
        cases hrun
    rw [or_iff_left hgoesOn]
    cases hline.remembers_gaps hword ha hrun with
    | nothing unfit =>
      have hall : ∀ g, IsGap obstacles 0 arenaSize g → ¬ Takes weight alignment g := fun g hg =>
        unfit g (hline.mem_gaps_iff.2 hg)
      rw [and_iff_left hall]
      exact hnone (topOf obstacles)
    | best isBest =>
      refine ⟨fun h => (nomatch h), fun h => ?_⟩
      exact absurd isBest.takes (h.2 _ (hline.mem_gaps_iff.1 isBest.mem))

/-! ## Packed obstacles -/

/-- Where the search finds no room in a gap within the word there is none. -/
theorem Unfit.not_takes {g : Interval} (h : Unfit weight alignment g)
    (ha : alignment.isPowerOfTwo) (hle : alignment ≤ wordMax) (hstop : g.stop ≤ wordMax) :
    ¬ Takes weight alignment g := by
  intro htakes
  have hreach : roundUp alignment g.start + weight ≤ g.stop := htakes
  have hround : roundUp alignment g.start ≤ wordMax := by omega
  have hfits : fitsBelow (roundUp alignment g.start) weight g.stop = true :=
    fitsBelow_iff.2 ⟨Nat.le_trans hreach hstop, hreach⟩
  rw [h _ (alignUp?_of_roundUp_le ha (Nat.le_succ_of_le hle) hround)] at hfits
  cases hfits

section

variable (h : Packed alignment obstacles) (hline : LinedUp obstacles arenaSize)
  (hword : arenaSize ≤ wordMax) (ha : alignment.isPowerOfTwo) (hle : alignment ≤ wordMax)
  (hweight : 0 < weight)
include h hline hword ha hle hweight

/-- No gap takes the buffer if the top of packed obstacles cannot be aligned within the word. -/
theorem Packed.not_takes (htop : wordMax < roundUp alignment (topOf obstacles)) {g : Interval}
    (hg : IsGap obstacles 0 arenaSize g) : ¬ Takes weight alignment g := by
  have hmem := hline.mem_gaps_iff.2 hg
  rw [gaps_eq, List.mem_append] at hmem
  rcases hmem with hinner | hbehind
  · exact (h.unfit ha hweight hinner).not_takes ha hle (Nat.le_trans hg.stop_le hword)
  · split at hbehind
    · -- The run behind the obstacles ends within the word, and starts to be aligned beyond it.
      rw [List.mem_singleton.1 hbehind]
      intro htakes
      have hreach : roundUp alignment (topOf obstacles) + weight ≤ arenaSize := htakes
      omega
    · cases hbehind

/-- Giving up early costs nothing where the obstacles are packed. -/
theorem Packed.chooseOffset?_eq_none_iff :
    chooseOffset? obstacles arenaSize weight alignment = none ↔
      (∃ top, IsGreatest (insert 0 {x | ∃ r ∈ obstacles, r.stop = x}) top ∧
        wordMax < roundUp alignment top) ∧
      ∀ g, IsGap obstacles 0 arenaSize g → ¬ Takes weight alignment g := by
  rw [LifetimeArena.chooseOffset?_eq_none_iff hline hword ha hle, exists_isGreatest_and_iff]
  refine and_congr_right fun htop => ?_
  have hall : ∀ g, IsGap obstacles 0 arenaSize g → ¬ Takes weight alignment g := fun _ hg =>
    h.not_takes hline hword ha hle hweight htop hg
  exact iff_of_true (.inl hall) hall

end

end

/-! ## The walk of worst fit -/

namespace Packing

variable {t : BufferTree} {a : Nat} {visited rest : List Nat} {i : Nat} {s : Packing}

/-- What a node must avoid is in order and lies in the arena. -/
theorem linedUp_obstacles (wf : t.WellFormed) (ha : 0 < a)
    (hwalk : t.preorder = visited ++ i :: rest) (hs : Matches t a visited s) :
    LinedUp (s.obstacles (SubtreeSpans.ofTree t) i) s.arenaSize where
  sorted := by
    unfold obstacles
    rw [List.pairwise_map]
    refine (hs.sorted.filter _).imp fun {p q} hbefore => ?_
    rcases hbefore with hstart | ⟨hstart, hstop⟩
    · exact .inl hstart
    · exact .inr ⟨hstart, by omega⟩
  start_lt_stop := (packed_obstacles wf ha hwalk hs).start_lt_stop
  stop_le := by
    intro r hr
    obtain ⟨p, hp, rfl⟩ := List.mem_map.1 hr
    obtain ⟨u, hu, rfl⟩ := (mem_taken_iff hs).1 (List.mem_filter.1 hp).1
    rw [hs.arenaSize]
    exact StackOrder.stop_le_reach hu

end Packing

/-- There is no answer exactly if the top of the obstacles cannot be aligned within the word and no
gap takes the buffer or the start of some gap cannot be aligned, either. Where the walk of worst fit
asks for an offset the last of these makes no difference: there is no answer exactly if no gap takes
the buffer and the top cannot be aligned. -/
theorem chooseOffset?_eq_none_cases {alignment : Nat} (ha : alignment.isPowerOfTwo)
    (hle : alignment ≤ wordMax) :
    (∀ obstacles arenaSize weight, LinedUp obstacles arenaSize → arenaSize ≤ wordMax →
      (chooseOffset? obstacles arenaSize weight alignment = none ↔
        (∃ top, IsGreatest (insert 0 {x | ∃ r ∈ obstacles, r.stop = x}) top ∧
          wordMax < roundUp alignment top) ∧
        ((∀ g, IsGap obstacles 0 arenaSize g → ¬ Takes weight alignment g) ∨
          ∃ g, IsGap obstacles 0 arenaSize g ∧ wordMax < roundUp alignment g.start))) ∧
    ∀ stages t visited i s obstacles, BufferTree.ofStages stages = .ok t →
      Packing.Arrives t alignment visited i s →
      s.obstacles (SubtreeSpans.ofTree t) i = obstacles →
      LinedUp obstacles s.arenaSize ∧ s.arenaSize ≤ wordMax ∧
      (chooseOffset? obstacles s.arenaSize (t.weight i) alignment = none ↔
        (∃ top, IsGreatest (insert 0 {x | ∃ r ∈ obstacles, r.stop = x}) top ∧
          wordMax < roundUp alignment top) ∧
        ∀ g, IsGap obstacles 0 s.arenaSize g → ¬ Takes (t.weight i) alignment g) := by
  refine ⟨fun obstacles arenaSize weight hline hword =>
    chooseOffset?_eq_none_iff hline hword ha hle, ?_⟩
  rintro stages t visited i s _ h harrives rfl
  have wf := BufferTree.ofStages_wellFormed h
  have hpos : 0 < alignment := Nat.pos_of_isPowerOfTwo ha
  have hs := harrives.stacked wf ha (Nat.le_succ_of_le hle)
  obtain ⟨rest, hwalk⟩ := harrives.order
  have hline := Packing.linedUp_obstacles wf hpos hwalk hs
  have hpacked := Packing.packed_obstacles wf hpos hwalk hs
  have hweight : 0 < t.weight i := wf.weight_pos i (wf.lt_size_of_split hwalk)
  exact ⟨hline, hs.word, hpacked.chooseOffset?_eq_none_iff hline hs.word ha hle hweight⟩

/-- A gap takes the byte, but there is one that starts too high. And three buffers of one byte that
must not share any, at an alignment of half the word: the third has no place. -/
theorem chooseOffset?_eq_none_cases_high :
    (∃ g, IsGap [⟨1, 18446744073709551613⟩] 0 wordMax g ∧ wordMax < roundUp 4 g.start) ∧
    ∃ t visited s, BufferTree.ofStages (Sample.star 3 1) = .ok t ∧
      Packing.Arrives t (1 <<< 63) visited 3 s ∧
      ∀ g, IsGap (s.obstacles (SubtreeSpans.ofTree t) 3) 0 s.arenaSize g →
        ¬ Takes (t.weight 3) (1 <<< 63) g := by
  have hline : LinedUp [⟨1, 18446744073709551613⟩] wordMax := ⟨by decide, by decide, by decide⟩
  have htakes : Takes 1 4 ⟨0, 1⟩ := by decide
  have hgap : IsGap [⟨1, 18446744073709551613⟩] 0 wordMax ⟨0, 1⟩ :=
    hline.mem_gaps_iff.1 (by decide)
  have hgives := ((@chooseOffset?_eq_none_cases 4 ⟨2, rfl⟩ (by decide)).1 _ _ 1 hline
    (Nat.le_refl _)).1 rfl
  obtain ⟨t, s, h, hwalk, hrun, hnone⟩ : ∃ t s,
      BufferTree.ofStages (Sample.star 3 1) = .ok t ∧ t.preorder = [0, 1, 2] ++ 3 :: [] ∧
      [0, 1, 2].foldlM (Packing.place t (SubtreeSpans.ofTree t) (1 <<< 63)) (.empty t) = .ok s ∧
      chooseOffset? (s.obstacles (SubtreeSpans.ofTree t) 3) s.arenaSize (t.weight 3) (1 <<< 63) =
        none := ⟨_, _, rfl, rfl, rfl, by decide +kernel⟩
  have harrives : Packing.Arrives t (1 <<< 63) [0, 1, 2] 3 s := ⟨⟨[], hwalk⟩, hrun⟩
  have hplace := (chooseOffset?_eq_none_cases ⟨63, rfl⟩ (by decide)).2 _ t _ 3 s _ h harrives rfl
  exact ⟨hgives.2.resolve_left fun hall => hall _ hgap htakes, t, _, s, h, harrives,
    (hplace.2.2.1 hnone).2⟩

/-- One free byte in front of an obstacle, two behind it at the end of the word, and four as the
alignment: the byte in front is aligned and free, and there is no answer. -/
theorem no_offset_beside_fitting_gap :
    LinedUp [⟨1, 18446744073709551613⟩] wordMax ∧
    chooseOffset? [⟨1, 18446744073709551613⟩] wordMax 1 4 = none ∧
    ∃ g, IsGap [⟨1, 18446744073709551613⟩] 0 wordMax g ∧ Takes 1 4 g := by
  have hline : LinedUp [⟨1, 18446744073709551613⟩] wordMax := ⟨by decide, by decide, by decide⟩
  exact ⟨hline, rfl, ⟨0, 1⟩, hline.mem_gaps_iff.1 (by decide), by decide⟩

end LifetimeArena
