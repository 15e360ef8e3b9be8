import LifetimeArena.Placement.Gap
import LifetimeArena.Proofs.Rounding

/-!
# The gap search

The free runs of an arena between sorted obstacles are the gaps in front of obstacles, which
`innerGaps` lists, and the run behind all of them. The search looks at the inner gaps first. When
none of them can take the buffer, its answer is the first aligned byte behind the last obstacle,
whether or not the arena goes on there (`chooseOffset?_of_inner_unfit`). That is so in particular
where the obstacles cover every aligned byte below their top (`Packed`): then no gap between them is
usable (`Packed.unfit`).
-/

namespace LifetimeArena

/-! ## The top of the obstacles -/

theorem foldl_stop_le_iff {l : List Interval} {top b : Nat} :
    l.foldl (fun top r => max top r.stop) top ≤ b ↔ top ≤ b ∧ ∀ r ∈ l, r.stop ≤ b := by
  induction l generalizing top with
  | nil => simp
  | cons s l ih => rw [List.foldl_cons, ih, Nat.max_le, List.forall_mem_cons, and_assoc]

/-- The top is the highest stop. -/
theorem topOf_le_iff {obstacles : List Interval} {b : Nat} :
    topOf obstacles ≤ b ↔ ∀ r ∈ obstacles, r.stop ≤ b := by
  rw [topOf, foldl_stop_le_iff]
  exact and_iff_right (Nat.zero_le b)

theorem le_topOf_of_mem {obstacles : List Interval} {r : Interval} (h : r ∈ obstacles) :
    r.stop ≤ topOf obstacles :=
  topOf_le_iff.1 (Nat.le_refl _) r h

/-! ## Inner gaps -/

/-- The free runs in front of obstacles, at or above `cursor`. -/
def innerGaps (cursor : Nat) : List Interval → List Interval
  | [] => []
  | r :: rest =>
    let above := innerGaps (max cursor r.stop) rest
    if cursor < r.start then ⟨cursor, r.start⟩ :: above else above

theorem gapsFrom_eq (arenaSize : Nat) (l : List Interval) (cursor : Nat) :
    gapsFrom arenaSize cursor l =
      innerGaps cursor l ++
        if l.foldl (fun top r => max top r.stop) cursor < arenaSize then
          [⟨l.foldl (fun top r => max top r.stop) cursor, arenaSize⟩] else [] := by
  induction l generalizing cursor with
  | nil => rfl
  | cons r rest ih =>
    rw [gapsFrom, innerGaps, ih, List.foldl_cons]
    split
    · rfl
    · rfl

/-- The free runs are the inner gaps and what the arena has behind the obstacles. -/
theorem gaps_eq (obstacles : List Interval) (arenaSize : Nat) :
    gaps obstacles arenaSize =
      innerGaps 0 obstacles ++
        if topOf obstacles < arenaSize then [⟨topOf obstacles, arenaSize⟩] else [] :=
  gapsFrom_eq arenaSize obstacles 0

/-- The order in which the search takes the obstacles. -/
def ByStart (obstacles : List Interval) : Prop :=
  obstacles.Pairwise fun r s => r.start ≤ s.start

/-- An inner gap ends at an obstacle and touches none. -/
theorem mem_innerGaps {obstacles : List Interval} (hsorted : ByStart obstacles) {g : Interval}
    {cursor : Nat} (hg : g ∈ innerGaps cursor obstacles) :
    cursor ≤ g.start ∧ g.start < g.stop ∧ (∃ r ∈ obstacles, g.stop = r.start) ∧
      ∀ r ∈ obstacles, r.stop ≤ g.start ∨ g.stop ≤ r.start := by
  induction obstacles generalizing cursor with
  | nil => cases hg
  | cons s rest ih =>
    obtain ⟨hs, hrest⟩ := List.pairwise_cons.1 hsorted
    -- Either the gap ends at the first obstacle or it lies above it.
    have hcases : (cursor < s.start ∧ g = ⟨cursor, s.start⟩) ∨
        g ∈ innerGaps (max cursor s.stop) rest := by
      rw [innerGaps] at hg
      split at hg
      · next hlt =>
        rcases List.mem_cons.1 hg with rfl | hg
        · exact .inl ⟨hlt, rfl⟩
        · exact .inr hg
      · exact .inr hg
    rcases hcases with ⟨hlt, rfl⟩ | hg
    · refine ⟨Nat.le_refl cursor, hlt, ⟨s, List.mem_cons_self .., rfl⟩, fun r hr => .inr ?_⟩
      rcases List.mem_cons.1 hr with rfl | hr
      · exact Nat.le_refl _
      · exact hs r hr
    · obtain ⟨hcursor, hne, ⟨r, hr, hstop⟩, hapart⟩ := ih hrest hg
      refine ⟨by omega, hne, ⟨r, List.mem_cons_of_mem s hr, hstop⟩, fun p hp => ?_⟩
      rcases List.mem_cons.1 hp with rfl | hp
      · exact .inl (by omega)
      · exact hapart p hp

/-! ## Gaps that take nothing -/

theorem fitsBelow_iff {start weight stop : Nat} :
    fitsBelow start weight stop = true ↔ start + weight ≤ wordMax ∧ start + weight ≤ stop := by
  unfold fitsBelow
  split
  · next reach hreach =>
    obtain ⟨rfl, hword⟩ := addWord?_eq_some_iff.1 hreach
    simp [hword]
  · next hnone =>
    have hword := addWord?_eq_none_iff.1 hnone
    simp only [Bool.false_eq_true, false_iff]
    omega

/-- The gap cannot take `weight` bytes from its first aligned byte, if it has one. -/
def Unfit (weight alignment : Nat) (g : Interval) : Prop :=
  ∀ start, alignUp? g.start alignment = some start → fitsBelow start weight g.stop = false

/-- Gaps that cannot take the buffer change nothing, unless one of them starts so high that its
start cannot be aligned. -/
theorem foldlM_considerGap_of_unfit {weight alignment : Nat} {gs : List Interval}
    (h : ∀ g ∈ gs, Unfit weight alignment g) :
    gs.foldlM (considerGap weight alignment) none = some none ∨
      gs.foldlM (considerGap weight alignment) none = none ∧
        ∃ g ∈ gs, alignUp? g.start alignment = none := by
  induction gs with
  | nil => exact .inl rfl
  | cons g gs ih =>
    rw [List.foldlM_cons, considerGap]
    cases hstart : alignUp? g.start alignment with
    | none => exact .inr ⟨rfl, g, List.mem_cons_self .., hstart⟩
    | some start =>
      rw [Option.map_some, h g (List.mem_cons_self ..) start hstart, Bool.false_and,
        if_neg Bool.false_ne_true]
      rcases ih fun g hg => h g (List.mem_cons_of_mem _ hg) with hrest | ⟨hrest, g', hg', hnone⟩
      · exact .inl hrest
      · exact .inr ⟨hrest, g', List.mem_cons_of_mem _ hg', hnone⟩

/-- The run behind the obstacles is taken from its first aligned byte, as the bytes beyond the arena
would be. -/
theorem choice_behind (top arenaSize weight alignment : Nat) :
    (match (if top < arenaSize then [(⟨top, arenaSize⟩ : Interval)] else []).foldlM
        (considerGap weight alignment) none with
      | none => none
      | some (some fit) => some fit.start
      | some none => alignUp? top alignment) = alignUp? top alignment := by
  by_cases hlt : top < arenaSize
  · rw [if_pos hlt, List.foldlM_cons, considerGap]
    cases hstart : alignUp? top alignment with
    | none => rfl
    | some start =>
      by_cases hfits : fitsBelow start weight arenaSize = true
      · simp [hfits]
      · simp [hfits]
  · rw [if_neg hlt]
    rfl

/-- Without an inner gap that takes the buffer it goes behind the last obstacle. -/
theorem chooseOffset?_of_inner_unfit {obstacles : List Interval} {arenaSize weight alignment : Nat}
    (ha : alignment.isPowerOfTwo) (htop : ∀ g ∈ innerGaps 0 obstacles, g.start ≤ topOf obstacles)
    (h : ∀ g ∈ innerGaps 0 obstacles, Unfit weight alignment g) :
    chooseOffset? obstacles arenaSize weight alignment = alignUp? (topOf obstacles) alignment := by
  unfold chooseOffset?
  rw [gaps_eq, List.foldlM_append]
  rcases foldlM_considerGap_of_unfit h with hfold | ⟨hfold, g, hg, hnone⟩
  · rw [hfold]
    exact choice_behind (topOf obstacles) arenaSize weight alignment
  · -- A start that cannot be aligned lies below the top, which cannot be aligned either.
    have hle := htop g hg
    have hover := (alignUp?_eq_none_iff ha).1 hnone
    have hgoal : alignUp? (topOf obstacles) alignment = none :=
      (alignUp?_eq_none_iff ha).2 (by omega)
    rw [hfold, hgoal]
    rfl

/-! ## Packed obstacles -/

/-- Sorted obstacles that cover every aligned byte below their top. -/
structure Packed (alignment : Nat) (obstacles : List Interval) : Prop where
  sorted : ByStart obstacles
  start_lt_stop : ∀ r ∈ obstacles, r.start < r.stop
  cover : ∀ m, alignment ∣ m → m < topOf obstacles → ∃ r ∈ obstacles, m ∈ r

namespace Packed

variable {obstacles : List Interval} {alignment weight : Nat}

theorem nil (alignment : Nat) : Packed alignment [] where
  sorted := .nil
  start_lt_stop := fun _ h => nomatch h
  cover := fun _ _ h => absurd h (Nat.not_lt_zero _)

theorem stop_lt_topOf (h : Packed alignment obstacles) {g : Interval}
    (hg : g ∈ innerGaps 0 obstacles) : g.stop < topOf obstacles := by
  obtain ⟨-, -, ⟨r, hr, hstop⟩, -⟩ := mem_innerGaps h.sorted hg
  have hlt := h.start_lt_stop r hr
  have hle := le_topOf_of_mem hr
  omega

/-- Packed obstacles leave no usable gap between them. -/
theorem unfit (h : Packed alignment obstacles) (ha : alignment.isPowerOfTwo) (hweight : 0 < weight)
    {g : Interval} (hg : g ∈ innerGaps 0 obstacles) : Unfit weight alignment g := by
  intro start hstart
  obtain ⟨hround, -⟩ := (alignUp?_eq_some_iff ha).1 hstart
  have hle : g.start ≤ start := hround ▸ le_roundUp (Nat.pos_of_isPowerOfTwo ha) g.start
  -- A fit would start at an aligned byte inside the gap, which some obstacle covers.
  refine Bool.eq_false_iff.2 fun hfits => ?_
  have hlt := (fitsBelow_iff.1 hfits).2
  have htop := h.stop_lt_topOf hg
  obtain ⟨r, hr, hmem⟩ := h.cover start (hround ▸ dvd_roundUp alignment g.start) (by omega)
  obtain ⟨hrstart, hrstop⟩ := Interval.mem_iff.1 hmem
  rcases (mem_innerGaps h.sorted hg).2.2.2 r hr with hapart | hapart
  · omega
  · omega

/-- The search goes behind packed obstacles. -/
theorem chooseOffset?_eq (h : Packed alignment obstacles) (ha : alignment.isPowerOfTwo)
    (hweight : 0 < weight) (arenaSize : Nat) :
    chooseOffset? obstacles arenaSize weight alignment = alignUp? (topOf obstacles) alignment := by
  refine chooseOffset?_of_inner_unfit ha (fun g hg => ?_) fun g hg => h.unfit ha hweight hg
  have hlt := (mem_innerGaps h.sorted hg).2.1
  have hstop := h.stop_lt_topOf hg
  omega

end Packed

end LifetimeArena
