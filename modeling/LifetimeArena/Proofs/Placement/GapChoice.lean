import LifetimeArena.Proofs.Placement.FreeGaps

/-!
# What the gap search answers

The search keeps one gap in mind, the best of those that it has seen and that take the buffer
(`Remembers`). So an answer is what worst fit is said to be: the first aligned byte of the longest
gap that takes the buffer, of the lowest one if several are equally long, and the first aligned byte
behind all obstacles if no gap does.

- `Takes`, `IsBest`: the gap that a buffer should go into.
- `chooseOffset?_eq_some_cases`: the answer.
-/

namespace LifetimeArena

/-- The gap has `weight` bytes from its first aligned byte on. -/
def Takes (weight alignment : Nat) (g : Interval) : Prop :=
  roundUp alignment g.start + weight ≤ g.stop

instance (weight alignment : Nat) (g : Interval) : Decidable (Takes weight alignment g) :=
  inferInstanceAs (Decidable (_ ≤ _))

/-- Of the gaps in `s` that take the buffer this is the longest, and the lowest of the longest. -/
structure IsBest (weight alignment : Nat) (s : Set Interval) (g : Interval) : Prop where
  mem : g ∈ s
  takes : Takes weight alignment g
  preferred : ∀ h ∈ s, Takes weight alignment h →
    h.length < g.length ∨ h.length = g.length ∧ g.start ≤ h.start

/-- What the search has in mind after it has seen some gaps. -/
inductive Remembers (weight alignment : Nat) (seen : List Interval) : Option Fit → Prop where
  | nothing (unfit : ∀ g ∈ seen, ¬ Takes weight alignment g) : Remembers weight alignment seen none
  | best {g : Interval} (isBest : IsBest weight alignment {g | g ∈ seen} g) :
      Remembers weight alignment seen (some ⟨g.length, roundUp alignment g.start⟩)

section

variable {weight alignment : Nat} {seen : List Interval} {g : Interval}

/-! ## One gap more -/

theorem Remembers.append_unfit {best : Option Fit} (h : Remembers weight alignment seen best)
    (hg : ¬ Takes weight alignment g) : Remembers weight alignment (seen ++ [g]) best := by
  cases h with
  | nothing unfit =>
    refine .nothing fun k hk => ?_
    rcases List.mem_append.1 hk with hk | hk
    · exact unfit k hk
    · exact List.mem_singleton.1 hk ▸ hg
  | best isBest =>
    refine .best ⟨List.mem_append_left _ isBest.mem, isBest.takes, fun k hk htakes => ?_⟩
    rcases List.mem_append.1 hk with hk | hk
    · exact isBest.preferred k hk htakes
    · exact absurd (List.mem_singleton.1 hk ▸ htakes) hg

/-- A gap that takes the buffer takes the place of a shorter one. -/
theorem Remembers.append_longer {best : Option Fit} (h : Remembers weight alignment seen best)
    (hg : Takes weight alignment g) (hlonger : best.all (·.length < g.length)) :
    Remembers weight alignment (seen ++ [g]) (some ⟨g.length, roundUp alignment g.start⟩) := by
  refine .best ⟨List.mem_append_right _ (List.mem_singleton_self g), hg, fun k hk htakes => ?_⟩
  rcases List.mem_append.1 hk with hk | hk
  · cases h with
    | nothing unfit => exact absurd htakes (unfit k hk)
    | best isBest =>
      have hlt := of_decide_eq_true hlonger
      rcases isBest.preferred k hk htakes with hless | ⟨hsame, -⟩
      · exact .inl (Nat.lt_trans hless hlt)
      · exact .inl (hsame ▸ hlt)
  · rw [List.mem_singleton.1 hk]
    exact .inr ⟨rfl, Nat.le_refl _⟩

/-- A gap that is not longer changes nothing, because it lies higher. -/
theorem Remembers.append_not_longer {best : Option Fit} (h : Remembers weight alignment seen best)
    (hnot : best.all (·.length < g.length) = false) (habove : ∀ k ∈ seen, k.start < g.start) :
    Remembers weight alignment (seen ++ [g]) best := by
  cases h with
  | nothing => cases hnot
  | best isBest =>
    have hle := Nat.le_of_not_lt (of_decide_eq_false hnot)
    refine .best ⟨List.mem_append_left _ isBest.mem, isBest.takes, fun k hk htakes => ?_⟩
    rcases List.mem_append.1 hk with hk | hk
    · exact isBest.preferred k hk htakes
    · rw [List.mem_singleton.1 hk]
      rcases Nat.lt_or_eq_of_le hle with hlt | heq
      · exact .inl hlt
      · exact .inr ⟨heq, Nat.le_of_lt (habove _ isBest.mem)⟩

variable (ha : alignment.isPowerOfTwo)
include ha

/-- The comparison keeps the best gap in mind. -/
theorem Remembers.append_considerGap {best best' : Option Fit}
    (h : Remembers weight alignment seen best) (habove : ∀ k ∈ seen, k.start < g.start)
    (hword : g.stop ≤ wordMax) (hstep : considerGap weight alignment best g = some best') :
    Remembers weight alignment (seen ++ [g]) best' := by
  obtain ⟨start, hstart, hbest'⟩ := Option.map_eq_some_iff.1 hstep
  obtain ⟨rfl, -⟩ := (alignUp?_eq_some_iff ha).1 hstart
  -- Where the gap ends within the word, so does what fits into it.
  have hfits : fitsBelow (roundUp alignment g.start) weight g.stop = true ↔
      Takes weight alignment g := by
    rw [fitsBelow_iff]
    exact and_iff_right_of_imp fun htakes => Nat.le_trans htakes hword
  by_cases htakes : Takes weight alignment g
  · rw [hfits.2 htakes, Bool.true_and] at hbest'
    cases hlonger : best.all (·.length < g.length) with
    | true =>
      rw [hlonger, if_pos rfl] at hbest'
      exact hbest' ▸ h.append_longer htakes hlonger
    | false =>
      rw [hlonger, if_neg Bool.false_ne_true] at hbest'
      exact hbest' ▸ h.append_not_longer hlonger habove
  · rw [Bool.eq_false_iff.2 (mt hfits.1 htakes), Bool.false_and,
      if_neg Bool.false_ne_true] at hbest'
    exact hbest' ▸ h.append_unfit htakes

/-! ## All gaps -/

/-- After all gaps the search has the best of them in mind. -/
theorem Remembers.append_foldlM {best best' : Option Fit} {gs : List Interval}
    (h : Remembers weight alignment seen best)
    (hsorted : (seen ++ gs).Pairwise fun g k => g.start < k.start)
    (hword : ∀ g ∈ gs, g.stop ≤ wordMax)
    (hrun : gs.foldlM (considerGap weight alignment) best = some best') :
    Remembers weight alignment (seen ++ gs) best' := by
  induction gs generalizing seen best with
  | nil =>
    cases hrun
    rwa [List.append_nil]
  | cons g gs ih =>
    obtain ⟨next, hstep, hrest⟩ := Option.bind_eq_some_iff.1 hrun
    have hnext : Remembers weight alignment (seen ++ [g]) next := by
      refine h.append_considerGap ha (fun k hk => ?_) (hword g (List.mem_cons_self ..)) hstep
      exact (List.pairwise_append.1 hsorted).2.2 k hk g (List.mem_cons_self ..)
    rw [List.append_cons] at hsorted ⊢
    exact ih hnext hsorted (fun k hk => hword k (List.mem_cons_of_mem g hk)) hrest

omit ha in
/-- The search gives up at a gap whose start cannot be aligned, and nowhere else. -/
theorem foldlM_considerGap_eq_none_iff {gs : List Interval} {best : Option Fit} :
    gs.foldlM (considerGap weight alignment) best = none ↔
      ∃ g ∈ gs, alignUp? g.start alignment = none := by
  induction gs generalizing best with
  | nil => simp
  | cons g gs ih =>
    simp only [List.foldlM_cons, List.mem_cons, exists_eq_or_imp]
    rw [considerGap]
    cases hstart : alignUp? g.start alignment with
    | none => simp
    | some start => simpa using ih

end

/-! ## The answer -/

section

variable {obstacles : List Interval} {arenaSize weight alignment : Nat}

/-- What the search has in mind in the end. -/
theorem LinedUp.remembers_gaps (hline : LinedUp obstacles arenaSize) (hword : arenaSize ≤ wordMax)
    (ha : alignment.isPowerOfTwo) {best : Option Fit}
    (hrun : (gaps obstacles arenaSize).foldlM (considerGap weight alignment) none = some best) :
    Remembers weight alignment (gaps obstacles arenaSize) best := by
  have hnothing : Remembers weight alignment [] none := .nothing fun _ h => nomatch h
  refine hnothing.append_foldlM ha hline.pairwise_gaps (fun g hg => ?_) hrun
  exact Nat.le_trans (hline.mem_gaps_iff.1 hg).stop_le hword

/-- An answer of the search is the rule of worst fit. If some gap takes the buffer, the answer is
the first aligned byte of the longest one that does, and of the lowest of equally long ones; if no
gap does, it is the first aligned byte at or above all stops. Either way the buffer is aligned and
shares no byte with any obstacle. -/
theorem chooseOffset?_eq_some_cases (hline : LinedUp obstacles arenaSize)
    (hword : arenaSize ≤ wordMax) (ha : alignment.isPowerOfTwo) {o : Nat}
    (h : chooseOffset? obstacles arenaSize weight alignment = some o) :
    ((∃ g, IsGap obstacles 0 arenaSize g ∧ Takes weight alignment g) →
      ∃ g, IsBest weight alignment {g | IsGap obstacles 0 arenaSize g} g ∧
        o = roundUp alignment g.start) ∧
    ((¬ ∃ g, IsGap obstacles 0 arenaSize g ∧ Takes weight alignment g) →
      ∃ top, IsGreatest (insert 0 {x | ∃ r ∈ obstacles, r.stop = x}) top ∧
        o = roundUp alignment top) ∧
    (∀ r ∈ obstacles, ∀ x, o ≤ x → x < o + weight → x ∉ r) ∧ alignment ∣ o := by
  have hpos : 0 < alignment := Nat.pos_of_isPowerOfTwo ha
  have hgaps : {g | g ∈ gaps obstacles arenaSize} = {g | IsGap obstacles 0 arenaSize g} :=
    Set.ext fun _ => hline.mem_gaps_iff
  unfold chooseOffset? at h
  cases hrun : (gaps obstacles arenaSize).foldlM (considerGap weight alignment) none with
  | none =>
    rw [hrun] at h
    cases h
  | some best =>
    rw [hrun] at h
    cases hline.remembers_gaps hword ha hrun with
    | nothing unfit =>
      have hnone : ¬ ∃ g, IsGap obstacles 0 arenaSize g ∧ Takes weight alignment g :=
        fun ⟨g, hg, htakes⟩ => unfit g (hline.mem_gaps_iff.2 hg) htakes
      obtain ⟨rfl, -⟩ := (alignUp?_eq_some_iff ha).1 h
      refine ⟨fun hsome => absurd hsome hnone, fun _ => ⟨_, isGreatest_topOf obstacles, rfl⟩,
        fun r hr x hstart _ hx => ?_, dvd_roundUp alignment _⟩
      have htop := le_roundUp hpos (topOf obstacles)
      have hle := le_topOf_of_mem hr
      have hstop := (Interval.mem_iff.1 hx).2
      omega
    | @best g isBest =>
      obtain rfl : roundUp alignment g.start = o := Option.some.inj h
      rw [hgaps] at isBest
      have htakes : roundUp alignment g.start + weight ≤ g.stop := isBest.takes
      refine ⟨fun _ => ⟨g, isBest, rfl⟩, fun hnone => absurd ⟨g, isBest.mem, isBest.takes⟩ hnone,
        fun r hr x hstart hstop => ?_, dvd_roundUp alignment _⟩
      have hle := le_roundUp hpos g.start
      exact isBest.mem.apart r hr x ⟨by omega, by omega⟩

/-- Nested, touching and lone obstacles that leave three gaps of eight bytes. Of these only the one
in the middle takes six bytes from a multiple of four on. -/
theorem chooseOffset?_eq_some_cases_nested :
    ∃ obstacles, LinedUp obstacles 37 ∧ chooseOffset? obstacles 37 6 4 = some 20 ∧
      ∃ g, IsBest 6 4 {g | IsGap obstacles 0 37 g} g ∧ 20 = roundUp 4 g.start := by
  obtain ⟨obstacles, hline, hsome, hgap⟩ : ∃ obstacles, LinedUp obstacles 37 ∧
      chooseOffset? obstacles 37 6 4 = some 20 ∧ ⟨20, 28⟩ ∈ gaps obstacles 37 :=
    ⟨[⟨0, 9⟩, ⟨4, 6⟩, ⟨17, 19⟩, ⟨19, 20⟩, ⟨28, 29⟩], ⟨by decide, by decide, by decide⟩, rfl,
      by decide⟩
  have hcases := chooseOffset?_eq_some_cases hline (by decide) ⟨2, rfl⟩ hsome
  exact ⟨obstacles, hline, hsome, hcases.1 ⟨⟨20, 28⟩, hline.mem_gaps_iff.1 hgap, by decide⟩⟩

end

end LifetimeArena
