import LifetimeArena.Proofs.Placement.GapSearch
import Mathlib.Order.Bounds.Basic

/-!
# The free runs of an arena

The search goes through the obstacles with a cursor and notes a gap wherever the next obstacle
starts above it. Obstacles may overlap, lie inside each other or touch, and still the noted gaps are
what is free in the arena: the runs of bytes that no obstacle covers and that cannot be made longer.

- `LinedUp`: obstacles as the search takes them.
- `IsFree`, `IsGap`: free runs, and those that are as long as can be.
- `LinedUp.mem_gaps_iff`: the noted gaps are exactly those.
- `LinedUp.pairwise_gaps`: they are noted from below.
- `isGreatest_topOf`: the top of the obstacles.
-/

namespace LifetimeArena

/-- Obstacles in order, none without bytes and none that reaches beyond the arena. -/
structure LinedUp (obstacles : List Interval) (arenaSize : Nat) : Prop where
  sorted : obstacles.Pairwise Interval.Precedes
  start_lt_stop : ∀ r ∈ obstacles, r.start < r.stop
  stop_le : ∀ r ∈ obstacles, r.stop ≤ arenaSize

/-- A run of at least one byte between `bottom` and `arenaSize` that shares no byte with any
obstacle. -/
structure IsFree (obstacles : List Interval) (bottom arenaSize : Nat) (g : Interval) : Prop where
  bottom_le : bottom ≤ g.start
  start_lt_stop : g.start < g.stop
  stop_le : g.stop ≤ arenaSize
  apart : ∀ r ∈ obstacles, ∀ x ∈ g, x ∉ r

/-- A free run that lies in no other. -/
structure IsGap (obstacles : List Interval) (bottom arenaSize : Nat) (g : Interval) : Prop
    extends IsFree obstacles bottom arenaSize g where
  maximal : ∀ h, IsFree obstacles bottom arenaSize h → h.start ≤ g.start → g.stop ≤ h.stop → h = g

/-! ## The top -/

/-- The top is the highest stop, and the ground without obstacles. -/
theorem isGreatest_topOf (obstacles : List Interval) :
    IsGreatest (insert 0 {x | ∃ r ∈ obstacles, r.stop = x}) (topOf obstacles) := by
  constructor
  · -- Were it none of the stops, all of them would lie below it, and it would be lower.
    by_contra hnot
    have hpos : topOf obstacles ≠ 0 := fun h => hnot (.inl h)
    have hbelow : topOf obstacles ≤ topOf obstacles - 1 := by
      refine topOf_le_iff.2 fun r hr => ?_
      have hle := le_topOf_of_mem hr
      have hne : r.stop ≠ topOf obstacles := fun h => hnot (.inr ⟨r, hr, h⟩)
      omega
    omega
  · rintro x (rfl | ⟨r, hr, rfl⟩)
    · exact Nat.zero_le _
    · exact le_topOf_of_mem hr

/-- No gap starts above the top: it could be made longer downwards. -/
theorem IsGap.start_le_topOf {obstacles : List Interval} {arenaSize : Nat} {g : Interval}
    (h : IsGap obstacles 0 arenaSize g) : g.start ≤ topOf obstacles := by
  by_contra hlt
  have hne := h.start_lt_stop
  have hfree : IsFree obstacles 0 arenaSize ⟨topOf obstacles, g.stop⟩ :=
    { bottom_le := Nat.zero_le _
      start_lt_stop := by
        show topOf obstacles < g.stop
        omega
      stop_le := h.stop_le
      apart := by
        intro r hr x hx hxr
        have hstart : topOf obstacles ≤ x := (Interval.mem_iff.1 hx).1
        have hstop := (Interval.mem_iff.1 hxr).2
        have hle := le_topOf_of_mem hr
        omega }
  have heq := h.maximal _ hfree (Nat.le_of_not_le hlt) (Nat.le_refl _)
  exact hlt (Nat.le_of_eq (congrArg Interval.start heq).symm)

/-! ## One obstacle more -/

section

variable {r g : Interval} {rest : List Interval} {bottom arenaSize : Nat}

/-- A free run lies below an obstacle or above it. -/
theorem IsFree.below_or_above (h : IsFree (r :: rest) bottom arenaSize g)
    (hne : r.start < r.stop) : g.stop ≤ r.start ∨ r.stop ≤ g.start := by
  have hlt := h.start_lt_stop
  by_contra hmeets
  -- They would share the byte at which the later of the two starts.
  have hmem : max g.start r.start ∈ g := ⟨by omega, by omega⟩
  exact h.apart r (List.mem_cons_self ..) _ hmem ⟨by omega, by omega⟩

theorem IsFree.tail (h : IsFree (r :: rest) bottom arenaSize g) (habove : r.stop ≤ g.start) :
    IsFree rest (max bottom r.stop) arenaSize g where
  bottom_le := Nat.max_le.2 ⟨h.bottom_le, habove⟩
  start_lt_stop := h.start_lt_stop
  stop_le := h.stop_le
  apart := fun s hs => h.apart s (List.mem_cons_of_mem r hs)

/-- What is free above an obstacle is free together with it. -/
theorem IsFree.cons (h : IsFree rest (max bottom r.stop) arenaSize g) :
    IsFree (r :: rest) bottom arenaSize g where
  bottom_le := (Nat.max_le.1 h.bottom_le).1
  start_lt_stop := h.start_lt_stop
  stop_le := h.stop_le
  apart := by
    intro s hs x hx hxs
    rcases List.mem_cons.1 hs with rfl | hs
    · have hle := (Nat.max_le.1 h.bottom_le).2
      have hstart := (Interval.mem_iff.1 hx).1
      have hstop := (Interval.mem_iff.1 hxs).2
      omega
    · exact h.apart s hs x hx hxs

variable (hline : LinedUp (r :: rest) arenaSize)
include hline

theorem LinedUp.tail : LinedUp rest arenaSize where
  sorted := (List.pairwise_cons.1 hline.sorted).2
  start_lt_stop := fun s hs => hline.start_lt_stop s (List.mem_cons_of_mem r hs)
  stop_le := fun s hs => hline.stop_le s (List.mem_cons_of_mem r hs)

theorem LinedUp.start_le {s : Interval} (hs : s ∈ r :: rest) : r.start ≤ s.start := by
  rcases List.mem_cons.1 hs with rfl | hs
  · exact Nat.le_refl _
  · rcases (List.pairwise_cons.1 hline.sorted).1 s hs with h | ⟨h, -⟩
    · exact Nat.le_of_lt h
    · exact Nat.le_of_eq h

/-- Below the first obstacle everything is free. -/
theorem LinedUp.isFree_below (hlt : bottom < r.start) :
    IsFree (r :: rest) bottom arenaSize ⟨bottom, r.start⟩ where
  bottom_le := Nat.le_refl bottom
  start_lt_stop := hlt
  stop_le := by
    have hne := hline.start_lt_stop r (List.mem_cons_self ..)
    have hle := hline.stop_le r (List.mem_cons_self ..)
    show r.start ≤ arenaSize
    omega
  apart := by
    intro s hs x hx hxs
    have hstop : x < r.start := (Interval.mem_iff.1 hx).2
    have hstart := (Interval.mem_iff.1 hxs).1
    have hle := hline.start_le hs
    omega

/-- The gaps are the run below the first obstacle, unless it is empty, and those above. -/
theorem LinedUp.isGap_cons_iff :
    IsGap (r :: rest) bottom arenaSize g ↔
      (bottom < r.start ∧ g = ⟨bottom, r.start⟩) ∨
        IsGap rest (max bottom r.stop) arenaSize g := by
  have hne := hline.start_lt_stop r (List.mem_cons_self ..)
  constructor
  · intro h
    have hlt := h.start_lt_stop
    have hbottom := h.bottom_le
    rcases h.below_or_above hne with hbelow | habove
    · -- A gap below the obstacle lies in the run below it, so it is that run.
      have hrun : bottom < r.start := by omega
      exact .inl ⟨hrun, (h.maximal _ (hline.isFree_below hrun) hbottom hbelow).symm⟩
    · refine .inr ⟨h.tail habove, fun k hk hstart hstop => ?_⟩
      exact h.maximal k hk.cons hstart hstop
  · rintro (⟨hrun, rfl⟩ | h)
    · refine ⟨hline.isFree_below hrun, fun k hk hstart hstop => ?_⟩
      have hbottom : k.start = bottom := Nat.le_antisymm hstart hk.bottom_le
      have htop : k.stop = r.start := by
        rcases hk.below_or_above hne with hbelow | habove
        · exact Nat.le_antisymm hbelow hstop
        · omega
      rw [← hbottom, ← htop]
    · refine ⟨h.cons, fun k hk hstart hstop => ?_⟩
      have hlt := h.start_lt_stop
      have habove := (Nat.max_le.1 h.bottom_le).2
      rcases hk.below_or_above hne with hk' | hk'
      · omega
      · exact h.maximal k (hk.tail hk') hstart hstop

end

theorem isGap_nil_iff {bottom arenaSize : Nat} {g : Interval} :
    IsGap [] bottom arenaSize g ↔ bottom < arenaSize ∧ g = ⟨bottom, arenaSize⟩ := by
  have hwhole : bottom < arenaSize → IsFree [] bottom arenaSize ⟨bottom, arenaSize⟩ := fun h =>
    ⟨Nat.le_refl _, h, Nat.le_refl _, fun _ hr => nomatch hr⟩
  constructor
  · intro h
    have hlt : bottom < arenaSize :=
      Nat.lt_of_le_of_lt h.bottom_le (Nat.lt_of_lt_of_le h.start_lt_stop h.stop_le)
    exact ⟨hlt, (h.maximal _ (hwhole hlt) h.bottom_le h.stop_le).symm⟩
  · rintro ⟨hlt, rfl⟩
    refine ⟨hwhole hlt, fun k hk hstart hstop => ?_⟩
    have hbottom : k.start = bottom := Nat.le_antisymm hstart hk.bottom_le
    have htop : k.stop = arenaSize := Nat.le_antisymm hk.stop_le hstop
    rw [← hbottom, ← htop]

/-! ## The scan -/

namespace LinedUp

variable {obstacles : List Interval} {arenaSize : Nat} (hline : LinedUp obstacles arenaSize)
include hline

/-- From a cursor on the scan notes the gaps above it. -/
theorem mem_gapsFrom_iff {cursor : Nat} {g : Interval} :
    g ∈ gapsFrom arenaSize cursor obstacles ↔ IsGap obstacles cursor arenaSize g := by
  induction obstacles generalizing cursor with
  | nil =>
    rw [gapsFrom, isGap_nil_iff]
    split
    · next h => simp [h]
    · next h => simp [h]
  | cons r rest ih =>
    rw [gapsFrom, hline.isGap_cons_iff, ← ih hline.tail]
    split
    · next h => simp [h]
    · next h => simp [h]

theorem pairwise_gapsFrom (cursor : Nat) :
    (gapsFrom arenaSize cursor obstacles).Pairwise fun g h => g.start < h.start := by
  induction obstacles generalizing cursor with
  | nil =>
    rw [gapsFrom]
    split
    · exact List.pairwise_singleton _ _
    · exact .nil
  | cons r rest ih =>
    rw [gapsFrom]
    split
    · next hlt =>
      refine List.pairwise_cons.2 ⟨fun g hg => ?_, ih hline.tail _⟩
      have hbottom := (hline.tail.mem_gapsFrom_iff.1 hg).bottom_le
      have hne := hline.start_lt_stop r (List.mem_cons_self ..)
      show cursor < g.start
      omega
    · exact ih hline.tail _

/-- The noted gaps are the free runs that are as long as can be. -/
theorem mem_gaps_iff {g : Interval} :
    g ∈ gaps obstacles arenaSize ↔ IsGap obstacles 0 arenaSize g :=
  hline.mem_gapsFrom_iff

/-- The gaps are noted from below. -/
theorem pairwise_gaps : (gaps obstacles arenaSize).Pairwise fun g h => g.start < h.start :=
  hline.pairwise_gapsFrom 0

end LinedUp

end LifetimeArena
