import LifetimeArena.Placement.Strategy
import LifetimeArena.Proofs.BufferTree.WellFormed
import LifetimeArena.Proofs.Rounding
import Mathlib.Data.Finset.Lattice.Fold
import Mathlib.Order.Lattice.Nat

/-!
# Stacking

Both strategies turn out to do the same simple thing: every buffer is put at the first aligned byte
behind all buffers that it must not touch and that were placed before it. They differ in which
buffers those are. A `StackOrder` says so, and `StackOrder.offset` is the place where every buffer
ends up, as a number that need not be a word.

Everything that matters about the layouts follows from this recursion:

- `StackOrder.stop_le_offset`: a buffer lies behind all buffers under it.
- `StackOrder.exists_cover`: below a buffer no aligned byte is left free, so there is never a gap
  that could take another buffer.
- `StackOrder.exists_chain`: a buffer stands exactly as high as some buffers that are pairwise under
  each other are together, padding included, so no buffer stands higher than it must.
-/

namespace LifetimeArena

open Finset

/-- Which nodes must lie under which. -/
structure StackOrder where
  rank : Nat → Nat
  Under : Nat → Nat → Prop
  decidableUnder : DecidableRel Under
  rank_lt : ∀ {u v}, Under u v → rank u < rank v
  trans : ∀ {u v w}, Under u v → Under v w → Under u w

namespace StackOrder

attribute [instance] decidableUnder

variable (o : StackOrder) (t : BufferTree) (a : Nat)

/-- The nodes of the tree that lie under `i`. -/
def below (i : Nat) : Finset Nat := {u ∈ range t.size | o.Under u i}

/-- The first multiple of the alignment behind everything under `i`. -/
def offset (i : Nat) : Nat :=
  roundUp a ((o.below t i).attach.sup fun u => offset u.1 + t.weight u.1)
termination_by o.rank i
decreasing_by exact o.rank_lt (mem_filter.1 u.2).2

/-- Where the buffer of `i` stops. -/
def stop (i : Nat) : Nat := o.offset t a i + t.weight i

/-- Where the highest buffer under `i` stops. -/
def floor (i : Nat) : Nat := (o.below t i).sup (o.stop t a)

/-- Where the highest buffer stops. -/
def arena : Nat := (range t.size).sup (o.stop t a)

/-- The proposal of these offsets. -/
def proposal : Placement := ⟨Array.ofFn fun i : Fin t.size => o.offset t a i, o.arena t a⟩

/-- The proposal, if every buffer stops within the word. The first that does not is the cause of
failure. -/
def place : Except SolveError Placement :=
  match t.preorder.find? (wordMax < o.stop t a ·) with
  | some i => .error (.overflow (t.stageAt i))
  | none => .ok (o.proposal t a)

theorem offset_eq (i : Nat) : o.offset t a i = roundUp a (o.floor t a i) := by
  rw [offset, sup_attach _ fun u => o.offset t a u + t.weight u]
  rfl

variable {o t a}

theorem mem_below {u i : Nat} : u ∈ o.below t i ↔ u < t.size ∧ o.Under u i := by
  rw [below, mem_filter, mem_range]

theorem rank_lt_of_mem_below {u i : Nat} (h : u ∈ o.below t i) : o.rank u < o.rank i :=
  o.rank_lt (mem_below.1 h).2

/-- What lies under something under `i` lies under `i`. -/
theorem below_subset {u i : Nat} (h : u ∈ o.below t i) : o.below t u ⊆ o.below t i := by
  intro v hv
  rw [mem_below] at *
  exact ⟨hv.1, o.trans hv.2 h.2⟩

theorem dvd_offset (i : Nat) : a ∣ o.offset t a i := by
  rw [offset_eq]
  exact dvd_roundUp a _

theorem offset_le_stop (i : Nat) : o.offset t a i ≤ o.stop t a i := Nat.le_add_right _ _

theorem stop_le_floor {u i : Nat} (h : u ∈ o.below t i) : o.stop t a u ≤ o.floor t a i :=
  le_sup (f := o.stop t a) h

theorem floor_le_offset (ha : 0 < a) (i : Nat) : o.floor t a i ≤ o.offset t a i := by
  rw [offset_eq]
  exact le_roundUp ha _

/-- A buffer starts behind the stop of every buffer under it. -/
theorem stop_le_offset (ha : 0 < a) {u i : Nat} (h : u ∈ o.below t i) :
    o.stop t a u ≤ o.offset t a i :=
  Nat.le_trans (stop_le_floor h) (floor_le_offset ha i)

theorem stop_le_arena {i : Nat} (h : i < t.size) : o.stop t a i ≤ o.arena t a :=
  le_sup (f := o.stop t a) (mem_range.2 h)

/-- The floor is the ground or where some buffer stops. -/
theorem floor_eq (i : Nat) :
    o.floor t a i = 0 ∨ ∃ u ∈ o.below t i, o.floor t a i = o.stop t a u := by
  rcases (o.below t i).eq_empty_or_nonempty with h | h
  · left
    rw [floor, h, sup_empty]
    rfl
  · right
    exact exists_mem_eq_sup _ h _

/-! ## No gaps -/

/-- Every multiple of the alignment that some buffer under `i` stops above is covered by a buffer
under `i`. If the buffer itself starts too high, then by its own offset there is one under it that
reaches above the multiple, too. -/
theorem exists_cover_of_lt_stop (ha : 0 < a) {i m : Nat} (hm : a ∣ m) {u : Nat}
    (hu : u ∈ o.below t i) (hlt : m < o.stop t a u) :
    ∃ v ∈ o.below t i, o.offset t a v ≤ m ∧ m < o.stop t a v := by
  -- The induction is on the rank of the buffer that stops above the multiple.
  induction hr : o.rank u using Nat.strong_induction_on generalizing u with
  | _ r ih =>
    by_cases hle : o.offset t a u ≤ m
    · exact ⟨u, hu, hle, hlt⟩
    · have hfloor : m < o.floor t a u := by
        rw [offset_eq, roundUp_le_iff ha hm] at hle
        exact Nat.lt_of_not_le hle
      rcases floor_eq (o := o) (t := t) (a := a) u with h0 | ⟨v, hv, hstop⟩
      · omega
      · have hrank : o.rank v < r := hr ▸ rank_lt_of_mem_below hv
        exact ih (o.rank v) hrank (below_subset hu hv) (hstop ▸ hfloor) rfl

/-- Under the floor of a node every multiple of the alignment is covered. -/
theorem exists_cover (ha : 0 < a) {i m : Nat} (hm : a ∣ m) (hlt : m < o.floor t a i) :
    ∃ u ∈ o.below t i, o.offset t a u ≤ m ∧ m < o.stop t a u := by
  rcases floor_eq (o := o) (t := t) (a := a) i with h0 | ⟨u, hu, hstop⟩
  · omega
  · exact exists_cover_of_lt_stop ha hm hu (hstop ▸ hlt)

/-! ## No node higher than it must be -/

/-- Of any two of the nodes one lies under the other. -/
def IsChain (o : StackOrder) (s : Finset Nat) : Prop :=
  ∀ u ∈ s, ∀ v ∈ s, u ≠ v → o.Under u v ∨ o.Under v u

/-- The padded height of a node is the sum of the padded sizes of a chain: the node itself, the
highest buffer under it, the highest buffer under that one, and so on down to the ground. -/
theorem exists_chain (ha : 0 < a) (i : Nat) :
    ∃ s : Finset Nat, o.IsChain s ∧ i ∈ s ∧ s ⊆ insert i (o.below t i) ∧
      o.offset t a i + roundUp a (t.weight i) = ∑ u ∈ s, roundUp a (t.weight u) := by
  induction hr : o.rank i using Nat.strong_induction_on generalizing i with
  | _ r ih =>
    rcases floor_eq (o := o) (t := t) (a := a) i with h0 | ⟨u, hu, hstop⟩
    · -- Nothing lies under the node, so it stands on the ground and is a chain of its own.
      refine ⟨{i}, ?_, mem_singleton_self i, ?_, ?_⟩
      · intro u hu v hv hne
        rw [mem_singleton] at hu hv
        exact absurd (hu.trans hv.symm) hne
      · exact singleton_subset_iff.2 (mem_insert_self i _)
      · rw [offset_eq, h0, roundUp_zero, sum_singleton, Nat.zero_add]
    · -- The chain of the buffer that makes the floor lies under the node as a whole.
      obtain ⟨s, hchain, -, hsub, hsum⟩ := ih (o.rank u) (hr ▸ rank_lt_of_mem_below hu) u rfl
      have hbelow : s ⊆ o.below t i := fun v hv => by
        rcases mem_insert.1 (hsub hv) with rfl | hvu
        · exact hu
        · exact below_subset hu hvu
      have hi : i ∉ s := fun h => Nat.lt_irrefl _ (rank_lt_of_mem_below (hbelow h))
      refine ⟨insert i s, ?_, mem_insert_self i s, insert_subset_insert i hbelow, ?_⟩
      · intro v hv w hw hne
        rcases mem_insert.1 hv with hvi | hvs
        · rcases mem_insert.1 hw with hwi | hws
          · exact absurd (hvi.trans hwi.symm) hne
          · exact .inr (hvi ▸ (mem_below.1 (hbelow hws)).2)
        · rcases mem_insert.1 hw with hwi | hws
          · exact .inl (hwi ▸ (mem_below.1 (hbelow hvs)).2)
          · exact hchain v hvs w hws hne
      · rw [sum_insert hi, ← hsum, offset_eq, hstop, stop,
          roundUp_add_left ha (dvd_offset u), Nat.add_comm]

/-! ## One buffer after the other -/

/-- The bytes of a buffer. -/
def interval (o : StackOrder) (t : BufferTree) (a i : Nat) : Interval :=
  ⟨o.offset t a i, o.stop t a i⟩

/-- The first aligned interval behind the floor, if it stays within the word. -/
theorem bind_ofLength? (ha : a.isPowerOfTwo) (hle : a ≤ wordMax + 1) (i : Nat) :
    (alignUp? (o.floor t a i) a).bind (Interval.ofLength? · (t.weight i)) =
      if wordMax < o.stop t a i then none else some (o.interval t a i) := by
  have hstop : o.stop t a i = roundUp a (o.floor t a i) + t.weight i := by rw [stop, offset_eq]
  by_cases hword : wordMax < o.stop t a i
  · -- It does not matter whether the start or the stop leaves the word first.
    rw [if_pos hword]
    cases hstart : alignUp? (o.floor t a i) a with
    | none => rfl
    | some start =>
      obtain ⟨rfl, -⟩ := (alignUp?_eq_some_iff ha).1 hstart
      rw [Option.bind_some, Interval.ofLength?_eq_none_iff, ← hstop]
      exact hword
  · have hround : roundUp a (o.floor t a i) ≤ wordMax := by omega
    rw [if_neg hword, alignUp?_of_roundUp_le ha hle hround, Option.bind_some,
      Interval.ofLength?_eq_some_iff, ← hstop]
    refine ⟨?_, by omega⟩
    rw [interval, offset_eq]

/-- Where the highest of some buffers stops. -/
def reach (o : StackOrder) (t : BufferTree) (a : Nat) (visited : List Nat) : Nat :=
  visited.toFinset.sup (o.stop t a)

theorem stop_le_reach {visited : List Nat} {i : Nat} (hi : i ∈ visited) :
    o.stop t a i ≤ o.reach t a visited :=
  Finset.le_sup (List.mem_toFinset.2 hi)

theorem reach_append_singleton (visited : List Nat) (i : Nat) :
    o.reach t a (visited ++ [i]) = max (o.reach t a visited) (o.stop t a i) := by
  unfold reach
  rw [List.toFinset_append, sup_union]
  simp only [List.toFinset_cons, List.toFinset_nil, insert_empty_eq, sup_singleton]

theorem reach_eq_arena {visited : List Nat} (h : visited.Perm (List.range t.size)) :
    o.reach t a visited = o.arena t a := by
  have hset : visited.toFinset = range t.size := by
    ext i
    rw [List.mem_toFinset, h.mem_iff, List.mem_range, mem_range]
  rw [reach, hset, arena]

/-- An array that holds the offsets of the visited nodes. -/
structure Filled (o : StackOrder) (t : BufferTree) (a : Nat) (visited : List Nat)
    (offsets : Array Nat) : Prop where
  size_eq : offsets.size = t.size
  getElem?_eq : ∀ i ∈ visited, offsets[i]? = some (o.offset t a i)

theorem filled_replicate : o.Filled t a [] (Array.replicate t.size 0) where
  size_eq := Array.size_replicate
  getElem?_eq := fun _ h => nomatch h

theorem Filled.setIfInBounds {visited : List Nat} {offsets : Array Nat}
    (h : o.Filled t a visited offsets) {i : Nat} (hi : i < t.size) :
    o.Filled t a (visited ++ [i]) (offsets.setIfInBounds i (o.offset t a i)) where
  size_eq := by
    rw [Array.size_setIfInBounds]
    exact h.size_eq
  getElem?_eq := by
    intro j hj
    rw [Array.getElem?_setIfInBounds]
    by_cases hij : i = j
    · subst hij
      rw [if_pos rfl, if_pos (h.size_eq ▸ hi)]
    · rw [if_neg hij]
      rcases List.mem_append.1 hj with hj | hj
      · exact h.getElem?_eq j hj
      · exact absurd (List.mem_singleton.1 hj).symm hij

/-- After a walk through the whole tree the array is filled. -/
theorem Filled.eq_ofFn {visited : List Nat} {offsets : Array Nat}
    (h : o.Filled t a visited offsets) (hall : visited.Perm (List.range t.size)) :
    offsets = Array.ofFn fun i : Fin t.size => o.offset t a i := by
  refine Array.ext (by rw [h.size_eq, Array.size_ofFn]) fun i hi _ => ?_
  rw [h.size_eq] at hi
  have hget := h.getElem?_eq i (hall.mem_iff.2 (List.mem_range.2 hi))
  rw [Array.getElem_ofFn]
  exact (Array.getElem?_eq_some_iff.1 hget).2

section

variable {σ : Type} {step : σ → Nat → Except SolveError σ} {P : List Nat → σ → Prop}

/-- One step puts its node where the stacking does, or fails where the buffer would stop beyond the
word. What `P` says of the nodes visited so far it says of one more afterwards. -/
def Follows (o : StackOrder) (t : BufferTree) (a : Nat) (step : σ → Nat → Except SolveError σ)
    (P : List Nat → σ → Prop) : Prop :=
  ∀ visited i rest s, t.preorder = visited ++ i :: rest → P visited s →
    if wordMax < o.stop t a i then step s i = .error (.overflow (t.stageAt i))
    else ∃ s', step s i = .ok s' ∧ P (visited ++ [i]) s'

/-- The rest of a walk fails at its first node that stops beyond the word, or gets to the end. -/
theorem Follows.foldlM (h : o.Follows t a step P) {visited rest : List Nat} {s : σ}
    (hwalk : t.preorder = visited ++ rest) (hs : P visited s) :
    match rest.find? (wordMax < o.stop t a ·) with
    | some i => rest.foldlM step s = .error (.overflow (t.stageAt i))
    | none => ∃ s', rest.foldlM step s = .ok s' ∧ P t.preorder s' := by
  induction rest generalizing visited s with
  | nil =>
    rw [List.append_nil] at hwalk
    exact ⟨s, rfl, hwalk ▸ hs⟩
  | cons i rest ih =>
    have hi := h visited i rest s hwalk hs
    rw [List.foldlM_cons, List.find?_cons]
    by_cases hbad : wordMax < o.stop t a i
    · rw [if_pos hbad] at hi
      rw [decide_eq_true hbad, hi]
      rfl
    · rw [if_neg hbad] at hi
      obtain ⟨s', hs', hP⟩ := hi
      rw [decide_eq_false hbad, hs']
      exact ih (by rw [hwalk, List.append_assoc]; rfl) hP

/-- What a walk has come to without failure. -/
theorem Follows.of_foldlM_eq_ok (h : o.Follows t a step P) {s₀ : σ} (hs₀ : P [] s₀)
    {visited rest : List Nat} (hwalk : t.preorder = visited ++ rest) {s : σ}
    (hrun : visited.foldlM step s₀ = .ok s) : P visited s := by
  induction visited using List.reverseRecOn generalizing rest s with
  | nil =>
    cases hrun
    exact hs₀
  | append_singleton visited i ih =>
    rw [List.append_assoc] at hwalk
    rw [List.foldlM_append] at hrun
    cases hbefore : visited.foldlM step s₀ with
    | error e =>
      rw [hbefore] at hrun
      cases hrun
    | ok s' =>
      have hi := h visited i rest s' hwalk (ih hwalk hbefore)
      have hstep : step s' i = .ok s := by
        rw [hbefore] at hrun
        exact (bind_pure (step s' i)).symm.trans hrun
      rw [hstep] at hi
      split at hi
      · cases hi
      · obtain ⟨s'', hs'', hP⟩ := hi
        cases hs''
        exact hP

/-- A walk whose steps follow the stacking proposes what the stacking does. -/
theorem Follows.map_foldlM (h : o.Follows t a step P) {s : σ} (hs : P [] s) (read : σ → Placement)
    (hread : ∀ s, P t.preorder s → read s = o.proposal t a) :
    (t.preorder.foldlM step s).map read = o.place t a := by
  have hrun := h.foldlM (List.nil_append t.preorder).symm hs
  unfold place
  cases hfind : t.preorder.find? (wordMax < o.stop t a ·) with
  | some i =>
    rw [hfind] at hrun
    rw [show t.preorder.foldlM step s = _ from hrun]
    rfl
  | none =>
    rw [hfind] at hrun
    obtain ⟨s', hs', hP⟩ := hrun
    rw [hs', Except.map, hread s' hP]

end

end StackOrder

end LifetimeArena
