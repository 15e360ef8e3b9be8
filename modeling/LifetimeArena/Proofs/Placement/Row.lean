import LifetimeArena.Proofs.Placement.Alignment

/-!
# One buffer after the other

Without reuse the buffers stand in a row: in the order of the walk, each at the first multiple of
the alignment behind the one before. Nothing else goes into `BufferTree.rowStart`, which is the
offset of a buffer as a number that need not be a word. The sequential strategy proposes these
offsets, and if some buffer of the row leaves the word, it fails at the first that does.

- `BufferTree.rowStart`: where a buffer starts in the row.
- `Placement.InRow`: the proposals that are the row.
- `StackOrder.place_eq_error_iff`: which failure a stacking reports.
- `sequential_in_row`: what the sequential strategy answers.
-/

namespace LifetimeArena

namespace BufferTree

/-- Where the last of some buffers stops if they stand in a row in the given order. -/
def rowStop (t : BufferTree) (a : Nat) (nodes : List Nat) : Nat :=
  nodes.foldl (fun stop i => roundUp a stop + t.weight i) 0

/-- Where a buffer starts in the row of all buffers: at the first multiple of the alignment behind
those that the walk meets before it. -/
def rowStart (t : BufferTree) (a i : Nat) : Nat :=
  roundUp a (t.rowStop a (t.preorder.take (t.rank i)))

/-- In the row this buffer is the first on the walk that stops beyond the word. -/
structure OverrunsFirst (t : BufferTree) (a i : Nat) : Prop where
  lt_size : i < t.size
  overruns : wordMax < t.rowStart a i + t.weight i
  first : ∀ u, u < t.size → t.rank u < t.rank i → t.rowStart a u + t.weight u ≤ wordMax

end BufferTree

/-- The proposal is the row: every buffer has bytes of its own, aligned and behind those of all
buffers that the walk meets before, with less than one alignment between neighbours. The arena stops
where the last buffer does, and no buffer stops higher. -/
structure Placement.InRow (p : Placement) (t : BufferTree) (a : Nat) : Prop where
  size_eq : p.offsets.size = t.size
  start : ∀ i, i < t.size → p.offsets[i]? = some (t.rowStart a i)
  aligned : p.Aligned a
  disjoint : ∀ i j x y b, i ≠ j → p.offsets[i]? = some x → p.offsets[j]? = some y →
    ¬ ((x ≤ b ∧ b < x + t.weight i) ∧ (y ≤ b ∧ b < y + t.weight j))
  increasing : ∀ i j x y, p.offsets[i]? = some x → p.offsets[j]? = some y →
    t.rank i < t.rank j → x < y
  padding : ∀ before i j after x y, t.preorder = before ++ i :: j :: after →
    p.offsets[i]? = some x → p.offsets[j]? = some y →
    x + t.weight i ≤ y ∧ y < x + t.weight i + a
  last : ∃ before i x, t.preorder = before ++ [i] ∧ p.offsets[i]? = some x ∧
    p.arenaSize = x + t.weight i
  highest : ∀ i x, p.offsets[i]? = some x → x + t.weight i ≤ p.arenaSize

namespace BufferTree

variable {t : BufferTree} {a : Nat} {visited rest : List Nat} {i j : Nat}

theorem rowStop_append_singleton (t : BufferTree) (a : Nat) (nodes : List Nat) (i : Nat) :
    t.rowStop a (nodes ++ [i]) = roundUp a (t.rowStop a nodes) + t.weight i := by
  rw [rowStop, List.foldl_append]
  rfl

/-- Without an alignment there is no padding. -/
theorem rowStop_one (t : BufferTree) (nodes : List Nat) :
    t.rowStop 1 nodes = (nodes.map t.weight).sum := by
  induction nodes using List.reverseRecOn with
  | nil => rfl
  | append_singleton nodes i ih =>
    rw [rowStop_append_singleton, roundUp_of_dvd Nat.one_pos (Nat.one_dvd _), ih, List.map_append,
      List.sum_append]
    rfl

namespace WellFormed

variable (wf : t.WellFormed)
include wf

theorem rowStart_of_split (hwalk : t.preorder = visited ++ i :: rest) :
    t.rowStart a i = roundUp a (t.rowStop a visited) := by
  rw [rowStart, wf.rank_of_split hwalk, hwalk, List.take_left]

/-! ## The row is the stacking of the walk -/

/-- The last buffer visited stops highest. -/
theorem reach_append_walkOrder (ha : 0 < a) (hwalk : t.preorder = visited ++ i :: rest) :
    t.walkOrder.reach t a (visited ++ [i]) = t.walkOrder.stop t a i := by
  rw [StackOrder.reach_append_singleton, ← floor_walkOrder wf hwalk]
  refine Nat.max_eq_right (Nat.le_trans (StackOrder.floor_le_offset ha i) ?_)
  exact StackOrder.offset_le_stop i

theorem reach_eq_rowStop (ha : 0 < a) (hwalk : t.preorder = visited ++ rest) :
    t.walkOrder.reach t a visited = t.rowStop a visited := by
  induction visited using List.reverseRecOn generalizing rest with
  | nil => rfl
  | append_singleton visited i ih =>
    rw [List.append_assoc, List.singleton_append] at hwalk
    rw [wf.reach_append_walkOrder ha hwalk, rowStop_append_singleton, ← ih hwalk,
      ← floor_walkOrder wf hwalk, ← StackOrder.offset_eq]
    rfl

/-- Stacked in the order of the walk, the buffers stand in the row. -/
theorem offset_walkOrder (ha : 0 < a) (hi : i < t.size) :
    t.walkOrder.offset t a i = t.rowStart a i := by
  obtain ⟨visited, rest, hwalk⟩ := List.append_of_mem (wf.mem_preorder.2 hi)
  rw [StackOrder.offset_eq, floor_walkOrder wf hwalk, wf.reach_eq_rowStop ha hwalk,
    wf.rowStart_of_split hwalk]

theorem stop_walkOrder (ha : 0 < a) (hi : i < t.size) :
    t.walkOrder.stop t a i = t.rowStart a i + t.weight i := by
  rw [StackOrder.stop, wf.offset_walkOrder ha hi]

theorem stop_le_rowStart (ha : 0 < a) (hi : i < t.size) (hj : j < t.size)
    (h : t.rank i < t.rank j) : t.rowStart a i + t.weight i ≤ t.rowStart a j := by
  rw [← wf.stop_walkOrder ha hi, ← wf.offset_walkOrder ha hj]
  exact StackOrder.stop_le_offset ha (StackOrder.mem_below.2 ⟨hi, h⟩)

theorem rank_lt_of_neighbours (hwalk : t.preorder = visited ++ i :: j :: rest) :
    t.rank i < t.rank j := by
  rw [wf.rank_lt_iff_mem (hwalk.trans (List.append_cons ..))]
  exact List.mem_append_right visited (List.mem_singleton_self i)

/-- Neighbours are less than one alignment apart. -/
theorem rowStart_lt_of_neighbours (ha : 0 < a) (hwalk : t.preorder = visited ++ i :: j :: rest) :
    t.rowStart a j < t.rowStart a i + t.weight i + a := by
  rw [wf.rowStart_of_split (hwalk.trans (List.append_cons ..)), rowStop_append_singleton,
    ← wf.rowStart_of_split hwalk]
  exact roundUp_lt_add ha _

theorem arena_walkOrder_eq_rowStop (ha : 0 < a) :
    t.walkOrder.arena t a = t.rowStop a t.preorder := by
  rw [← StackOrder.reach_eq_arena wf.preorder_perm,
    wf.reach_eq_rowStop ha (List.append_nil t.preorder).symm]

/-- Without padding the row is as long as all buffers together. -/
theorem arena_walkOrder_one : t.walkOrder.arena t 1 = t.totalWeight := by
  rw [wf.arena_walkOrder_eq_rowStop Nat.one_pos, rowStop_one,
    (wf.preorder_perm.map t.weight).sum_eq, wf.total_eq]
  rfl

/-- The arena ends with the last buffer of the row. -/
theorem exists_last (ha : 0 < a) : ∃ before i, t.preorder = before ++ [i] ∧ i < t.size ∧
    t.walkOrder.arena t a = t.rowStart a i + t.weight i := by
  have hne : t.preorder ≠ [] := List.ne_nil_of_mem (wf.mem_preorder.2 wf.size_pos)
  have hwalk := (List.dropLast_append_getLast hne).symm
  refine ⟨_, _, hwalk, wf.lt_size_of_split hwalk, ?_⟩
  rw [wf.arena_walkOrder_eq_rowStop ha, wf.rowStart_of_split hwalk, ← rowStop_append_singleton,
    ← hwalk]

/-- What the stacking of the walk lists are the starts in the row. -/
theorem getElem?_walkOrder_eq_some_iff (ha : 0 < a) {x : Nat} :
    (t.walkOrder.proposal t a).offsets[i]? = some x ↔ i < t.size ∧ t.rowStart a i = x := by
  rw [StackOrder.getElem?_proposal_eq_some_iff]
  refine and_congr_right fun hi => ?_
  rw [wf.offset_walkOrder ha hi]

theorem inRow_proposal (ha : 0 < a) : (t.walkOrder.proposal t a).InRow t a where
  size_eq := StackOrder.size_proposal _ t a
  start := fun i hi => (wf.getElem?_walkOrder_eq_some_iff ha).2 ⟨hi, rfl⟩
  aligned := StackOrder.aligned_proposal _ t a
  disjoint := by
    intro i j x y b hne hx hy hshared
    obtain ⟨hi, rfl⟩ := (wf.getElem?_walkOrder_eq_some_iff ha).1 hx
    obtain ⟨hj, rfl⟩ := (wf.getElem?_walkOrder_eq_some_iff ha).1 hy
    -- One of the two comes first on the walk and stops before the other starts.
    rcases Nat.lt_or_gt_of_ne fun heq => hne (wf.rank_injective hi heq) with hrank | hrank
    · have hle := wf.stop_le_rowStart ha hi hj hrank
      omega
    · have hle := wf.stop_le_rowStart ha hj hi hrank
      omega
  increasing := by
    intro i j x y hx hy hrank
    obtain ⟨hi, rfl⟩ := (wf.getElem?_walkOrder_eq_some_iff ha).1 hx
    obtain ⟨hj, rfl⟩ := (wf.getElem?_walkOrder_eq_some_iff ha).1 hy
    calc t.rowStart a i
        < t.rowStart a i + t.weight i := Nat.lt_add_of_pos_right (wf.weight_pos i hi)
      _ ≤ t.rowStart a j := wf.stop_le_rowStart ha hi hj hrank
  padding := by
    intro before i j after x y hwalk hx hy
    obtain ⟨hi, rfl⟩ := (wf.getElem?_walkOrder_eq_some_iff ha).1 hx
    obtain ⟨hj, rfl⟩ := (wf.getElem?_walkOrder_eq_some_iff ha).1 hy
    exact ⟨wf.stop_le_rowStart ha hi hj (wf.rank_lt_of_neighbours hwalk),
      wf.rowStart_lt_of_neighbours ha hwalk⟩
  last := by
    obtain ⟨before, i, hwalk, hi, harena⟩ := wf.exists_last ha
    exact ⟨before, i, _, hwalk, (wf.getElem?_walkOrder_eq_some_iff ha).2 ⟨hi, rfl⟩, harena⟩
  highest := by
    intro i x hx
    obtain ⟨hi, rfl⟩ := (wf.getElem?_walkOrder_eq_some_iff ha).1 hx
    rw [← wf.stop_walkOrder ha hi]
    exact StackOrder.stop_le_arena hi

/-- The buffer at which the stacking of the walk fails is the first of the row to overrun. -/
theorem overrunsFirst_iff (ha : 0 < a) :
    t.OverrunsFirst a i ↔ i < t.size ∧ wordMax < t.walkOrder.stop t a i ∧
      ∀ u, u < t.size → t.rank u < t.rank i → t.walkOrder.stop t a u ≤ wordMax := by
  constructor
  · rintro ⟨hi, hover, hfits⟩
    refine ⟨hi, ?_, fun u hu hrank => ?_⟩
    · rwa [wf.stop_walkOrder ha hi]
    · rw [wf.stop_walkOrder ha hu]
      exact hfits u hu hrank
  · rintro ⟨hi, hover, hfits⟩
    refine ⟨hi, ?_, fun u hu hrank => ?_⟩
    · rwa [wf.stop_walkOrder ha hi] at hover
    · rw [← wf.stop_walkOrder ha hu]
      exact hfits u hu hrank

end WellFormed

end BufferTree

/-! ## Failure -/

/-- A stacking fails at the first node of the walk that would stop beyond the word. -/
theorem StackOrder.place_eq_error_iff {t : BufferTree} (wf : t.WellFormed) (o : StackOrder)
    {a : Nat} {e : SolveError} :
    o.place t a = .error e ↔ ∃ i, (i < t.size ∧ wordMax < o.stop t a i ∧
      ∀ u, u < t.size → t.rank u < t.rank i → o.stop t a u ≤ wordMax) ∧
      e = .overflow (t.stageAt i) := by
  have hfind : ∀ i, t.preorder.find? (wordMax < o.stop t a ·) = some i ↔
      i < t.size ∧ wordMax < o.stop t a i ∧
        ∀ u, u < t.size → t.rank u < t.rank i → o.stop t a u ≤ wordMax := by
    intro i
    rw [List.find?_eq_some_iff_append]
    constructor
    · rintro ⟨hover, visited, rest, hwalk, hfits⟩
      refine ⟨wf.lt_size_of_split hwalk, of_decide_eq_true hover, fun u _ hrank => ?_⟩
      have hu := hfits u ((wf.rank_lt_iff_mem hwalk).1 hrank)
      exact Nat.le_of_not_lt (of_decide_eq_false (Bool.not_eq_true' _ ▸ hu))
    · rintro ⟨hi, hover, hfits⟩
      obtain ⟨visited, rest, hwalk⟩ := List.append_of_mem (wf.mem_preorder.2 hi)
      refine ⟨decide_eq_true hover, visited, rest, hwalk, fun u hu => ?_⟩
      have hle := hfits u (wf.lt_size_of_mem_before hwalk hu) ((wf.rank_lt_iff_mem hwalk).2 hu)
      simpa using hle
  unfold place
  cases hrun : t.preorder.find? (wordMax < o.stop t a ·) with
  | some i =>
    constructor
    · rintro ⟨⟩
      exact ⟨i, (hfind i).1 hrun, rfl⟩
    · rintro ⟨j, hj, rfl⟩
      rw [(hfind j).2 hj] at hrun
      rw [Option.some.inj hrun]
  | none =>
    refine ⟨fun h => (nomatch h), fun ⟨j, hj, _⟩ => ?_⟩
    rw [(hfind j).2 hj] at hrun
    cases hrun

/-! ## The strategy -/

/-- The sequential strategy puts the buffers of a built tree in a row. It fails exactly if some
buffer of the row stops beyond the word, with the stage of the first one on the walk. Without an
alignment it never fails and needs as many bytes as all buffers together. -/
theorem sequential_in_row {stages : List Stage} {t : BufferTree}
    (h : BufferTree.ofStages stages = .ok t) {a : Nat} (ha : a.isPowerOfTwo) (hword : a ≤ wordMax) :
    (∀ p, Strategy.sequential.place t a = .ok p → p.InRow t a) ∧
    (∀ i, i < t.size → (Strategy.sequential.place t a = .error (.overflow (t.stageAt i)) ↔
      t.OverrunsFirst a i)) ∧
    (∀ e, Strategy.sequential.place t a = .error e →
      ∃ i, i < t.size ∧ e = .overflow (t.stageAt i)) ∧
    ∃ p, Strategy.sequential.place t 1 = .ok p ∧ p.arenaSize = t.totalWeight := by
  have wf := BufferTree.ofStages_wellFormed h
  have hpos : 0 < a := Nat.pos_of_isPowerOfTwo ha
  have hnames := BufferTree.nodup_names_of_ofStages h
  have hplace : Strategy.sequential.place t a = t.walkOrder.place t a :=
    sequential_eq_place wf ha (Nat.le_succ_of_le hword)
  refine ⟨fun p hp => ?_, fun i hi => ?_, fun e he => ?_, ?_⟩
  · obtain ⟨-, -, rfl⟩ := (StrategyKind.sequential.place_eq_ok_iff wf ha).1 hp
    exact wf.inRow_proposal hpos
  · rw [hplace, StackOrder.place_eq_error_iff wf]
    constructor
    · -- Different nodes have different stages.
      rintro ⟨j, hj, hstage⟩
      have heq := BufferTree.stageAt_injective hnames hi hj.1 (SolveError.overflow.inj hstage)
      exact heq ▸ (wf.overrunsFirst_iff hpos).2 hj
    · exact fun hover => ⟨i, (wf.overrunsFirst_iff hpos).1 hover, rfl⟩
  · rw [hplace, StackOrder.place_eq_error_iff wf] at he
    obtain ⟨i, hi, rfl⟩ := he
    exact ⟨i, hi.1, rfl⟩
  · have harena := wf.arena_walkOrder_one
    refine ⟨t.walkOrder.proposal t 1, ?_, harena⟩
    refine (StrategyKind.sequential.place_eq_ok_iff wf ⟨0, rfl⟩).2 ⟨by decide, fun i hi => ?_, rfl⟩
    have hstop : t.walkOrder.stop t 1 i ≤ t.walkOrder.arena t 1 := StackOrder.stop_le_arena hi
    exact Nat.le_trans (harena ▸ hstop) wf.total_le

/-- A root with two children of three bytes each: at an alignment of four they stop at eleven. With
two buffers of that kind below a root that leaves six bytes of the word, the second one overruns
at an alignment of four. -/
theorem sequential_in_row_star :
    (∃ t p, BufferTree.ofStages (Sample.star 2 3) = .ok t ∧
      Strategy.sequential.place t 4 = .ok p ∧ p.arenaSize = 11 ∧ p.InRow t 4) ∧
    ∃ t, BufferTree.ofStages
        [Sample.rootStage (wordMax - 6), Sample.derived 1 3 0, Sample.derived 2 3 0] = .ok t ∧
      t.OverrunsFirst 4 2 := by
  have hfour : Nat.isPowerOfTwo 4 := ⟨2, rfl⟩
  constructor
  · obtain ⟨t, p, h, hp, harena⟩ : ∃ t p, BufferTree.ofStages (Sample.star 2 3) = .ok t ∧
        Strategy.sequential.place t 4 = .ok p ∧ p.arenaSize = 11 := ⟨_, _, rfl, rfl, rfl⟩
    exact ⟨t, p, h, hp, harena, (sequential_in_row h hfour (by decide)).1 p hp⟩
  · obtain ⟨t, h, hsize, hfails⟩ : ∃ t, BufferTree.ofStages
          [Sample.rootStage (wordMax - 6), Sample.derived 1 3 0, Sample.derived 2 3 0] = .ok t ∧
        2 < t.size ∧ Strategy.sequential.place t 4 = .error (.overflow (t.stageAt 2)) :=
      ⟨_, rfl, by decide, rfl⟩
    exact ⟨t, h, ((sequential_in_row h hfour (by decide)).2.1 2 hsize).1 hfails⟩

end LifetimeArena
