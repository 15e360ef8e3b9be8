import LifetimeArena.Proofs.Placement.BuiltIn

/-!
# Worst fit is bump placement

The search for the longest gap suggests that worst fit leaves holes and fills them later. It never
does. When the walk comes to a node, the buffers that the node must avoid are packed: the gaps
between them are padding in front of an aligned byte, and no buffer fits into one. So every node
goes to the first aligned byte above all placed buffers that are not its ancestors', and the walk
fails at the first node that leaves the word there. A strategy without any search does the same.

- `bump`: placement without a search.
- `Packing.Arrives`: the walk of worst fit comes to a node.
- `Packing.Arrives.place_eq_bump`: what happens there.
- `worstFit_eq_bump`: the two strategies agree, and where and why they fail.
-/

namespace LifetimeArena

/-! ## Runs that stop at a failure -/

section

variable {α β ε : Type} {f g : β → α → Except ε β}

/-- Two runs agree if their steps agree wherever the first run gets to. -/
theorem foldlM_congr_of_run {l : List α} {b : β}
    (h : ∀ before x after b', l = before ++ x :: after → before.foldlM f b = .ok b' →
      f b' x = g b' x) : l.foldlM f b = l.foldlM g b := by
  induction l generalizing b with
  | nil => rfl
  | cons x l ih =>
    have hx : f b x = g b x := h [] x l b rfl rfl
    rw [List.foldlM_cons, List.foldlM_cons, ← hx]
    cases hstep : f b x with
    | error e => rfl
    | ok b' =>
      refine ih fun before y after c hl hrun => h (x :: before) y after c ?_ ?_
      · rw [hl, List.cons_append]
      · rw [List.foldlM_cons, hstep]
        exact hrun

/-- A run fails as the first step does that fails. -/
theorem foldlM_eq_error_iff {l : List α} {b : β} {e : ε} :
    l.foldlM f b = .error e ↔ ∃ before x after b', l = before ++ x :: after ∧
      before.foldlM f b = .ok b' ∧ f b' x = .error e := by
  constructor
  · intro h
    induction l generalizing b with
    | nil => cases h
    | cons x l ih =>
      rw [List.foldlM_cons] at h
      cases hstep : f b x with
      | error e' =>
        rw [hstep] at h
        cases h
        exact ⟨[], x, l, b, rfl, rfl, hstep⟩
      | ok c =>
        rw [hstep] at h
        obtain ⟨before, y, after, b', rfl, hrun, hy⟩ := ih h
        refine ⟨x :: before, y, after, b', rfl, ?_, hy⟩
        rw [List.foldlM_cons, hstep]
        exact hrun
  · rintro ⟨before, x, after, b', rfl, hrun, hx⟩
    rw [List.foldlM_append, hrun]
    show (x :: after).foldlM f b' = .error e
    rw [List.foldlM_cons, hx]
    rfl

end

/-! ## Placement without a search -/

namespace Packing

/-- The buffers placed so far that are not those of ancestors of a node. -/
def nonAncestors (s : Packing) (t : BufferTree) (i : Nat) : List Interval :=
  (s.taken.filter fun p => ¬ t.IsAncestor p.node i).map (·.range)

/-- The first multiple of the alignment above all of them. -/
def bumpStart (s : Packing) (t : BufferTree) (a i : Nat) : Nat :=
  roundUp a (topOf (s.nonAncestors t i))

/-- Places a node there, if it stays within the word. -/
def bump (t : BufferTree) (a : Nat) (s : Packing) (i : Nat) : Except SolveError Packing :=
  let start := s.bumpStart t a i
  if wordMax < start + t.weight i then .error (.overflow (t.stageAt i))
  else .ok (s.enter i ⟨start, start + t.weight i⟩)

end Packing

/-- Places every node of a tree in pre-order, each above the buffers that it must avoid. -/
def bump (t : BufferTree) (a : Nat) : Except SolveError Placement :=
  (t.preorder.foldlM (Packing.bump t a) (Packing.empty t)).map fun s => ⟨s.offsets, s.arenaSize⟩

namespace Packing

/-- The walk of worst fit comes to node `i` after it has placed the visited nodes. -/
structure Arrives (t : BufferTree) (a : Nat) (visited : List Nat) (i : Nat) (s : Packing) :
    Prop where
  order : ∃ rest, t.preorder = visited ++ i :: rest
  run : visited.foldlM (place t (SubtreeSpans.ofTree t) a) (empty t) = .ok s

/-- Exactly the visited nodes are placed, and every one has the bytes from its offset on. -/
structure Holds (s : Packing) (t : BufferTree) (visited : List Nat) : Prop where
  nodes : (s.taken.map (·.node)).Perm visited
  range : ∀ p ∈ s.taken, s.offsets[p.node]? = some p.range.start ∧
    p.range.stop = p.range.start + t.weight p.node

variable {t : BufferTree} {a : Nat} {visited rest : List Nat} {i : Nat} {s : Packing}

theorem mem_nonAncestors {r : Interval} :
    r ∈ s.nonAncestors t i ↔ ∃ p ∈ s.taken, ¬ t.IsAncestor p.node i ∧ p.range = r := by
  unfold nonAncestors
  rw [List.mem_map]
  simp only [List.mem_filter, decide_eq_true_iff, and_assoc]

/-- The start depends on nothing but the stops of the buffers to avoid. -/
theorem isLeast_bumpStart (ha : 0 < a) (s : Packing) (t : BufferTree) (i : Nat) :
    IsLeast {m | a ∣ m ∧ ∀ p ∈ s.taken, ¬ t.IsAncestor p.node i → p.range.stop ≤ m}
      (s.bumpStart t a i) := by
  refine ⟨⟨dvd_roundUp a _, fun p hp hnot => ?_⟩, fun m hm => ?_⟩
  · have hmem : p.range ∈ s.nonAncestors t i := mem_nonAncestors.2 ⟨p, hp, hnot, rfl⟩
    exact Nat.le_trans (le_topOf_of_mem hmem) (le_roundUp ha _)
  · refine roundUp_le_of_dvd hm.1 (topOf_le_iff.2 fun r hr => ?_)
    obtain ⟨p, hp, hnot, rfl⟩ := mem_nonAncestors.1 hr
    exact hm.2 p hp hnot

theorem Matches.holds (hs : Matches t a visited s) : s.Holds t visited where
  nodes := by
    have hmap := hs.taken.map (·.node)
    rw [List.map_map] at hmap
    exact hmap.trans (.of_eq (List.map_id visited))
  range := by
    intro p hp
    obtain ⟨u, hu, rfl⟩ := (mem_taken_iff hs).1 hp
    exact ⟨hs.filled.getElem?_eq u hu, rfl⟩

/-- Of the nodes placed before a node, its ancestors are those whose subtree it belongs to. -/
theorem obstacles_eq (wf : t.WellFormed) (hwalk : t.preorder = visited ++ i :: rest)
    (hs : Matches t a visited s) :
    s.obstacles (SubtreeSpans.ofTree t) i = s.nonAncestors t i := by
  have hi : i < t.size := wf.lt_size_of_split hwalk
  refine congrArg (List.map _) (List.filter_congr fun p hp => decide_eq_decide.2 (not_congr ?_))
  obtain ⟨u, hu, rfl⟩ := (mem_taken_iff hs).1 hp
  have hsize : u < t.size := wf.lt_size_of_mem_before hwalk hu
  -- The walk has not been at the node itself yet.
  have hne : u ≠ i := by
    rintro rfl
    exact Nat.lt_irrefl _ ((wf.rank_lt_iff_mem hwalk).2 hu)
  rw [wf.contains_iff hsize hi]
  exact or_iff_right hne

theorem bumpStart_eq_offset (wf : t.WellFormed) (hwalk : t.preorder = visited ++ i :: rest)
    (hs : Matches t a visited s) : s.bumpStart t a i = t.finishOrder.offset t a i := by
  rw [bumpStart, ← obstacles_eq wf hwalk hs, topOf_obstacles wf hwalk hs, StackOrder.offset_eq]

namespace Arrives

variable (wf : t.WellFormed) (ha : a.isPowerOfTwo) (hle : a ≤ wordMax + 1)
  (h : Arrives t a visited i s)
include wf ha hle h

theorem stacked : Matches t a visited s := by
  obtain ⟨rest, hwalk⟩ := h.order
  exact (follows_place wf ha hle).of_foldlM_eq_ok (matches_empty t a) hwalk h.run

/-- There is no usable gap between the obstacles. -/
theorem unfit_innerGaps {g : Interval}
    (hg : g ∈ innerGaps 0 (s.obstacles (SubtreeSpans.ofTree t) i)) : Unfit (t.weight i) a g := by
  obtain ⟨rest, hwalk⟩ := h.order
  have hi : i < t.size := wf.lt_size_of_split hwalk
  have hpacked := packed_obstacles wf (Nat.pos_of_isPowerOfTwo ha) hwalk (h.stacked wf ha hle)
  exact hpacked.unfit ha (wf.weight_pos i hi) hg

/-- The search makes no difference. -/
theorem place_eq_bump : place t (SubtreeSpans.ofTree t) a s i = bump t a s i := by
  obtain ⟨rest, hwalk⟩ := h.order
  have hs := h.stacked wf ha hle
  have hstop : s.bumpStart t a i + t.weight i = t.finishOrder.stop t a i := by
    rw [bumpStart_eq_offset wf hwalk hs]
    rfl
  unfold place bump
  dsimp only
  rw [choose?_eq wf ha hle hwalk hs, hstop, bumpStart_eq_offset wf hwalk hs]
  by_cases hlt : wordMax < t.finishOrder.stop t a i
  · rw [if_pos hlt, if_pos hlt]
  · rw [if_neg hlt, if_neg hlt]
    rfl

/-- The offset of the node in the end, if the walk gets there. -/
theorem getElem?_offsets {p : Placement} (hp : worstFit t a = .ok p) :
    p.offsets[i]? = some (s.bumpStart t a i) := by
  obtain ⟨rest, hwalk⟩ := h.order
  have hi : i < t.size := wf.lt_size_of_split hwalk
  obtain ⟨-, -, rfl⟩ := (StrategyKind.worstFit.place_eq_ok_iff wf ha).1 hp
  have hstacked := h.stacked wf ha hle
  rw [bumpStart_eq_offset wf hwalk hstacked]
  exact StackOrder.getElem?_proposal hi

end Arrives

end Packing

/-! ## The strategies -/

section

variable {t : BufferTree} {a : Nat}

/-- A walk that gets to its end comes to every node. -/
theorem exists_arrives_of_worstFit (wf : t.WellFormed) {p : Placement} (hp : worstFit t a = .ok p)
    {i : Nat} (hi : i < t.size) : ∃ visited s, Packing.Arrives t a visited i s := by
  obtain ⟨visited, rest, hwalk⟩ := List.append_of_mem (wf.mem_preorder.2 hi)
  cases hrun : visited.foldlM (Packing.place t (SubtreeSpans.ofTree t) a) (Packing.empty t) with
  | ok s => exact ⟨visited, s, ⟨rest, hwalk⟩, hrun⟩
  | error e =>
    unfold worstFit at hp
    dsimp only at hp
    rw [hwalk, List.foldlM_append, hrun] at hp
    cases hp

theorem worstFit_eq_error_iff {e : SolveError} :
    worstFit t a = .error e ↔ ∃ visited i s, Packing.Arrives t a visited i s ∧
      Packing.place t (SubtreeSpans.ofTree t) a s i = .error e := by
  have hfold : worstFit t a = .error e ↔
      t.preorder.foldlM (Packing.place t (SubtreeSpans.ofTree t) a) (Packing.empty t) =
        .error e := by
    unfold worstFit
    dsimp only
    cases t.preorder.foldlM (Packing.place t (SubtreeSpans.ofTree t) a) (Packing.empty t) with
    | ok s => exact ⟨fun h => (nomatch h), fun h => (nomatch h)⟩
    | error e' => rw [Except.error.injEq, Except.error.injEq]
  rw [hfold, foldlM_eq_error_iff]
  constructor
  · rintro ⟨visited, i, rest, s, hwalk, hrun, hplace⟩
    exact ⟨visited, i, s, ⟨⟨rest, hwalk⟩, hrun⟩, hplace⟩
  · rintro ⟨visited, i, s, ⟨⟨rest, hwalk⟩, hrun⟩, hplace⟩
    exact ⟨visited, i, rest, s, hwalk, hrun, hplace⟩

theorem Packing.bump_eq_error_iff {s : Packing} {i : Nat} {e : SolveError} :
    Packing.bump t a s i = .error e ↔
      wordMax < s.bumpStart t a i + t.weight i ∧ e = .overflow (t.stageAt i) := by
  unfold Packing.bump
  dsimp only
  split
  · next hlt => rw [Except.error.injEq, eq_comm, and_iff_right hlt]
  · next hnot => exact ⟨fun h => (nomatch h), fun h => absurd h.1 hnot⟩

/-- On every built tree worst fit is bump placement. Whenever its walk comes to a node, no gap
between the placed buffers of others than ancestors is usable, and the node gets the least multiple
of the alignment at or above all their stops. The walk fails where this leaves the word, and
nowhere else. -/
theorem worstFit_eq_bump {stages : List Stage} (h : BufferTree.ofStages stages = .ok t)
    (ha : a.isPowerOfTwo) (hword : a ≤ wordMax) :
    Strategy.worstFit.place t a = bump t a ∧
    (∀ visited i s, Packing.Arrives t a visited i s →
      s.Holds t visited ∧
      (∀ g ∈ innerGaps 0 (s.obstacles (SubtreeSpans.ofTree t) i), Unfit (t.weight i) a g) ∧
      IsLeast {m | a ∣ m ∧ ∀ p ∈ s.taken, ¬ t.IsAncestor p.node i → p.range.stop ≤ m}
        (s.bumpStart t a i) ∧
      Packing.place t (SubtreeSpans.ofTree t) a s i = Packing.bump t a s i) ∧
    (∀ e, Strategy.worstFit.place t a = .error e ↔
      ∃ visited i s, Packing.Arrives t a visited i s ∧
        wordMax < s.bumpStart t a i + t.weight i ∧ e = .overflow (t.stageAt i)) ∧
    ∀ p, Strategy.worstFit.place t a = .ok p → ∀ i, i < t.size →
      ∃ visited s, Packing.Arrives t a visited i s ∧
        p.offsets[i]? = some (s.bumpStart t a i) := by
  have wf := BufferTree.ofStages_wellFormed h
  have hle : a ≤ wordMax + 1 := Nat.le_succ_of_le hword
  refine ⟨?_, fun visited i s harrives => ?_, fun e => ?_, fun p hp i hi => ?_⟩
  · -- Up to where worst fit gets the two walks take the same steps.
    have hfold := foldlM_congr_of_run (l := t.preorder) (b := Packing.empty t)
      fun visited i rest s hwalk hrun =>
        (Packing.Arrives.mk (a := a) ⟨rest, hwalk⟩ hrun).place_eq_bump wf ha hle
    show worstFit t a = bump t a
    unfold worstFit bump
    dsimp only
    rw [hfold]
    cases t.preorder.foldlM (Packing.bump t a) (Packing.empty t) with
    | ok s => rfl
    | error e => rfl
  · exact ⟨(harrives.stacked wf ha hle).holds, fun g => harrives.unfit_innerGaps wf ha hle,
      Packing.isLeast_bumpStart (Nat.pos_of_isPowerOfTwo ha) s t i,
      harrives.place_eq_bump wf ha hle⟩
  · refine (worstFit_eq_error_iff (t := t) (a := a) (e := e)).trans ?_
    refine exists_congr fun visited => exists_congr fun i => exists_congr fun s =>
      and_congr_right fun harrives => ?_
    rw [harrives.place_eq_bump wf ha hle, Packing.bump_eq_error_iff]
  · obtain ⟨visited, s, harrives⟩ := exists_arrives_of_worstFit wf hp hi
    exact ⟨visited, s, harrives, harrives.getElem?_offsets wf ha hle hp⟩

/-- Ten stages with every kind of branching, at an alignment of eight. -/
theorem worstFit_eq_bump_reference :
    ∃ t p, BufferTree.ofStages Sample.reference = .ok t ∧ bump t 8 = .ok p ∧
      p.arenaSize = 36 ∧
      ∃ visited s, Packing.Arrives t 8 visited 4 s ∧ s.bumpStart t 8 4 = 24 := by
  obtain ⟨t, p, h, hp, harena, hsize, hoffset⟩ : ∃ t p,
      BufferTree.ofStages Sample.reference = .ok t ∧ Strategy.worstFit.place t 8 = .ok p ∧
        p.arenaSize = 36 ∧ 4 < t.size ∧ p.offsets[4]? = some 24 :=
    ⟨_, _, rfl, rfl, rfl, by decide, rfl⟩
  obtain ⟨hbump, -, -, hoffsets⟩ := worstFit_eq_bump h (a := 8) ⟨3, rfl⟩ (by decide)
  obtain ⟨visited, s, harrives, hstart⟩ := hoffsets p hp 4 hsize
  rw [hoffset] at hstart
  exact ⟨t, p, h, hbump.symm.trans hp, harena, visited, s, harrives,
    (Option.some.inj hstart).symm⟩

end

end LifetimeArena
