import LifetimeArena.Proofs.Placement.Solving
import LifetimeArena.Proofs.Placement.Sweep
import Mathlib.Order.Bounds.Basic

/-!
# What the test on layouts accepts

`BufferTree.LaidOut` says what a correct layout is, byte by byte and without any algorithm.
`BufferTree.check` accepts a solved tree exactly if it is laid out in this sense, whoever proposed
the offsets (`BufferTree.check_eq_ok_iff`). What it reports otherwise is the first violation in a
fixed order.

- `BufferTree.Covers`, `BufferTree.stops`: the bytes of a buffer; where buffers stop.
- `BufferTree.LaidOut`: the correct layouts.
- `Solver.Reachable.check_cases`: the verdict in every state that a built tree gets into.
-/

namespace LifetimeArena

section

variable {ε α β : Type} {f : α → Except ε β} {g : α → β}

theorem mapM_eq_ok {l : List α} (h : ∀ x ∈ l, f x = .ok (g x)) : l.mapM f = .ok (l.map g) := by
  induction l with
  | nil => rfl
  | cons x l ih =>
    rw [List.mapM_cons, h x (List.mem_cons_self ..),
      ih fun y hy => h y (List.mem_cons_of_mem x hy)]
    rfl

/-- The first element that fails decides. -/
theorem mapM_eq_error {before after : List α} {x : α} {e : ε} (h : ∀ y ∈ before, f y = .ok (g y))
    (hx : f x = .error e) : (before ++ x :: after).mapM f = .error e := by
  rw [List.mapM_append, mapM_eq_ok h, List.mapM_cons, hx]
  rfl

end

namespace BufferTree

/-- The byte `x` belongs to the buffer of node `i`. -/
def Covers (t : BufferTree) (i x : Nat) : Prop :=
  ∃ o, t.offset? i = some o ∧ o ≤ x ∧ x < o + t.weight i

/-- The buffer of node `i` stops beyond the largest word. -/
def BeyondWord (t : BufferTree) (i : Nat) : Prop :=
  ∃ o, t.offset? i = some o ∧ wordMax < o + t.weight i

/-- Where the buffers stop. -/
def stops (t : BufferTree) : Set Nat :=
  {x | ∃ i o, t.offset? i = some o ∧ o + t.weight i = x}

/-- Every buffer lies within the word, the arena reaches exactly to the highest stop, and unrelated
buffers share no byte. -/
structure LaidOut (t : BufferTree) (arena : Nat) : Prop where
  recorded : t.arenaSize = some arena
  placed : ∀ i, i < t.size → ∃ o, t.offset? i = some o ∧ o + t.weight i ≤ wordMax
  highest : IsGreatest t.stops arena
  apart : ∀ i j x, i < t.size → j < t.size → ¬ t.Related i j → ¬ (t.Covers i x ∧ t.Covers j x)

/-- Every node has an offset. -/
def Filled (t : BufferTree) : Prop := ∀ i, i < t.size → (t.offset? i).isSome

variable {t : BufferTree}

theorem lt_size_of_offset? {i o : Nat} (h : t.offset? i = some o) : i < t.size := by
  obtain ⟨n, hn, -⟩ := Option.bind_eq_some_iff.1 h
  exact lt_size_of_get? hn

theorem Covers.lt_size {i x : Nat} (h : t.Covers i x) : i < t.size := by
  obtain ⟨o, ho, -⟩ := h
  exact lt_size_of_offset? ho

/-! ## The intervals of all nodes -/

theorem mem_numbered {n : Node} {i : Nat} : (n, i) ∈ t.numbered ↔ t.get? i = some n := by
  unfold numbered get?
  rw [List.mk_mem_zipIdx_iff_getElem?, Array.getElem?_toList]

theorem map_numbered {β : Type} (f : Nat → β) :
    t.numbered.map (fun x => f x.2) = (List.range t.size).map f := by
  unfold numbered
  show t.nodes.toList.zipIdx.map (f ∘ Prod.snd) = _
  rw [← List.map_map, List.zipIdx_map_snd, Array.length_toList, List.range_eq_range']
  rfl

/-- In front of a numbered node stand those with smaller numbers. -/
theorem numbered_split {n : Node} {i : Nat} (h : t.get? i = some n) :
    ∃ before after, t.numbered = before ++ (n, i) :: after ∧ ∀ x ∈ before, x.2 < i := by
  have hi : i < t.numbered.length := by
    unfold numbered
    rw [List.length_zipIdx, Array.length_toList]
    exact lt_size_of_get? h
  refine ⟨t.numbered.take i, t.numbered.drop (i + 1), ?_, fun x hx => ?_⟩
  · have hget : t.numbered[i] = (n, i) := by
      obtain ⟨hsize, hnode⟩ := Array.getElem?_eq_some_iff.1 h
      simp [numbered, hnode]
    rw [← hget, List.getElem_cons_drop, List.take_append_drop]
  · obtain ⟨j, hj, rfl⟩ := List.mem_take_iff_getElem.1 hx
    simp only [numbered, List.getElem_zipIdx]
    omega

/-- The interval of a node that has an offset. -/
def occupiedAt (t : BufferTree) (i : Nat) : Occupied :=
  ⟨⟨(t.offset? i).getD 0, (t.offset? i).getD 0 + t.weight i⟩, i⟩

/-- The intervals of all nodes, where every node has an offset. -/
def intervals (t : BufferTree) : List Occupied := (List.range t.size).map t.occupiedAt

theorem start_lt_stop_occupiedAt {i : Nat} (h : 0 < t.weight i) :
    (t.occupiedAt i).range.start < (t.occupiedAt i).range.stop := Nat.lt_add_of_pos_right h

theorem mem_range_occupiedAt {i x : Nat} (h : (t.offset? i).isSome) :
    x ∈ (t.occupiedAt i).range ↔ t.Covers i x := by
  obtain ⟨o, ho⟩ := Option.isSome_iff_exists.1 h
  rw [Interval.mem_iff, occupiedAt, Covers, ho]
  simp

/-- A node that has an offset and stays within the word occupies its interval. -/
theorem range?_of_fits {n : Node} {i : Nat} (hn : t.get? i = some n)
    (hset : (t.offset? i).isSome) (hfits : ¬ t.BeyondWord i) :
    n.range? = some (t.occupiedAt i).range := by
  obtain ⟨o, ho⟩ := Option.isSome_iff_exists.1 hset
  have hoffset : n.offset = some o := (offset?_of_get? hn).symm.trans ho
  have hle : o + t.weight i ≤ wordMax := Nat.le_of_not_lt fun hlt => hfits ⟨o, ho, hlt⟩
  rw [Node.range?, hoffset, Option.bind_some, Interval.ofLength?_eq_some_iff, occupiedAt, ho,
    ← weight_of_get? hn]
  exact ⟨rfl, hle⟩

theorem occupiedBy_of_fits {n : Node} {i : Nat} (hn : t.get? i = some n)
    (hset : (t.offset? i).isSome) (hfits : ¬ t.BeyondWord i) :
    occupiedBy (n, i) = .ok (t.occupiedAt i) := by
  obtain ⟨o, ho, hrange⟩ := Option.bind_eq_some_iff.1 (range?_of_fits hn hset hfits)
  rw [occupiedBy, ho]
  dsimp only
  rw [hrange]
  rfl

theorem occupiedBy_of_beyondWord {n : Node} {i : Nat} (hn : t.get? i = some n)
    (h : t.BeyondWord i) : occupiedBy (n, i) = .error (.beyondWord n.stage) := by
  obtain ⟨o, ho, hlt⟩ := h
  have hoffset : n.offset = some o := (offset?_of_get? hn).symm.trans ho
  rw [weight_of_get? hn] at hlt
  rw [occupiedBy, hoffset]
  dsimp only
  rw [Interval.ofLength?_eq_none_iff.2 hlt]

/-- The intervals of a tree whose buffers lie within the word. -/
theorem occupied_of_fits (hset : t.Filled) (hfits : ∀ i, ¬ t.BeyondWord i) :
    t.occupied = .ok t.intervals := by
  rw [intervals, ← map_numbered]
  refine mapM_eq_ok fun ⟨n, i⟩ hx => ?_
  have hn := mem_numbered.1 hx
  exact occupiedBy_of_fits hn (hset i (lt_size_of_get? hn)) (hfits i)

/-- The first node beyond the word is reported. -/
theorem occupied_of_beyondWord (hset : t.Filled) {i : Nat} (hi : t.BeyondWord i)
    (hfirst : ∀ j, j < i → ¬ t.BeyondWord j) : t.occupied = .error (.beyondWord (t.stageAt i)) := by
  obtain ⟨o, ho, -⟩ := id hi
  obtain ⟨n, hn⟩ := exists_get? (lt_size_of_offset? ho)
  obtain ⟨before, after, hsplit, hbefore⟩ := numbered_split hn
  unfold occupied
  rw [hsplit, stageAt_of_get? hn]
  -- The nodes in front of the first one beyond the word do have intervals.
  refine mapM_eq_error (g := fun x => t.occupiedAt x.2) (fun ⟨m, j⟩ hx => ?_)
    (occupiedBy_of_beyondWord hn hi)
  have hm : t.get? j = some m := by
    rw [← mem_numbered, hsplit]
    exact List.mem_append_left _ hx
  exact occupiedBy_of_fits hm (hset j (lt_size_of_get? hm)) (hfirst j (hbefore _ hx))

/-! ## The highest stop -/

theorem stop_le_highestStop {l : List Occupied} {p : Occupied} (h : p ∈ l) :
    p.range.stop ≤ highestStop l := by
  induction l with
  | nil => cases h
  | cons q l ih =>
    rw [highestStop]
    rcases List.mem_cons.1 h with rfl | hp
    · exact Nat.le_max_left _ _
    · exact Nat.le_trans (ih hp) (Nat.le_max_right _ _)

theorem exists_highestStop {l : List Occupied} (h : l ≠ []) :
    ∃ p ∈ l, p.range.stop = highestStop l := by
  induction l with
  | nil => exact absurd rfl h
  | cons q l ih =>
    rw [highestStop]
    by_cases hle : highestStop l ≤ q.range.stop
    · exact ⟨q, List.mem_cons_self .., (Nat.max_eq_left hle).symm⟩
    · have hne : l ≠ [] := by
        rintro rfl
        exact hle (Nat.zero_le _)
      obtain ⟨p, hp, hstop⟩ := ih hne
      refine ⟨p, List.mem_cons_of_mem q hp, ?_⟩
      rw [hstop, Nat.max_eq_right (Nat.le_of_not_le hle)]

theorem mem_stops (hset : t.Filled) {x : Nat} :
    x ∈ t.stops ↔ ∃ p ∈ t.intervals, p.range.stop = x := by
  constructor
  · rintro ⟨i, o, ho, rfl⟩
    refine ⟨t.occupiedAt i, ?_, ?_⟩
    · exact List.mem_map_of_mem (List.mem_range.2 (lt_size_of_offset? ho))
    · rw [occupiedAt, ho]
      rfl
  · rintro ⟨p, hp, rfl⟩
    obtain ⟨i, hi, rfl⟩ := List.mem_map.1 hp
    obtain ⟨o, ho⟩ := Option.isSome_iff_exists.1 (hset i (List.mem_range.1 hi))
    refine ⟨i, o, ho, ?_⟩
    rw [occupiedAt, ho]
    rfl

theorem isGreatest_highestStop (hset : t.Filled) (hsize : 0 < t.size) :
    IsGreatest t.stops (highestStop t.intervals) := by
  constructor
  · refine (mem_stops hset).2 (exists_highestStop fun h => ?_)
    rw [intervals, List.map_eq_nil_iff, List.range_eq_nil] at h
    omega
  · intro x hx
    obtain ⟨p, hp, rfl⟩ := (mem_stops hset).1 hx
    exact stop_le_highestStop hp

/-! ## Shared bytes -/

theorem apart_comm (p q : Occupied) : t.apart p q = t.apart q p := Bool.and_comm _ _

theorem apart_eq_false_iff {p q : Occupied} (hne : p.node ≠ q.node) :
    t.apart p q = false ↔ t.Related p.node q.node := by
  unfold apart Related
  rw [Bool.and_eq_false_iff, Bool.not_eq_false', Bool.not_eq_false', decide_eq_true_iff,
    decide_eq_true_iff]
  exact (or_iff_right hne).symm

/-- The sweep finds nothing exactly if no two unrelated buffers share a byte. -/
theorem aliases_eq_nil_iff (hset : t.Filled) (hweight : ∀ i, i < t.size → 0 < t.weight i) :
    t.aliases t.intervals = [] ↔
      ∀ i j x, i < t.size → j < t.size → ¬ t.Related i j → ¬ (t.Covers i x ∧ t.Covers j x) := by
  have hne : ∀ p ∈ t.intervals, p.range.start < p.range.stop := by
    intro p hp
    obtain ⟨i, hi, rfl⟩ := List.mem_map.1 hp
    exact start_lt_stop_occupiedAt (hweight i (List.mem_range.1 hi))
  rw [aliases, List.map_eq_nil_iff, sweep_sort_eq_nil_iff apart_comm hne, intervals,
    List.pairwise_map, List.pairwise_iff_getElem]
  simp only [List.getElem_range, List.length_range]
  constructor
  · intro h i j x hi hj hunrelated ⟨hix, hjx⟩
    -- The list has every pair once, the smaller number first.
    have key : ∀ {u v}, u < v → u < t.size → v < t.size → t.Covers u x → t.Covers v x →
        t.Related u v := by
      intro u v huv hu hv hux hvx
      have hcompatible := h u v hu hv huv x ((mem_range_occupiedAt (hset u hu)).2 hux)
        ((mem_range_occupiedAt (hset v hv)).2 hvx)
      exact (apart_eq_false_iff (Nat.ne_of_lt huv)).1 hcompatible
    rcases Nat.lt_trichotomy i j with hlt | rfl | hgt
    · exact hunrelated (key hlt hi hj hix hjx)
    · exact hunrelated (.inl rfl)
    · exact hunrelated (key hgt hj hi hjx hix).symm
  · intro h i j hi hj hlt x hix hjx
    refine (apart_eq_false_iff (Nat.ne_of_lt hlt)).2 (Decidable.not_not.1 fun hunrelated => ?_)
    exact h i j x hi hj hunrelated
      ⟨(mem_range_occupiedAt (hset i hi)).1 hix, (mem_range_occupiedAt (hset j hj)).1 hjx⟩

/-! ## The verdict -/

theorem check_of_unsolved (h : t.arenaSize = none) :
    t.check = .error (.unsolved (t.stageAt t.root)) := by
  unfold check
  rw [h]

section

variable {recorded : Nat} (hsolved : t.arenaSize = some recorded) (hset : t.Filled)
include hsolved hset

theorem check_of_beyondWord {i : Nat} (hi : t.BeyondWord i)
    (hfirst : ∀ j, j < i → ¬ t.BeyondWord j) : t.check = .error (.beyondWord (t.stageAt i)) := by
  unfold check
  rw [hsolved]
  dsimp only
  rw [occupied_of_beyondWord hset hi hfirst]

variable (hfits : ∀ i, ¬ t.BeyondWord i)
include hfits

/-- With all buffers within the word, the arena size comes first and then the sweep. -/
theorem check_eq_of_fits :
    t.check =
      if highestStop t.intervals ≠ recorded then
        .error (.sizeMismatch recorded (highestStop t.intervals))
      else if t.aliases t.intervals = [] then .ok ()
      else .error (.aliasing (t.aliases t.intervals)) := by
  unfold check
  rw [hsolved]
  dsimp only
  rw [occupied_of_fits hset hfits]
  dsimp only
  cases t.aliases t.intervals with
  | nil => rfl
  | cons e pairs => rfl

variable {actual : Nat} (hactual : IsGreatest t.stops actual)
include hactual

/-- The cases of the verdict, by the stop of the highest buffer. -/
theorem check_of_fits (hsize : 0 < t.size) :
    (actual ≠ recorded ∧ t.check = .error (.sizeMismatch recorded actual)) ∨
      actual = recorded ∧
        (t.aliases t.intervals = [] ∧ t.check = .ok () ∨
          t.aliases t.intervals ≠ [] ∧
            ∃ pairs, pairs ≠ [] ∧ t.check = .error (.aliasing pairs)) := by
  obtain rfl := (isGreatest_highestStop hset hsize).unique hactual
  rw [check_eq_of_fits hsolved hset hfits]
  by_cases hsame : highestStop t.intervals = recorded
  · rw [if_neg (not_not_intro hsame)]
    refine .inr ⟨hsame, ?_⟩
    by_cases hnil : t.aliases t.intervals = []
    · rw [if_pos hnil]
      exact .inl ⟨hnil, rfl⟩
    · rw [if_neg hnil]
      exact .inr ⟨hnil, _, hnil, rfl⟩
  · rw [if_pos hsame]
    exact .inl ⟨hsame, rfl⟩

theorem laidOut_iff_of_fits :
    t.LaidOut recorded ↔ actual = recorded ∧
      ∀ i j x, i < t.size → j < t.size → ¬ t.Related i j → ¬ (t.Covers i x ∧ t.Covers j x) := by
  constructor
  · intro h
    exact ⟨hactual.unique h.highest, h.apart⟩
  · rintro ⟨rfl, hapart⟩
    refine ⟨hsolved, fun i hi => ?_, hactual, hapart⟩
    obtain ⟨o, ho⟩ := Option.isSome_iff_exists.1 (hset i hi)
    exact ⟨o, ho, Nat.le_of_not_lt fun hlt => hfits i ⟨o, ho, hlt⟩⟩

end

theorem exists_first_beyondWord (h : ∃ i, t.BeyondWord i) :
    ∃ i, t.BeyondWord i ∧ ∀ j, j < i → ¬ t.BeyondWord j := by
  classical
  exact ⟨Nat.find h, Nat.find_spec h, fun j hj => Nat.find_min h hj⟩

theorem LaidOut.not_beyondWord {arena : Nat} (h : t.LaidOut arena) (i : Nat) :
    ¬ t.BeyondWord i := by
  rintro ⟨o, ho, hlt⟩
  obtain ⟨o', ho', hle⟩ := h.placed i (lt_size_of_offset? ho)
  rw [ho] at ho'
  cases ho'
  omega

theorem LaidOut.filled {arena : Nat} (h : t.LaidOut arena) : t.Filled := by
  intro i hi
  obtain ⟨o, ho, -⟩ := h.placed i hi
  rw [ho]
  rfl

/-- In a correct layout every node has its bytes. -/
theorem LaidOut.range?_eq {arena : Nat} (h : t.LaidOut arena) {n : Node} {i : Nat}
    (hn : t.get? i = some n) : n.range? = some (t.occupiedAt i).range :=
  range?_of_fits hn (h.filled i (lt_size_of_get? hn)) (h.not_beyondWord i)

/-- The test accepts exactly the correct layouts. -/
theorem check_eq_ok_iff (wf : t.WellFormed) (hset : t.arenaSize.isSome → t.Filled) :
    t.check = .ok () ↔ ∃ arena, t.LaidOut arena := by
  cases hsolved : t.arenaSize with
  | none =>
    rw [check_of_unsolved hsolved]
    refine ⟨fun h => (nomatch h), fun ⟨arena, h⟩ => ?_⟩
    rw [h.recorded] at hsolved
    cases hsolved
  | some recorded =>
    have hfilled : t.Filled := hset (by rw [hsolved]; rfl)
    have hlaid : (∃ arena, t.LaidOut arena) ↔ t.LaidOut recorded := by
      refine ⟨fun ⟨arena, h⟩ => ?_, fun h => ⟨recorded, h⟩⟩
      have harena := h.recorded
      rw [hsolved] at harena
      cases harena
      exact h
    rw [hlaid]
    -- The cases are those of the test, in its order.
    by_cases hbeyond : ∃ i, t.BeyondWord i
    · obtain ⟨i, hi, hfirst⟩ := exists_first_beyondWord hbeyond
      rw [check_of_beyondWord hsolved hfilled hi hfirst]
      exact ⟨fun h => (nomatch h), fun h => absurd hi (h.not_beyondWord i)⟩
    · have hfits : ∀ i, ¬ t.BeyondWord i := fun i hi => hbeyond ⟨i, hi⟩
      have hactual := isGreatest_highestStop hfilled wf.size_pos
      rw [laidOut_iff_of_fits hsolved hfilled hfits hactual,
        ← aliases_eq_nil_iff hfilled wf.weight_pos]
      rcases check_of_fits hsolved hfilled hfits hactual wf.size_pos with
        ⟨hne, hcheck⟩ | ⟨heq, ⟨hnil, hcheck⟩ | ⟨hpairs, pairs, -, hcheck⟩⟩
      · rw [hcheck]
        exact ⟨fun h => (nomatch h), fun h => absurd h.1 hne⟩
      · exact ⟨fun _ => ⟨heq, hnil⟩, fun _ => hcheck⟩
      · rw [hcheck]
        exact ⟨fun h => (nomatch h), fun h => absurd h.2 hpairs⟩

theorem LaidOut.check_eq_ok (wf : t.WellFormed) {arena : Nat} (h : t.LaidOut arena) :
    t.check = .ok () :=
  (check_eq_ok_iff wf fun _ => h.filled).2 ⟨arena, h⟩

end BufferTree

namespace Solver

variable {t : BufferTree}

/-- A solved state has no node without an offset. -/
theorem Reachable.filled (h : Reachable t) (hsolved : t.arenaSize.isSome) : t.Filled := by
  rcases h.unset_or_set with ⟨hnone, -⟩ | ⟨-, hall⟩
  · rw [hnone] at hsolved
    cases hsolved
  · exact hall

/-- The verdict in every state that a built tree gets into, whatever has been written into it. The
test accepts the correct layouts. Of the rest it reports that the tree is unsolved, or else the
first buffer beyond the word, or else a wrong arena size, or else shared bytes. -/
theorem Reachable.check_cases (h : Reachable t) :
    (t.check = .ok () ↔ ∃ arena, t.LaidOut arena) ∧
    (t.arenaSize = none →
      ∃ n, t.get? t.root = some n ∧ t.check = .error (.unsolved n.stage)) ∧
    ∀ recorded, t.arenaSize = some recorded →
      (∀ i n, t.get? i = some n → t.BeyondWord i → (∀ j, j < i → ¬ t.BeyondWord j) →
        t.check = .error (.beyondWord n.stage)) ∧
      ((∀ i, ¬ t.BeyondWord i) →
        ∃ actual, IsGreatest t.stops actual ∧
          (actual ≠ recorded → t.check = .error (.sizeMismatch recorded actual)) ∧
          (actual = recorded → (¬ ∃ arena, t.LaidOut arena) →
            ∃ pairs, pairs ≠ [] ∧ t.check = .error (.aliasing pairs))) := by
  have wf := h.wellFormed
  have hset : t.arenaSize.isSome → t.Filled := by
    intro hsome
    rcases h.unset_or_set with ⟨hnone, -⟩ | ⟨-, hall⟩
    · rw [hnone] at hsome
      cases hsome
    · exact hall
  have hiff := BufferTree.check_eq_ok_iff wf hset
  refine ⟨hiff, fun hnone => ?_, fun recorded hsolved => ?_⟩
  · obtain ⟨n, hn⟩ := BufferTree.exists_get? (i := t.root) wf.size_pos
    refine ⟨n, hn, ?_⟩
    rw [BufferTree.check_of_unsolved hnone, BufferTree.stageAt_of_get? hn]
  · have hfilled : t.Filled := hset (by rw [hsolved]; rfl)
    refine ⟨fun i n hn hi hfirst => ?_, fun hfits => ?_⟩
    · rw [BufferTree.check_of_beyondWord hsolved hfilled hi hfirst, BufferTree.stageAt_of_get? hn]
    · have hactual := BufferTree.isGreatest_highestStop hfilled wf.size_pos
      refine ⟨_, hactual, ?_⟩
      rcases BufferTree.check_of_fits hsolved hfilled hfits hactual wf.size_pos with
        ⟨hne, hcheck⟩ | ⟨heq, ⟨-, hcheck⟩ | ⟨-, hpairs⟩⟩
      · exact ⟨fun _ => hcheck, fun heq => absurd heq hne⟩
      · exact ⟨fun hne => absurd heq hne, fun _ hwrong => absurd (hiff.1 hcheck) hwrong⟩
      · exact ⟨fun hne => absurd heq hne, fun _ _ => hpairs⟩

/-- A strategy that puts both children of a root at the ground is found out. -/
theorem Reachable.check_cases_star :
    ∃ t, Reachable t ∧ t.arenaSize = some 4 ∧ ¬ ∃ arena, t.LaidOut arena := by
  obtain ⟨t, h, harena, hcheck⟩ : ∃ t, Reachable t ∧ t.arenaSize = some 4 ∧ t.check ≠ .ok () :=
    ⟨_, ⟨Sample.star 2 4, _,
      [⟨{ verify := false }, ⟨"ground", fun t _ => .ok ⟨Array.replicate t.size 0, 4⟩⟩⟩], rfl, rfl⟩,
      rfl, by decide⟩
  exact ⟨t, h, harena, fun hlaid => hcheck (h.check_cases.1.2 hlaid)⟩

end Solver

end LifetimeArena
