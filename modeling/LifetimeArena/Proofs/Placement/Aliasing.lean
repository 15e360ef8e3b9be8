import LifetimeArena.Proofs.Placement.Soundness

/-!
# The report of shared bytes

A solved tree in which unrelated buffers share bytes is refused with a list of the pairs that do.
The list is exact. It has one entry for every such pair and no other entry, and an entry has the
stages and the bytes of its two nodes, the one that comes first in the order of intervals in front.
The entries themselves are sorted by their second node and then by their first one.

- `BufferTree.Clash`: two unrelated buffers share a byte.
- `BufferTree.mem_met_iff`: the sweep meets the clashing pairs, each in its order.
- `Alias.Names`: the two nodes that an entry stands for.
- `Solver.Reachable.aliasing_exact`: what a refusal lists.
-/

namespace LifetimeArena

/-- The entry stands for the nodes `i` and `j` in this order: it has the stages that write them and
the bytes that they occupy. -/
structure Alias.Names (e : Alias) (t : BufferTree) (i j : Nat) : Prop where
  first : ∃ n, t.get? i = some n ∧ n.stage = e.first ∧ n.range? = some e.firstRange
  second : ∃ n, t.get? j = some n ∧ n.stage = e.second ∧ n.range? = some e.secondRange

/-- The intervals of an entry that stands for the nodes `i` and `j`. -/
def Alias.intervals (e : Alias) (i j : Nat) : Occupied × Occupied :=
  (⟨e.firstRange, i⟩, ⟨e.secondRange, j⟩)

namespace BufferTree

/-- Two unrelated buffers share a byte. -/
def Clash (t : BufferTree) (i j : Nat) : Prop :=
  ¬ t.Related i j ∧ ∃ x, t.Covers i x ∧ t.Covers j x

variable {t : BufferTree} {i j : Nat}

theorem Clash.ne (h : t.Clash i j) : i ≠ j := fun heq => h.1 (.inl heq)

theorem Clash.symm (h : t.Clash i j) : t.Clash j i := by
  obtain ⟨hunrelated, x, hi, hj⟩ := h
  exact ⟨fun hrelated => hunrelated hrelated.symm, x, hj, hi⟩

theorem Clash.lt_size (h : t.Clash i j) : i < t.size ∧ j < t.size := by
  obtain ⟨-, x, ⟨o, ho, -⟩, ⟨o', ho', -⟩⟩ := h
  exact ⟨lt_size_of_offset? ho, lt_size_of_offset? ho'⟩

/-! ## What the sweep meets -/

theorem mem_intervals {p : Occupied} : p ∈ t.intervals ↔ ∃ i < t.size, t.occupiedAt i = p := by
  simp [intervals]

/-- The pairs that the sweep meets in the intervals of a tree. -/
def met (t : BufferTree) : List (Occupied × Occupied) :=
  sweep t.apart [] (Occupied.sort t.intervals)

/-- The sweep goes through the intervals of a tree without ties. -/
theorem pairwise_ahead_intervals : (Occupied.sort t.intervals).Pairwise Occupied.Ahead := by
  refine Occupied.pairwise_ahead_sort ?_
  have hnodes : t.intervals.map (·.node) = List.range t.size := by
    simp [intervals, Function.comp_def, occupiedAt]
  rw [hnodes]
  exact List.nodup_range

theorem pairwise_reported_met : t.met.Pairwise ReportedBefore :=
  pairwise_sweep pairwise_ahead_intervals

section

variable (hset : t.Filled) (hweight : ∀ i, i < t.size → 0 < t.weight i)
include hset hweight

/-- Two buffers in their order share a byte if the second one starts before the first one stops. -/
theorem exists_covered_iff (hi : i < t.size) (hj : j < t.size)
    (h : (t.occupiedAt i).Ahead (t.occupiedAt j)) :
    (∃ x, t.Covers i x ∧ t.Covers j x) ↔
      (t.occupiedAt j).range.start < (t.occupiedAt i).range.stop := by
  simp only [← mem_range_occupiedAt (hset i hi), ← mem_range_occupiedAt (hset j hj)]
  exact Occupied.exists_shared_iff h.start_le (start_lt_stop_occupiedAt (hweight j hj))

/-- The sweep meets the clashing pairs and no others, each pair in its order. -/
theorem mem_met_iff {x : Occupied × Occupied} :
    x ∈ t.met ↔
      ∃ i j, t.Clash i j ∧ x = (t.occupiedAt i, t.occupiedAt j) ∧ x.1.Ahead x.2 := by
  obtain ⟨p, q⟩ := x
  have hsorted := pairwise_ahead_intervals (t := t)
  rw [met, mem_sweep_iff (hsorted.imp Occupied.Ahead.start_le), Occupied.pair_sublist_iff hsorted,
    (Occupied.sort_perm _).mem_iff, (Occupied.sort_perm _).mem_iff, mem_intervals, mem_intervals]
  constructor
  · rintro ⟨⟨hp, -⟩ | ⟨⟨i, hi, rfl⟩, ⟨j, hj, rfl⟩, hahead⟩, hlt, hapart⟩
    · cases hp
    · have hne : i ≠ j := by
        rintro rfl
        exact hahead.asymm hahead
      refine ⟨i, j, ⟨fun hrelated => ?_, ?_⟩, rfl, hahead⟩
      · rw [(apart_eq_false_iff hne).2 hrelated] at hapart
        cases hapart
      · exact (exists_covered_iff hset hweight hi hj hahead).2 hlt
  · rintro ⟨i, j, hclash, hx, hahead⟩
    cases hx
    obtain ⟨hi, hj⟩ := hclash.lt_size
    refine ⟨.inr ⟨⟨i, hi, rfl⟩, ⟨j, hj, rfl⟩, hahead⟩, ?_, ?_⟩
    · exact (exists_covered_iff hset hweight hi hj hahead).1 hclash.2
    · rw [← Bool.not_eq_false, apart_eq_false_iff hclash.ne]
      exact hclash.1

/-- Of the two orders of a clashing pair the sweep meets one. -/
theorem exists_mem_met (h : t.Clash i j) :
    ∃ x ∈ t.met, ∀ y ∈ t.met,
      y = (t.occupiedAt i, t.occupiedAt j) ∨ y = (t.occupiedAt j, t.occupiedAt i) ↔ y = x := by
  have hmem : ∀ {u v}, t.Clash u v →
      ((t.occupiedAt u, t.occupiedAt v) ∈ t.met ↔ (t.occupiedAt u).Ahead (t.occupiedAt v)) := by
    intro u v huv
    rw [mem_met_iff hset hweight]
    exact ⟨fun ⟨_, _, _, _, hahead⟩ => hahead, fun hahead => ⟨u, v, huv, rfl, hahead⟩⟩
  rcases Occupied.ahead_or_ahead (p := t.occupiedAt i) (q := t.occupiedAt j) h.ne with hij | hji
  · refine ⟨_, (hmem h).2 hij, fun y hy => or_iff_left ?_⟩
    rintro rfl
    exact hij.asymm ((hmem h.symm).1 hy)
  · refine ⟨_, (hmem h.symm).2 hji, fun y hy => or_iff_right ?_⟩
    rintro rfl
    exact hji.asymm ((hmem h).1 hy)

end

/-! ## What the entries say -/

section

variable (hset : t.Filled) (hfits : ∀ i, ¬ t.BeyondWord i)
  (hweight : ∀ i, i < t.size → 0 < t.weight i) (hnames : t.names.Nodup)
include hset hfits hweight hnames

/-- Names tell nodes apart, so an entry stands for exactly the pair that it was made from. -/
theorem names_aliasOf_iff {x : Occupied × Occupied} (hx : x ∈ t.met) :
    (t.aliasOf x).Names t i j ↔ x = (t.occupiedAt i, t.occupiedAt j) := by
  obtain ⟨u, v, hclash, rfl, -⟩ := (mem_met_iff hset hweight).1 hx
  obtain ⟨hu, hv⟩ := hclash.lt_size
  constructor
  · rintro ⟨⟨n, hn, hnstage, -⟩, ⟨m, hm, hmstage, -⟩⟩
    have hi : i = u :=
      stageAt_injective hnames (lt_size_of_get? hn) hu ((stageAt_of_get? hn).trans hnstage)
    have hj : j = v :=
      stageAt_injective hnames (lt_size_of_get? hm) hv ((stageAt_of_get? hm).trans hmstage)
    rw [hi, hj]
  · intro heq
    obtain rfl : u = i := congrArg (·.1.node) heq
    obtain rfl : v = j := congrArg (·.2.node) heq
    obtain ⟨n, hn⟩ := exists_get? hu
    obtain ⟨m, hm⟩ := exists_get? hv
    exact
      { first := ⟨n, hn, (stageAt_of_get? hn).symm, range?_of_fits hn (hset u hu) (hfits u)⟩
        second := ⟨m, hm, (stageAt_of_get? hm).symm, range?_of_fits hm (hset v hv) (hfits v)⟩ }

/-- A clashing pair has one place in the list of entries. -/
theorem existsUnique_entry (h : t.Clash i j) :
    ∃! k : Nat, ∃ e : Alias,
      (t.met.map t.aliasOf)[k]? = some e ∧ (e.Names t i j ∨ e.Names t j i) := by
  have hiff : ∀ {y}, y ∈ t.met → ((t.aliasOf y).Names t i j ∨ (t.aliasOf y).Names t j i ↔
      y = (t.occupiedAt i, t.occupiedAt j) ∨ y = (t.occupiedAt j, t.occupiedAt i)) := fun hy =>
    or_congr (names_aliasOf_iff hset hfits hweight hnames hy)
      (names_aliasOf_iff hset hfits hweight hnames hy)
  obtain ⟨x, hx, hunique⟩ := exists_mem_met hset hweight h
  obtain ⟨k, hk⟩ := List.getElem?_of_mem hx
  refine ⟨k, ⟨t.aliasOf x, ?_, ?_⟩, ?_⟩
  · rw [List.getElem?_map, hk, Option.map_some]
  · rw [hiff hx, hunique x hx]
  · -- An entry for the pair at another place would have the sweep meet the pair twice.
    rintro l ⟨e, hl, he⟩
    rw [List.getElem?_map] at hl
    obtain ⟨y, hy, rfl⟩ := Option.map_eq_some_iff.1 hl
    have hmem := List.mem_of_getElem? hy
    rw [hiff hmem, hunique y hmem] at he
    obtain ⟨hlt, -⟩ := List.getElem?_eq_some_iff.1 hy
    have hnodup : t.met.Nodup := pairwise_reported_met.imp ReportedBefore.ne
    exact (List.getElem?_inj hlt hnodup).1 (by rw [hy, hk, he])

theorem pairwise_entries :
    (t.met.map t.aliasOf).Pairwise fun e e' => ∀ i j i' j', e.Names t i j → e'.Names t i' j' →
      ReportedBefore (e.intervals i j) (e'.intervals i' j') := by
  refine List.pairwise_map.2 (pairwise_reported_met.imp_of_mem fun {x y} hx hy hxy => ?_)
  intro i j i' j' he he'
  rw [names_aliasOf_iff hset hfits hweight hnames hx] at he
  rw [names_aliasOf_iff hset hfits hweight hnames hy] at he'
  subst he he'
  exact hxy

end

/-! ## The verdict -/

/-- What is known of a tree that is refused for shared bytes. -/
theorem eq_map_met_of_check (hset : t.arenaSize.isSome → t.Filled) {pairs : List Alias}
    (h : t.check = .error (.aliasing pairs)) :
    t.Filled ∧ (∀ i, ¬ t.BeyondWord i) ∧ pairs = t.met.map t.aliasOf := by
  cases hsolved : t.arenaSize with
  | none =>
    rw [check_of_unsolved hsolved] at h
    cases h
  | some recorded =>
    have hfilled : t.Filled := hset (by rw [hsolved]; rfl)
    -- A buffer beyond the word is reported before any shared bytes are looked for.
    by_cases hbeyond : ∃ i, t.BeyondWord i
    · obtain ⟨i, hi, hfirst⟩ := exists_first_beyondWord hbeyond
      rw [check_of_beyondWord hsolved hfilled hi hfirst] at h
      cases h
    · have hfits : ∀ i, ¬ t.BeyondWord i := fun i hi => hbeyond ⟨i, hi⟩
      refine ⟨hfilled, hfits, ?_⟩
      rw [check_eq_of_fits hsolved hfilled hfits] at h
      split at h
      · cases h
      · split at h
        · cases h
        · cases h
          rfl

end BufferTree

namespace Solver

variable {t : BufferTree}

/-- Whatever has been written into a built tree, a refusal for shared bytes lists every pair of
unrelated buffers that share a byte once and no other pair. Each entry has its two nodes in the
order of their intervals, and the entries are sorted by the second node and then by the first. -/
theorem Reachable.aliasing_exact (h : Reachable t) {pairs : List Alias}
    (hcheck : t.check = .error (.aliasing pairs)) :
    (∀ i j, t.Clash i j →
      ∃! k : Nat, ∃ e : Alias, pairs[k]? = some e ∧ (e.Names t i j ∨ e.Names t j i)) ∧
    (∀ e ∈ pairs, ∃ i j, t.Clash i j ∧ e.Names t i j ∧
      (e.intervals i j).1.Ahead (e.intervals i j).2) ∧
    pairs.Pairwise fun e e' => ∀ i j i' j', e.Names t i j → e'.Names t i' j' →
      ReportedBefore (e.intervals i j) (e'.intervals i' j') := by
  obtain ⟨hset, hfits, rfl⟩ := BufferTree.eq_map_met_of_check h.filled hcheck
  have hweight := h.wellFormed.weight_pos
  refine ⟨fun i j => BufferTree.existsUnique_entry hset hfits hweight h.nodup_names,
    fun e he => ?_, BufferTree.pairwise_entries hset hfits hweight h.nodup_names⟩
  obtain ⟨x, hx, rfl⟩ := List.mem_map.1 he
  obtain ⟨i, j, hclash, rfl, hahead⟩ := (BufferTree.mem_met_iff hset hweight).1 hx
  refine ⟨i, j, hclash, ?_, hahead⟩
  exact (BufferTree.names_aliasOf_iff hset hfits hweight h.nodup_names hx).2 rfl

/-- A strategy that puts all three children of a root at the ground. -/
theorem Reachable.aliasing_exact_star :
    ∃ t pairs, Reachable t ∧ t.check = .error (.aliasing pairs) ∧ pairs.length = 3 ∧
      t.Clash 1 3 ∧
      ∃! k : Nat, ∃ e : Alias, pairs[k]? = some e ∧ (e.Names t 1 3 ∨ e.Names t 3 1) := by
  obtain ⟨t, pairs, h, hcheck, hlength, hclash⟩ : ∃ t pairs, Reachable t ∧
      t.check = .error (.aliasing pairs) ∧ pairs.length = 3 ∧ t.Clash 1 3 :=
    ⟨_, _, ⟨Sample.star 3 4, _,
      [⟨{ verify := false }, ⟨"ground", fun t _ => .ok ⟨Array.replicate t.size 0, 4⟩⟩⟩], rfl, rfl⟩,
      rfl, rfl, by decide, 0, ⟨0, rfl, by decide, by decide⟩, 0, rfl, by decide, by decide⟩
  exact ⟨t, pairs, h, hcheck, hlength, hclash, (h.aliasing_exact hcheck).1 1 3 hclash⟩

end Solver

end LifetimeArena
