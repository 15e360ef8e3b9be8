import LifetimeArena.Proofs.Placement.Layout
import LifetimeArena.Proofs.Placement.Optimality

/-!
# Exported layouts

What leaves the library is a `Layout`, and whoever keeps memory for it trusts it without a look at
the tree. It is exported exactly from the trees that pass the test, and it says of every stage what
the tree says: the node, its bytes and its payload. All of these bytes lie in the arena, which ends
where some buffer does and holds the heaviest antichain.

- `Layout.Exports`: what a layout says of its tree.
- `Layout.exports_mirror`: correct trees are exported this way.
- `Layout.ofTree_exports`: the layouts of all states that a built tree gets into.
-/

namespace LifetimeArena

namespace Layout

/-- The layout lists the buffers of the tree by stage, each with the bytes it has in the tree, and
they fill the arena to its end. -/
structure Exports (l : Layout) (t : BufferTree) : Prop where
  arenaSize : t.arenaSize = some l.arenaSize
  totalWeight : l.totalWeight = t.totalWeight
  /-- The stages are those of the tree in listing order. -/
  stages : l.entries.map (·.1) = t.names
  nodup : t.names.Nodup
  get?_of_none : ∀ stage, t.indexOf? stage = none → l.get? stage = none
  get?_of_some : ∀ stage i, t.indexOf? stage = some i → ∃ n o, t.get? i = some n ∧
    n.stage = stage ∧ n.offset = some o ∧
    l.get? stage = some { node := i, range := ⟨o, o + n.weight⟩, payload := n.payload }
  /-- To go through the entries is to look up all stages. -/
  mem_entries : ∀ stage e, (stage, e) ∈ l.entries ↔ l.get? stage = some e
  range? : ∀ stage, l.range? stage = (l.get? stage).map (·.range)
  offset? : ∀ stage, l.offset? stage = (t.indexOf? stage).bind t.offset?
  /-- The offsets are listed by stage, too. -/
  stages_offsets : l.offsets.map (·.1) = t.names
  mem_offsets : ∀ stage o, (stage, o) ∈ l.offsets ↔ l.offset? stage = some o
  /-- Every buffer has bytes, and they lie in the arena. -/
  inside : ∀ stage e, l.get? stage = some e →
    e.range.start < e.range.stop ∧ e.range.stop ≤ l.arenaSize
  /-- Some buffer reaches to the end of the arena. -/
  reached : ∃ stage e, l.get? stage = some e ∧ e.range.stop = l.arenaSize
  heaviest : t.maxAntichainWeight ≤ l.arenaSize

variable {t : BufferTree} {arena : Nat}

/-- A stage that the tree knows is looked up in the layout with the bytes of its node. -/
theorem get?_mirror_of_some (wf : t.Linked) (h : t.LaidOut arena) {stage : StageId} {i : Nat}
    (hi : t.indexOf? stage = some i) :
    ∃ n o, t.get? i = some n ∧ n.stage = stage ∧ n.offset = some o ∧
      (mirror t arena).get? stage =
        some { node := i, range := ⟨o, o + n.weight⟩, payload := n.payload } := by
  rw [wf.indexOf?_eq_find?] at hi
  obtain ⟨⟨n, _⟩, hfind, rfl⟩ := Option.map_eq_some_iff.1 hi
  have hn := BufferTree.mem_numbered.1 (List.mem_of_find?_eq_some hfind)
  have hstage : n.stage = stage := by simpa using List.find?_some hfind
  obtain ⟨o, ho, -⟩ := h.placed _ (BufferTree.lt_size_of_get? hn)
  refine ⟨n, o, hn, hstage, (BufferTree.offset?_of_get? hn).symm.trans ho, ?_⟩
  rw [get?_mirror, hfind, Option.map_some, entryAt, BufferTree.occupiedAt, ho,
    BufferTree.weight_of_get? hn]
  rfl

theorem get?_mirror_of_none (wf : t.Linked) {stage : StageId} (h : t.indexOf? stage = none) :
    (mirror t arena).get? stage = none := by
  rw [wf.indexOf?_eq_find?, Option.map_eq_none_iff] at h
  rw [get?_mirror, h, Option.map_none]

/-- An entry that is looked up is that of a node, and lies in the arena. -/
theorem range_of_get?_mirror (wf : t.WellFormed) (h : t.LaidOut arena) {stage : StageId}
    {e : Entry} (he : (mirror t arena).get? stage = some e) :
    e.range.start < e.range.stop ∧ e.range.stop ≤ arena := by
  cases hi : t.indexOf? stage with
  | none =>
    rw [get?_mirror_of_none wf.toLinked hi] at he
    cases he
  | some i =>
    obtain ⟨n, o, hn, -, ho, hget⟩ := get?_mirror_of_some wf.toLinked h hi
    rw [hget] at he
    cases he
    have hw := wf.weight_pos i (BufferTree.lt_size_of_get? hn)
    rw [BufferTree.weight_of_get? hn] at hw
    refine ⟨Nat.lt_add_of_pos_right hw, h.highest.2 ⟨i, o, ?_, ?_⟩⟩
    · rw [BufferTree.offset?_of_get? hn, ho]
    · rw [BufferTree.weight_of_get? hn]

/-- The buffer that stops highest has an entry. -/
theorem exists_get?_mirror_stop (wf : t.Linked) (hnames : t.names.Nodup) (h : t.LaidOut arena) :
    ∃ stage e, (mirror t arena).get? stage = some e ∧ e.range.stop = arena := by
  obtain ⟨i, o, ho, hstop⟩ := h.highest.1
  have hindex : t.indexOf? (t.stageAt i) = some i :=
    (wf.indexOf?_eq_some_iff hnames).2
      (BufferTree.getElem?_names (BufferTree.lt_size_of_offset? ho))
  obtain ⟨n, o', hn, -, ho', hget⟩ := get?_mirror_of_some wf h hindex
  rw [BufferTree.offset?_of_get? hn, ho'] at ho
  cases ho
  rw [BufferTree.weight_of_get? hn] at hstop
  exact ⟨_, _, hget, hstop⟩

/-- The starts of the entries, where no stage has two. -/
theorem offsets_of_nodup {l : Layout} (h : (l.entries.map (·.1)).Nodup) :
    l.offsets = l.entries.map fun e => (e.1, e.2.range.start) := by
  refine byStage_of_nodup ?_
  rwa [List.map_map]

/-- The layout of a correct tree whose nodes have names of their own. -/
theorem exports_mirror (wf : t.WellFormed) (hnames : t.names.Nodup) (h : t.LaidOut arena) :
    (mirror t arena).Exports t := by
  have hstages := stages_mirror t arena
  have hnodup : ((mirror t arena).entries.map (·.1)).Nodup := hstages.symm ▸ hnames
  have hentry : ∀ stage e,
      (stage, e) ∈ (mirror t arena).entries ↔ (mirror t arena).get? stage = some e :=
    fun stage e => (findByStage?_eq_some_iff hnodup).symm
  refine
    { arenaSize := h.recorded
      totalWeight := rfl
      stages := hstages
      nodup := hnames
      get?_of_none := fun _ => get?_mirror_of_none wf.toLinked
      get?_of_some := fun _ _ => get?_mirror_of_some wf.toLinked h
      mem_entries := hentry
      range? := fun _ => rfl
      offset? := fun stage => ?_
      stages_offsets := ?_
      mem_offsets := fun stage o => ?_
      inside := fun _ _ => range_of_get?_mirror wf h
      reached := exists_get?_mirror_stop wf.toLinked hnames h
      heaviest := wf.maxAntichainWeight_eq.trans_le h.heaviestAntichain_le }
  · cases hi : t.indexOf? stage with
    | none =>
      rw [Layout.offset?, get?_mirror_of_none wf.toLinked hi, Option.map_none, Option.bind_none]
    | some i =>
      obtain ⟨n, o, hn, -, ho, hget⟩ := get?_mirror_of_some wf.toLinked h hi
      rw [Layout.offset?, hget, Option.map_some, Option.bind_some, BufferTree.offset?_of_get? hn,
        ho]
  · rw [offsets_of_nodup hnodup, List.map_map]
    exact hstages
  · rw [offsets_of_nodup hnodup, List.mem_map, Layout.offset?, Option.map_eq_some_iff]
    constructor
    · rintro ⟨⟨stage, e⟩, hmem, heq⟩
      cases heq
      exact ⟨e, (hentry stage e).1 hmem, rfl⟩
    · rintro ⟨e, hget, rfl⟩
      exact ⟨(stage, e), (hentry stage e).2 hget, rfl⟩

/-- After the test every node has its bytes, so taking the layout cannot fail any more. -/
theorem set_of_laidOut (h : t.LaidOut arena) :
    t.arenaSize.isSome ∧ ∀ i n, t.get? i = some n → n.range?.isSome := by
  refine ⟨by rw [h.recorded]; rfl, fun i n hn => ?_⟩
  rw [h.range?_eq hn]
  rfl

/-- In every state that a built tree gets into, a layout is taken exactly if the tree passes the
test, and what the test reports is reported otherwise. After the test nothing is missing in the
tree, and the layout mirrors it. -/
theorem ofTree_exports (h : Solver.Reachable t) :
    (∀ e, ofTree t = .error e ↔ t.check = .error e) ∧
    ((∃ l, ofTree t = .ok l) ↔ t.check = .ok ()) ∧
    (t.check = .ok () → t.arenaSize.isSome ∧ ∀ i n, t.get? i = some n → n.range?.isSome) ∧
    ∀ l, ofTree t = .ok l → l.Exports t := by
  cases hcheck : t.check with
  | error e =>
    have hofTree : ofTree t = .error e := by rw [ofTree, hcheck]
    rw [hofTree]
    refine ⟨fun e' => ?_, ⟨fun ⟨l, hl⟩ => (nomatch hl), fun hok => (nomatch hok)⟩,
      fun hok => (nomatch hok), fun l hl => (nomatch hl)⟩
    rw [Except.error.injEq, Except.error.injEq]
  | ok u =>
    -- The test leaves correct trees only, and of these the layout is known.
    obtain ⟨arena, hlaid⟩ := (BufferTree.check_eq_ok_iff h.wellFormed h.filled).1 hcheck
    have hofTree := ofTree_of_laidOut h.nodup_names hlaid hcheck
    rw [hofTree]
    refine ⟨fun e => ⟨fun he => (nomatch he), fun he => (nomatch he)⟩,
      ⟨fun _ => rfl, fun _ => ⟨_, rfl⟩⟩, fun _ => set_of_laidOut hlaid, fun l hl => ?_⟩
    cases hl
    exact exports_mirror h.wellFormed h.nodup_names hlaid

/-- A root with two children, placed by a strategy of the caller's and not tested on solving. -/
theorem ofTree_exports_star :
    ∃ t l, Solver.Reachable t ∧ ofTree t = .ok l ∧ l.Exports t ∧ l.offset? (.ofNat 2) = some 4 := by
  obtain ⟨t, l, h, hl, hoffset⟩ : ∃ t l, Solver.Reachable t ∧ ofTree t = .ok l ∧
      l.offset? (.ofNat 2) = some 4 :=
    ⟨_, _, ⟨Sample.star 2 4, _, [⟨{ verify := false }, ⟨"side by side", fun _ _ =>
      .ok ⟨#[0, 0, 4], 8⟩⟩⟩], rfl, rfl⟩, rfl, rfl⟩
  exact ⟨t, l, h, hl, (ofTree_exports h).2.2.2 l hl, hoffset⟩

end Layout

end LifetimeArena
