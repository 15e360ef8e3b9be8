import LifetimeArena.Proofs.Placement.Optimality

/-!
# Numbered pipelines

The sample pipelines name their stages by number, in the order in which they list them. Such a list
is given by the size of every buffer and by the number that each is derived from. If these numbers
come before, and the sizes add up to a word, the list describes a tree whose nodes have the numbers
of the stages. A chain and a star are two of them.

- `Sample.numbered`: the list with given sizes and parents.
- `Sample.exists_numbered`: the tree that is built from it.
- `Sample.Numbers.maxAntichainWeight_eq`: buffers that are divided among their children.
- `Sample.solve_chain`, `Sample.solve_star`: the two extreme shapes.
-/

namespace LifetimeArena

open Finset

namespace Sample

variable {n : Nat} {w p : Nat → Nat}

/-- The stage numbered `i`, where sizes are given by `w` and parents by `p`. -/
def numberedStage (w p : Nat → Nat) : (i : Nat) → Stage
  | 0 => rootStage (w 0)
  | i + 1 => derived (i + 1) (w (i + 1)) (p (i + 1))

/-- The first `n` of these stages. -/
def numbered (n : Nat) (w p : Nat → Nat) : List Stage := (List.range n).map (numberedStage w p)

@[simp] theorem id_numberedStage (i : Nat) : (numberedStage w p i).id = .ofNat i := by
  cases i <;> rfl

@[simp] theorem weight_numberedStage (i : Nat) : (numberedStage w p i).weight = w i := by
  cases i <;> rfl

theorem parent_numberedStage {i : Nat} (hi : 0 < i) :
    (numberedStage w p i).parent = some (.ofNat (p i)) := by
  cases i with
  | zero => exact absurd hi (Nat.lt_irrefl 0)
  | succ i => rfl

theorem length_numbered (n : Nat) (w p : Nat → Nat) : (numbered n w p).length = n := by
  rw [numbered, List.length_map, List.length_range]

theorem getElem?_numbered {i : Nat} (hi : i < n) :
    (numbered n w p)[i]? = some (numberedStage w p i) := by
  rw [numbered, List.getElem?_map, List.getElem?_range hi, Option.map_some]

theorem eq_numberedStage {i : Nat} {s : Stage} (h : (numbered n w p)[i]? = some s) :
    i < n ∧ s = numberedStage w p i := by
  have hi : i < n := by
    rw [← length_numbered n w p]
    exact (List.getElem?_eq_some_iff.1 h).1
  rw [getElem?_numbered hi] at h
  exact ⟨hi, (Option.some.inj h).symm⟩

theorem map_weight_numbered (n : Nat) (w p : Nat → Nat) :
    (numbered n w p).map (·.weight) = (List.range n).map w := by
  rw [numbered, List.map_map]
  exact List.map_congr_left fun i _ => weight_numberedStage i

/-- Numbers below `2 ^ 32` are different names. -/
theorem ofNat_inj {i j : Nat} (hi : i < 2 ^ 32) (hj : j < 2 ^ 32)
    (h : StageId.ofNat i = StageId.ofNat j) : i = j := by
  have hval : i % 2 ^ 32 = j % 2 ^ 32 := congrArg (fun id => id.val.toNat) h
  rwa [Nat.mod_eq_of_lt hi, Nat.mod_eq_of_lt hj] at hval

/-! ## The tree -/

/-- What it takes for the sizes and parents of numbered stages to describe a tree. -/
structure Grows (n : Nat) (w p : Nat → Nat) : Prop where
  pos : 0 < n
  le : n ≤ 2 ^ 32
  weight_pos : ∀ i, i < n → 0 < w i
  parent_lt : ∀ i, 0 < i → i < n → p i < i
  total_le : ∑ i ∈ range n, w i ≤ wordMax

theorem Grows.describesTree (h : Grows n w p) : DescribesTree (numbered n w p) where
  ne_nil := by
    intro hnil
    have hlength := congrArg List.length hnil
    rw [length_numbered, List.length_nil] at hlength
    exact Nat.ne_of_gt h.pos hlength
  nodup := by
    rw [numbered, List.map_map]
    refine List.nodup_range.map_on fun i hi j hj hij => ?_
    rw [Function.comp_apply, Function.comp_apply, id_numberedStage, id_numberedStage] at hij
    have hle := h.le
    rw [List.mem_range] at hi hj
    exact ofNat_inj (by omega) (by omega) hij
  weight_pos := by
    intro s hs
    obtain ⟨i, hi⟩ := List.mem_iff_getElem?.1 hs
    obtain ⟨hlt, rfl⟩ := eq_numberedStage hi
    rw [weight_numberedStage]
    exact h.weight_pos i hlt
  root := by
    intro s hs
    obtain ⟨-, rfl⟩ := eq_numberedStage hs
    rfl
  parent := by
    intro i s hpos hs
    obtain ⟨hlt, rfl⟩ := eq_numberedStage hs
    have hparent := h.parent_lt i hpos hlt
    refine ⟨p i, _, hparent, getElem?_numbered (Nat.lt_trans hparent hlt), ?_⟩
    rw [parent_numberedStage hpos, id_numberedStage]
  total_le := by
    rw [map_weight_numbered]
    exact h.total_le

/-- The tree has the numbered stages as its nodes. -/
structure Numbers (t : BufferTree) (n : Nat) (w p : Nat → Nat) : Prop where
  size_eq : t.size = n
  weight_eq : ∀ i, i < n → t.weight i = w i
  parent_eq : ∀ i, 0 < i → i < n → t.parent? i = some (p i)
  totalWeight_eq : t.totalWeight = ∑ i ∈ range n, w i

theorem numbers_of_mirrors {t : BufferTree} (h : Grows n w p)
    (hshows : t.Mirrors (numbered n w p)) : Numbers t n w p where
  size_eq := hshows.size_eq.trans (length_numbered n w p)
  weight_eq := by
    intro i hi
    obtain ⟨m, hm, -, hweight, -⟩ := hshows.node i _ (getElem?_numbered hi)
    rw [BufferTree.weight_of_get? hm, hweight, weight_numberedStage]
  parent_eq := by
    intro i hpos hi
    obtain ⟨q, hq, hlt, hname⟩ := (hshows.parent i _ (getElem?_numbered hi)).2 _
      (parent_numberedStage hpos)
    rw [getElem?_numbered (Nat.lt_trans hlt hi), Option.map_some, id_numberedStage] at hname
    have hle := h.le
    have hparent := h.parent_lt i hpos hi
    rw [hq, ofNat_inj (by omega) (by omega) (Option.some.inj hname)]
  totalWeight_eq := by
    rw [hshows.totalWeight, map_weight_numbered]
    rfl

theorem exists_numbered (h : Grows n w p) :
    ∃ t, BufferTree.ofStages (numbered n w p) = .ok t ∧ Numbers t n w p := by
  obtain ⟨t, ht⟩ := BufferTree.exists_ofStages h.describesTree
  exact ⟨t, ht, numbers_of_mirrors h (BufferTree.describesTree_and_mirrors ht).2⟩

namespace Numbers

variable {t : BufferTree}

/-- The children of a node are the later ones that are derived from it. -/
theorem children_eq (h : Numbers t n w p) (wf : t.WellFormed) (i : Nat) :
    (t.children i).toFinset = {c ∈ range n | 0 < c ∧ p c = i} := by
  ext c
  rw [List.mem_toFinset, wf.mem_children, mem_filter, mem_range]
  constructor
  · intro hc
    have hlt : c < n := h.size_eq ▸ BufferTree.lt_size_of_parent? hc
    have hpos : 0 < c := Nat.zero_lt_of_lt (wf.parent_lt hc)
    rw [h.parent_eq c hpos hlt] at hc
    exact ⟨hlt, hpos, Option.some.inj hc⟩
  · rintro ⟨hlt, hpos, rfl⟩
    exact h.parent_eq c hpos hlt

theorem sum_children (h : Numbers t n w p) (wf : t.WellFormed) (i : Nat) :
    ∑ c ∈ (t.children i).toFinset, t.weight c = ∑ c ∈ range n with 0 < c ∧ p c = i, w c := by
  rw [h.children_eq wf]
  exact sum_congr rfl fun c hc => h.weight_eq c (mem_range.1 (mem_filter.1 hc).1)

/-- Where every buffer is as large as the buffers derived from it are together, or larger, the root
alone is the heaviest antichain. -/
theorem maxAntichainWeight_eq (h : Numbers t n w p) (wf : t.WellFormed)
    (hsplit : ∀ i, i < n → ∑ c ∈ range n with 0 < c ∧ p c = i, w c ≤ w i) :
    t.maxAntichainWeight = w 0 := by
  have hroot : 0 < n := h.size_eq ▸ wf.size_pos
  rw [wf.maxAntichainWeight_of_children_le fun i => ?_, BufferTree.root, h.weight_eq 0 hroot]
  by_cases hi : i < n
  · rw [h.sum_children wf, h.weight_eq i hi]
    exact hsplit i hi
  · -- A number beyond the tree has no children.
    rw [sum_eq_zero fun c hc => ?_]
    · exact Nat.zero_le _
    · have hparent := wf.mem_children.1 (List.mem_toFinset.1 hc)
      have hlt := wf.parent_lt hparent
      have hsize := BufferTree.lt_size_of_parent? hparent
      have hn := h.size_eq
      omega

end Numbers

/-! ## Chains -/

theorem chain_eq_numbered (n weight : Nat) :
    chain n weight = numbered n (fun _ => weight) fun i => i - 1 := by
  refine List.map_congr_left fun i _ => ?_
  cases i <;> rfl

theorem grows_chain {n weight : Nat} (hn : 0 < n) (hweight : 0 < weight) (hle : n ≤ 2 ^ 32)
    (htotal : n * weight ≤ wordMax) : Grows n (fun _ => weight) fun i => i - 1 where
  pos := hn
  le := hle
  weight_pos := fun _ _ => hweight
  parent_lt := fun i hpos _ => Nat.sub_lt hpos Nat.one_pos
  total_le := by
    rw [sum_const_nat fun _ _ => rfl, card_range]
    exact htotal

/-- A node of a chain has at most one child. -/
theorem sum_children_chain_le (n weight i : Nat) :
    ∑ c ∈ range n with 0 < c ∧ c - 1 = i, weight ≤ weight := by
  have hsub : {c ∈ range n | 0 < c ∧ c - 1 = i} ⊆ {i + 1} := by
    intro c hc
    have hchild := (mem_filter.1 hc).2
    rw [mem_singleton]
    omega
  calc ∑ c ∈ range n with 0 < c ∧ c - 1 = i, weight
      ≤ ∑ _c ∈ {i + 1}, weight := sum_le_sum_of_subset hsub
    _ = weight := sum_singleton _ _

/-- All buffers of a chain share the same bytes. -/
theorem solve_chain {n weight : Nat} (hn : 0 < n) (hweight : 0 < weight) (hle : n ≤ 2 ^ 32)
    (htotal : n * weight ≤ wordMax) :
    ∃ t, BufferTree.ofStages (chain n weight) = .ok t ∧
      ∀ verify, (Solver.solve (.ofSettings { verify := verify }) t).result = .ok weight ∧
        ∀ i, i < n →
          (Solver.solve (.ofSettings { verify := verify }) t).tree.offset? i = some 0 := by
  obtain ⟨t, hbuilt, hnumbers⟩ := exists_numbered (grows_chain hn hweight hle htotal)
  have wf := BufferTree.ofStages_wellFormed hbuilt
  have hmax := hnumbers.maxAntichainWeight_eq wf fun i _ => sum_children_chain_le n weight i
  obtain ⟨offsets, hlaid, hsolve⟩ := Solver.solve_unaligned hbuilt
  rw [hmax] at hlaid hsolve
  rw [chain_eq_numbered]
  refine ⟨t, hbuilt, fun verify => ⟨(hsolve verify).1, fun i hi => ?_⟩⟩
  rw [(hsolve verify).2]
  refine hlaid.offset_eq_zero ?_ ?_
  · rw [BufferTree.size_assign, hnumbers.size_eq]
    exact hi
  · rw [BufferTree.weight_assign, hnumbers.weight_eq i hi]

/-! ## Stars -/

theorem star_eq_numbered (n weight : Nat) :
    star n weight = numbered (n + 1) (fun _ => weight) fun _ => 0 := by
  rw [numbered, List.range_succ_eq_map, List.map_cons, List.map_map]
  rfl

theorem grows_star {n weight : Nat} (hweight : 0 < weight) (hle : n < 2 ^ 32)
    (htotal : (n + 1) * weight ≤ wordMax) : Grows (n + 1) (fun _ => weight) fun _ => 0 where
  pos := Nat.succ_pos n
  le := hle
  weight_pos := fun _ _ => hweight
  parent_lt := fun _ hpos _ => hpos
  total_le := by
    rw [sum_const_nat fun _ _ => rfl, card_range]
    exact htotal

/-- The leaves of a star are its heaviest antichain. -/
theorem maxAntichainWeight_star {t : BufferTree} {n weight : Nat} (hn : 0 < n)
    (h : Numbers t (n + 1) (fun _ => weight) fun _ => 0) (wf : t.WellFormed) :
    t.maxAntichainWeight = n * weight := by
  have hleaves : {c ∈ range (n + 1) | 0 < c ∧ 0 = 0} = (range n).image Nat.succ := by
    ext c
    rw [mem_filter, mem_range, mem_image]
    constructor
    · rintro ⟨hlt, hpos, -⟩
      exact ⟨c - 1, mem_range.2 (by omega), by omega⟩
    · rintro ⟨i, hi, rfl⟩
      exact ⟨Nat.succ_lt_succ (mem_range.1 hi), Nat.succ_pos i, rfl⟩
  have hleaf : ∀ c ∈ (range n).image Nat.succ,
      t.heaviest t.weight (t.nodesBelow c) = weight := by
    intro c hc
    obtain ⟨i, hi, rfl⟩ := mem_image.1 hc
    have hnone : (t.children (i + 1)).toFinset = ∅ := by
      rw [h.children_eq wf]
      exact filter_false_of_mem fun _ _ hchild => Nat.succ_ne_zero i hchild.2.symm
    rw [wf.heaviestBelow_eq, hnone, sum_empty, Nat.max_eq_left (Nat.zero_le _),
      h.weight_eq _ (Nat.succ_lt_succ (mem_range.1 hi))]
  rw [wf.maxAntichainWeight_eq, BufferTree.heaviestAntichain, ← wf.nodesBelow_root,
    wf.heaviestBelow_eq, h.children_eq wf, BufferTree.root, hleaves, sum_const_nat hleaf,
    card_image_of_injective _ Nat.succ_injective, card_range, h.weight_eq 0 (Nat.succ_pos n)]
  exact Nat.max_eq_right (Nat.le_mul_of_pos_left weight hn)

/-- The leaves of a star lie beside each other. -/
theorem solve_star {n weight : Nat} (hn : 0 < n) (hweight : 0 < weight) (hle : n < 2 ^ 32)
    (htotal : (n + 1) * weight ≤ wordMax) :
    ∃ t, BufferTree.ofStages (star n weight) = .ok t ∧
      ∀ verify, (Solver.solve (.ofSettings { verify := verify }) t).result = .ok (n * weight) := by
  obtain ⟨t, hbuilt, hnumbers⟩ := exists_numbered (grows_star hweight hle htotal)
  have wf := BufferTree.ofStages_wellFormed hbuilt
  obtain ⟨offsets, -, hsolve⟩ := Solver.solve_unaligned hbuilt
  rw [maxAntichainWeight_star hn hnumbers wf] at hsolve
  rw [star_eq_numbered]
  exact ⟨t, hbuilt, fun verify => (hsolve verify).1⟩

end Sample

end LifetimeArena
