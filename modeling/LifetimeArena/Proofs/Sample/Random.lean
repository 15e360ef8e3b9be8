import LifetimeArena.Proofs.BufferTree.Refusal
import LifetimeArena.Sample.Random
import Mathlib.Algebra.Order.BigOperators.Group.List

/-!
# Random pipelines are well formed

Whatever words a stream has, the stages that it picks are in execution order: each is named by its
position, has a weight up to the limit and, unless it is the first, an earlier stage as its parent.
All that can speak against a tree of them is that the weights together are too heavy.

`Sample.drawn` says which words pick a stage. Taking word after word off the stream, with a fault
wherever a division or a sum could go wrong, takes the same words and meets no fault.

- `Sample.pick_eq`: the stages picked word by word are those that `drawn` says, and no step fails.
- `Sample.InPlace`: what the stage at a position is like.
- `Sample.ofStages_of_inPlace`: the tree of such stages.
- `Sample.drawn_wellFormed`: all of it, for every stream.
-/

namespace LifetimeArena

namespace Sample

/-! ## Word by word -/

variable {draw : Nat → UInt64} {n maxWeight : Nat}

theorem drawnWeight_le (hmax : 0 < maxWeight) (w : UInt64) :
    1 ≤ drawnWeight maxWeight w ∧ drawnWeight maxWeight w ≤ maxWeight := by
  have hlt := Nat.mod_lt w.toNat hmax
  unfold drawnWeight
  omega

section

variable (hmax : 0 < maxWeight) (hword : maxWeight ≤ wordMax)
include hmax hword

theorem pickWeight_eq (w : UInt64) : pickWeight maxWeight w = .ok (drawnWeight maxWeight w) := by
  have hle := Nat.le_trans (drawnWeight_le hmax w).2 hword
  show (remainder w maxWeight >>= addWord 1) = _
  rw [remainder, if_neg (Nat.ne_of_gt hmax)]
  exact if_pos hle

/-- The stage numbered `j + 1` is picked by the words `2 * j + 1` and `2 * j + 2`. -/
theorem pickFrom_eq (draw : Nat → UInt64) (count j : Nat) :
    pickFrom draw maxWeight count (j + 1) (2 * j + 1) =
      .ok ((List.range' (j + 1) count).map (drawnStage draw maxWeight), 2 * (j + count) + 1) := by
  induction count generalizing j with
  | zero => rfl
  | succ count ih =>
    have hparent : remainder (draw (2 * j + 1)) (j + 1) =
        .ok ((draw (2 * j + 1)).toNat % (j + 1)) := if_neg (Nat.succ_ne_zero j)
    have hnext : 2 * j + 1 + 2 = 2 * (j + 1) + 1 := by omega
    have hused : j + 1 + count = j + (count + 1) := by omega
    rw [pickFrom, hparent, pickWeight_eq hmax hword, hnext, ih (j + 1), hused]
    rfl

/-- No division and no sum fails on the way. The first stage uses one word and every other two. -/
theorem pick_eq (hn : 0 < n) : pick draw n maxWeight = .ok (drawn draw n maxWeight, 2 * n - 1) := by
  cases n with
  | zero => exact absurd hn (Nat.lt_irrefl 0)
  | succ n =>
    have hrest := pickFrom_eq hmax hword draw n 0
    rw [Nat.zero_add, Nat.zero_add] at hrest
    have hdrawn : drawn draw (n + 1) maxWeight = rootStage (drawnWeight maxWeight (draw 0)) ::
        (List.range' 1 n).map (drawnStage draw maxWeight) := by
      rw [drawn, List.range_eq_range', List.range'_succ, List.map_cons]
      rfl
    rw [pick, if_neg (by omega), pickWeight_eq hmax hword, Nat.add_sub_cancel, hrest, hdrawn]
    rfl

end

/-! ## The stages -/

/-- What the stage at position `i` is like. -/
structure InPlace (maxWeight i : Nat) (s : Stage) : Prop where
  /-- It is named by its position. -/
  id : s.id.val.toNat = i
  /-- So is its buffer. -/
  payload : s.payload.val.toNat = i
  weight_pos : 1 ≤ s.weight
  weight_le : s.weight ≤ maxWeight
  /-- The first stage has no parent. -/
  root : i = 0 → s.parent = none
  /-- Every other stage has an earlier one. -/
  parent : 0 < i → ∃ p, s.parent = some p ∧ p.val.toNat < i

/-- Numbers below `2 ^ 32` are kept by names. -/
theorem toNat_ofNat {i : Nat} (hi : i < 2 ^ 32) : (StageId.ofNat i).val.toNat = i :=
  UInt32.toNat_ofNat_of_lt' hi

theorem inPlace_drawnStage (hmax : 0 < maxWeight) {i : Nat} (hi : i < 2 ^ 32) :
    InPlace maxWeight i (drawnStage draw maxWeight i) := by
  cases i with
  | zero =>
    have hweight := drawnWeight_le hmax (draw 0)
    exact ⟨rfl, rfl, hweight.1, hweight.2, fun _ => rfl, fun h => absurd h (Nat.lt_irrefl 0)⟩
  | succ i =>
    have hweight := drawnWeight_le hmax (draw (2 * i + 2))
    have hparent := Nat.mod_lt (draw (2 * i + 1)).toNat (Nat.succ_pos i)
    refine ⟨toNat_ofNat hi, UInt64.toNat_ofNat_of_lt' (Nat.lt_trans hi (by decide)), hweight.1,
      hweight.2, fun h => absurd h (Nat.succ_ne_zero i), fun _ => ⟨_, rfl, ?_⟩⟩
    rw [toNat_ofNat (Nat.lt_trans hparent hi)]
    exact hparent

theorem length_drawn (draw : Nat → UInt64) (n maxWeight : Nat) :
    (drawn draw n maxWeight).length = n := by
  rw [drawn, List.length_map, List.length_range]

theorem inPlace_drawn (hmax : 0 < maxWeight) (hn : n ≤ 2 ^ 32) {i : Nat} {s : Stage}
    (hs : (drawn draw n maxWeight)[i]? = some s) : InPlace maxWeight i s := by
  have hi : i < n := length_drawn draw n maxWeight ▸ (List.getElem?_eq_some_iff.1 hs).1
  rw [drawn, List.getElem?_map, List.getElem?_range hi] at hs
  cases hs
  exact inPlace_drawnStage hmax (Nat.lt_of_lt_of_le hi hn)

/-! ## Their tree -/

section

variable {stages : List Stage}
  (hplace : ∀ i s, stages[i]? = some s → InPlace maxWeight i s)
include hplace

/-- The names in front of a position are the numbers below it. -/
theorem mem_names_take_iff {i : Nat} (hi : i ≤ stages.length) {id : StageId} :
    id ∈ (stages.take i).map (·.id) ↔ id.val.toNat < i := by
  rw [List.mem_map]
  constructor
  · rintro ⟨s, hs, rfl⟩
    obtain ⟨j, hj⟩ := List.mem_iff_getElem?.1 hs
    rw [List.getElem?_take] at hj
    split at hj
    · next hlt => exact (hplace j s hj).id.symm ▸ hlt
    · cases hj
  · intro hlt
    have hs := List.getElem?_eq_getElem (Nat.lt_of_lt_of_le hlt hi)
    refine ⟨_, List.mem_of_getElem? ((List.getElem?_take_of_lt hlt).trans hs), ?_⟩
    exact StageId.toNat_injective (hplace _ _ hs).id

/-- A stage in place obeys every rule but the one on the sum of the weights. -/
theorem obeys_of_inPlace {i : Nat} {s : Stage} (hs : stages[i]? = some s) :
    ∀ k < 4, Obeys (stages.take i) s k := by
  have hi : i < stages.length := (List.getElem?_eq_some_iff.1 hs).1
  have hnames : ∀ id, id ∈ (stages.take i).map (·.id) ↔ id.val.toNat < i :=
    fun _ => mem_names_take_iff hplace (Nat.le_of_lt hi)
  have hstage := hplace i s hs
  intro k hk
  match k with
  | 0 =>
    intro p hp
    have hpos : 0 < i := Nat.pos_of_ne_zero fun hzero => by
      rw [hstage.root hzero] at hp
      cases hp
    obtain ⟨q, hq, hlt⟩ := hstage.parent hpos
    rw [hp] at hq
    cases hq
    exact (hnames p).2 hlt
  | 1 => exact hstage.weight_pos
  | 2 => exact fun hmem => Nat.ne_of_lt ((hnames s.id).1 hmem) hstage.id
  | 3 =>
    intro hnone
    rcases Nat.eq_zero_or_pos i with rfl | hpos
    · rfl
    · obtain ⟨p, hp, -⟩ := hstage.parent hpos
      rw [hnone] at hp
      cases hp
  | k + 4 => omega

/-- A list of stages in place is accepted, unless their weights are too heavy together. -/
theorem ofStages_of_inPlace (hne : stages ≠ []) :
    (∃ t, BufferTree.ofStages stages = .ok t) ∨
      BufferTree.ofStages stages = .error .tooHeavy ∧
        wordMax < (stages.map (·.weight)).sum := by
  rcases BufferTree.ofStages_verdict stages with ⟨-, hnil, -⟩ | ⟨hok, -, -⟩ | ⟨i, e, herror, hfirst⟩
  · exact absurd hnil hne
  · exact .inl hok
  · obtain ⟨s, hs, hoffends⟩ := hfirst.offends
    have hturn := hoffends.le_turn (fun r hr => List.mem_of_mem_take hr)
      (obeys_of_inPlace hplace hs)
    cases hoffends with
    | tooHeavy htotal =>
      refine .inr ⟨herror, ?_⟩
      rw [← take_append_cons_drop hs, List.map_append, List.sum_append, List.map_cons,
        List.sum_cons]
      omega
    | _ => simp [Malformed.turn] at hturn

theorem sum_weight_le_of_inPlace : (stages.map (·.weight)).sum ≤ stages.length * maxWeight := by
  have hle := List.sum_le_card_nsmul (stages.map (·.weight)) maxWeight fun w hw => by
    obtain ⟨s, hs, rfl⟩ := List.mem_map.1 hw
    obtain ⟨i, hi⟩ := List.mem_iff_getElem?.1 hs
    exact (hplace i s hi).weight_le
  rw [List.length_map] at hle
  exact hle

end

/-- Whatever words are drawn, picking stages word by word meets no fault and picks so many stages,
of which each is in place: named by its position, neither weightless nor above the limit, and
derived from an earlier stage unless it is the first. So their list is accepted, or refused because
the weights are too heavy together, which they are not if the limit makes sure of that. -/
theorem drawn_wellFormed (hn : 1 ≤ n) (hle : n ≤ 2 ^ 32) (hmax : 1 ≤ maxWeight)
    (hword : maxWeight ≤ wordMax) :
    (∀ draw : Nat → UInt64,
      pick draw n maxWeight = .ok (drawn draw n maxWeight, 2 * n - 1) ∧
      (drawn draw n maxWeight).length = n ∧
      (∀ i s, (drawn draw n maxWeight)[i]? = some s → InPlace maxWeight i s) ∧
      ((∃ t, BufferTree.ofStages (drawn draw n maxWeight) = .ok t) ∨
        BufferTree.ofStages (drawn draw n maxWeight) = .error .tooHeavy) ∧
      (n * maxWeight ≤ wordMax → ∃ t, BufferTree.ofStages (drawn draw n maxWeight) = .ok t)) ∧
    ∀ seed, random seed n maxWeight = .ok (drawn (ChaCha.word seed) n maxWeight) := by
  refine ⟨fun draw => ?_, fun seed => if_pos ⟨hn, hmax⟩⟩
  have hlength := length_drawn draw n maxWeight
  have hplace : ∀ i s, (drawn draw n maxWeight)[i]? = some s → InPlace maxWeight i s :=
    fun i s => inPlace_drawn hmax hle
  have hne : drawn draw n maxWeight ≠ [] := by
    rw [← List.length_pos_iff, hlength]
    exact hn
  have hsum := sum_weight_le_of_inPlace hplace
  rw [hlength] at hsum
  have htree := ofStages_of_inPlace hplace hne
  refine ⟨pick_eq hmax hword hn, hlength, hplace, htree.imp_right And.left, fun hlight => ?_⟩
  exact htree.resolve_right fun h => absurd h.2 (Nat.not_lt.2 (Nat.le_trans hsum hlight))

/-- Words that pick the largest weight: two of them are too heavy for the largest limit, and not for
half of it. -/
theorem drawn_wellFormed_heaviest :
    pick (fun _ => .ofNat (wordMax - 1)) 2 wordMax =
        .ok (drawn (fun _ => .ofNat (wordMax - 1)) 2 wordMax, 3) ∧
      BufferTree.ofStages (drawn (fun _ => .ofNat (wordMax - 1)) 2 wordMax) = .error .tooHeavy ∧
      ∃ t, BufferTree.ofStages
        (drawn (fun _ => .ofNat (wordMax / 2 - 1)) 2 (wordMax / 2)) = .ok t := by
  have hlargest := (@drawn_wellFormed 2 wordMax (by decide) (by decide) (by decide)
    (Nat.le_refl wordMax)).1 fun _ => .ofNat (wordMax - 1)
  have hhalf := (@drawn_wellFormed 2 (wordMax / 2) (by decide) (by decide) (by decide)
    (Nat.div_le_self wordMax 2)).1 fun _ => .ofNat (wordMax / 2 - 1)
  exact ⟨hlargest.1, by decide +kernel, hhalf.2.2.2.2 (Nat.mul_div_le wordMax 2)⟩

end Sample

end LifetimeArena
