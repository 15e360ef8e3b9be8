import LifetimeArena.Proofs.Sample.Numbered
import Mathlib.Algebra.BigOperators.Intervals
import Mathlib.Algebra.Ring.GeomSum

/-!
# Band splits

A band split is listed level by level, and the bands are numbered as they are listed. So the bands
that the band numbered `i` is divided into come `fanOut` at a time, from number `fanOut * i + 1` on,
and the list is a numbered pipeline: the band numbered `i` is a part of the one numbered
`(i - 1) / fanOut`, however deep the split is (`Sample.bandSplit_eq_numbered`). Where all divisions
come out even, every level has the weight of the root, and no antichain is heavier than that.

- `Sample.levelStart`: the number of the first band of a level.
- `Sample.bandWeight`: the size of a band by its number.
- `Sample.bandWeight_mul_pow`: the size of a band by its level.
- `Sample.families_closed_forms`: what chains, stars and band splits are solved to.
-/

namespace LifetimeArena

open Finset

namespace Sample

variable {fanOut rootWeight depth level i : Nat}

/-- The number of bands above a level, which is the number of its first band. -/
def levelStart (fanOut level : Nat) : Nat := ∑ k ∈ range level, fanOut ^ k

/-- The size of the band numbered `i`. -/
def bandWeight (fanOut rootWeight : Nat) : (i : Nat) → Nat
  | 0 => rootWeight
  | i + 1 => max (bandWeight fanOut rootWeight (i / fanOut) / fanOut) 1
termination_by i => i
decreasing_by exact Nat.lt_succ_of_le (Nat.div_le_self i fanOut)

/-- The number of the band that the band numbered `i` is a part of. -/
def bandParent (fanOut i : Nat) : Nat := (i - 1) / fanOut

/-- The band numbered `i`. -/
def band (fanOut rootWeight : Nat) : (i : Nat) → Band
  | 0 => ⟨0, rootWeight, none⟩
  | i + 1 => ⟨i + 1, bandWeight fanOut rootWeight (i + 1), some (i / fanOut)⟩

theorem stage_band (i : Nat) :
    (band fanOut rootWeight i).stage =
      numberedStage (bandWeight fanOut rootWeight) (bandParent fanOut) i := by
  cases i with
  | zero => rw [numberedStage, bandWeight]; rfl
  | succ i => rfl

theorem id_band (i : Nat) : (band fanOut rootWeight i).id = i := by
  cases i <;> rfl

theorem weight_band (i : Nat) :
    (band fanOut rootWeight i).weight = bandWeight fanOut rootWeight i := by
  cases i with
  | zero => rw [bandWeight]; rfl
  | succ i => rfl

theorem levelStart_succ (fanOut level : Nat) :
    levelStart fanOut (level + 1) = levelStart fanOut level + fanOut ^ level :=
  sum_range_succ _ _

/-- The first part of the first band of a level is the first band of the next level. -/
theorem levelStart_succ_eq_mul (fanOut level : Nat) :
    levelStart fanOut (level + 1) = fanOut * levelStart fanOut level + 1 :=
  geom_sum_succ

/-! ## Numbers -/

section

variable (hf : 0 < fanOut)
include hf

/-- The bands that one band is divided into. -/
theorem map_parts (rootWeight i : Nat) :
    (List.range fanOut).map (fun j => ⟨fanOut * i + 1 + j,
        max (bandWeight fanOut rootWeight i / fanOut) 1, some i⟩) =
      (List.range' (fanOut * i + 1) fanOut).map (band fanOut rootWeight) := by
  rw [List.range'_eq_map_range, List.map_map]
  refine List.map_congr_left fun j hj => ?_
  have hparent : (fanOut * i + j) / fanOut = i := by
    rw [Nat.mul_add_div hf, Nat.div_eq_of_lt (List.mem_range.1 hj), Nat.add_zero]
  rw [Function.comp_apply, Nat.add_right_comm, band, bandWeight, hparent]

/-- Dividing consecutive bands gives consecutive bands. -/
theorem splitLevel_map_band (rootWeight i count : Nat) :
    splitLevel fanOut (fanOut * i + 1) ((List.range' i count).map (band fanOut rootWeight)) =
      (List.range' (fanOut * i + 1) (fanOut * count)).map (band fanOut rootWeight) := by
  induction count generalizing i with
  | zero => rfl
  | succ count ih =>
    have hnext : fanOut * i + 1 + fanOut = fanOut * (i + 1) + 1 := by
      rw [Nat.mul_add, Nat.mul_one, Nat.add_right_comm]
    rw [List.range'_succ, List.map_cons, splitLevel, id_band, weight_band, map_parts hf, hnext, ih,
      ← List.map_append, ← hnext, List.range'_append_1, Nat.mul_succ, Nat.add_comm fanOut]

/-- From any level on the bands are listed by number. -/
theorem levels_map_band (rootWeight depth level : Nat) :
    levels fanOut depth (levelStart fanOut (level + 1))
        ((List.range' (levelStart fanOut level) (fanOut ^ level)).map (band fanOut rootWeight)) =
      (List.range' (levelStart fanOut level) (∑ k ∈ range (depth + 1), fanOut ^ (level + k))).map
        (band fanOut rootWeight) := by
  induction depth generalizing level with
  | zero => rw [levels, sum_range_one, Nat.add_zero]
  | succ depth ih =>
    have hbelow := splitLevel_map_band hf rootWeight (levelStart fanOut level) (fanOut ^ level)
    rw [← levelStart_succ_eq_mul, Nat.mul_comm, ← Nat.pow_succ] at hbelow
    have hsum : ∑ k ∈ range (depth + 1 + 1), fanOut ^ (level + k) =
        fanOut ^ level + ∑ k ∈ range (depth + 1), fanOut ^ (level + 1 + k) := by
      rw [sum_range_succ', Nat.add_zero, Nat.add_comm]
      refine congrArg _ (sum_congr rfl fun k _ => ?_)
      rw [Nat.add_assoc, Nat.add_comm 1]
    rw [levels, hbelow, List.length_map, List.length_range', ← levelStart_succ, ih,
      ← List.map_append, levelStart_succ fanOut level, List.range'_append_1, hsum]

/-- A band split is a numbered pipeline. -/
theorem bandSplit_eq_numbered (depth rootWeight : Nat) :
    bandSplit depth fanOut rootWeight =
      numbered (levelStart fanOut (depth + 1)) (bandWeight fanOut rootWeight)
        (bandParent fanOut) := by
  have hlevels := levels_map_band hf rootWeight depth 0
  have hcount : ∑ k ∈ range (depth + 1), fanOut ^ (0 + k) = levelStart fanOut (depth + 1) :=
    sum_congr rfl fun k _ => by rw [Nat.zero_add]
  have hone : levelStart fanOut 1 = 1 := by rw [levelStart, sum_range_one, Nat.pow_zero]
  rw [hcount, Nat.zero_add, hone] at hlevels
  rw [bandSplit, numbered, List.range_eq_range']
  calc (levels fanOut depth 1 [⟨0, rootWeight, none⟩]).map Band.stage
      = ((List.range' 0 (levelStart fanOut (depth + 1))).map (band fanOut rootWeight)).map
          Band.stage := congrArg _ hlevels
    _ = (List.range' 0 (levelStart fanOut (depth + 1))).map
          (numberedStage (bandWeight fanOut rootWeight) (bandParent fanOut)) := by
        rw [List.map_map]
        exact List.map_congr_left fun i _ => stage_band i

end

/-! ## Levels -/

/-- Every band lies on a level. -/
theorem exists_level (hi : i < levelStart fanOut (depth + 1)) :
    ∃ level ≤ depth, levelStart fanOut level ≤ i ∧ i < levelStart fanOut (level + 1) := by
  induction depth with
  | zero => exact ⟨0, Nat.le_refl 0, Nat.zero_le i, hi⟩
  | succ depth ih =>
    by_cases habove : i < levelStart fanOut (depth + 1)
    · obtain ⟨level, hle, hlevel⟩ := ih habove
      exact ⟨level, Nat.le_succ_of_le hle, hlevel⟩
    · exact ⟨depth + 1, Nat.le_refl _, Nat.le_of_not_lt habove, hi⟩

theorem bandWeight_pos (hroot : 0 < rootWeight) (i : Nat) : 0 < bandWeight fanOut rootWeight i := by
  cases i with
  | zero => rwa [bandWeight]
  | succ i =>
    rw [bandWeight]
    exact Nat.lt_of_lt_of_le Nat.one_pos (Nat.le_max_right _ _)

section

variable (hf : 0 < fanOut) (hroot : 0 < rootWeight) (hdvd : fanOut ^ depth ∣ rootWeight)
include hf

/-- A part lies one level below the band that is divided. -/
theorem parent_level (hstart : levelStart fanOut (level + 1) ≤ i + 1)
    (hstop : i + 1 < levelStart fanOut (level + 1 + 1)) :
    levelStart fanOut level ≤ i / fanOut ∧ i / fanOut < levelStart fanOut (level + 1) := by
  rw [levelStart_succ_eq_mul] at hstart hstop
  refine ⟨(Nat.le_div_iff_mul_le hf).2 ?_, Nat.div_lt_of_lt_mul (Nat.lt_of_succ_lt_succ hstop)⟩
  rw [Nat.mul_comm]
  exact Nat.le_of_succ_le_succ hstart

include hroot hdvd

/-- Where the divisions come out even, every level divides the root into equal bands. -/
theorem bandWeight_mul_pow (hlevel : level ≤ depth) (hstart : levelStart fanOut level ≤ i)
    (hstop : i < levelStart fanOut (level + 1)) :
    bandWeight fanOut rootWeight i * fanOut ^ level = rootWeight := by
  induction level generalizing i with
  | zero =>
    have hzero : i = 0 := by
      rw [levelStart, sum_range_one, Nat.pow_zero] at hstop
      exact Nat.lt_one_iff.1 hstop
    rw [hzero, bandWeight, Nat.pow_zero, Nat.mul_one]
  | succ level ih =>
    obtain ⟨i, rfl⟩ : ∃ j, i = j + 1 := by
      refine Nat.exists_eq_succ_of_ne_zero fun hzero => ?_
      rw [hzero, levelStart_succ_eq_mul] at hstart
      exact Nat.not_succ_le_zero _ hstart
    obtain ⟨hpstart, hpstop⟩ := parent_level hf hstart hstop
    have hparent := ih (Nat.le_of_succ_le hlevel) hpstart hpstop
    -- The parent is divided evenly, into parts of at least one byte.
    have hwhole : fanOut ∣ bandWeight fanOut rootWeight (i / fanOut) := by
      refine Nat.dvd_of_mul_dvd_mul_right (Nat.pow_pos hf (n := level)) ?_
      rw [hparent, Nat.mul_comm, ← Nat.pow_succ]
      exact Nat.dvd_trans (Nat.pow_dvd_pow fanOut hlevel) hdvd
    have hpart : 1 ≤ bandWeight fanOut rootWeight (i / fanOut) / fanOut :=
      Nat.div_pos (Nat.le_of_dvd (bandWeight_pos hroot _) hwhole) hf
    rw [bandWeight, Nat.max_eq_left hpart, Nat.pow_succ', ← Nat.mul_assoc,
      Nat.div_mul_cancel hwhole, hparent]

/-- A part has its share of the band that is divided. -/
theorem bandWeight_parent (hi : 0 < i) (hlt : i < levelStart fanOut (depth + 1)) :
    bandWeight fanOut rootWeight i =
      bandWeight fanOut rootWeight (bandParent fanOut i) / fanOut := by
  obtain ⟨level, hle, hstart, hstop⟩ := exists_level hlt
  obtain ⟨i, rfl⟩ := Nat.exists_eq_succ_of_ne_zero (Nat.ne_of_gt hi)
  cases level with
  | zero =>
    rw [levelStart, sum_range_one, Nat.pow_zero] at hstop
    exact absurd hstop (Nat.not_lt.2 (Nat.succ_le_succ (Nat.zero_le i)))
  | succ level =>
    obtain ⟨hpstart, hpstop⟩ := parent_level hf hstart hstop
    have hpart := bandWeight_mul_pow hf hroot hdvd hle hstart hstop
    have hwhole := bandWeight_mul_pow hf hroot hdvd (Nat.le_of_succ_le hle) hpstart hpstop
    rw [Nat.pow_succ', ← Nat.mul_assoc] at hpart
    have hshare : bandWeight fanOut rootWeight (i + 1) * fanOut =
        bandWeight fanOut rootWeight (i / fanOut) :=
      Nat.eq_of_mul_eq_mul_right (Nat.pow_pos hf) (hpart.trans hwhole.symm)
    exact (Nat.div_eq_of_eq_mul_left hf hshare.symm).symm

/-- The parts of a band are together no larger than the band. -/
theorem sum_parts_le (i : Nat) :
    ∑ c ∈ range (levelStart fanOut (depth + 1)) with 0 < c ∧ bandParent fanOut c = i,
      bandWeight fanOut rootWeight c ≤ bandWeight fanOut rootWeight i := by
  have hshare : ∀ c ∈ {c ∈ range (levelStart fanOut (depth + 1)) | 0 < c ∧ bandParent fanOut c = i},
      bandWeight fanOut rootWeight c = bandWeight fanOut rootWeight i / fanOut := by
    intro c hc
    obtain ⟨hlt, hpos, rfl⟩ := mem_filter.1 hc
    exact bandWeight_parent hf hroot hdvd hpos (mem_range.1 hlt)
  have hsub : {c ∈ range (levelStart fanOut (depth + 1)) | 0 < c ∧ bandParent fanOut c = i} ⊆
      Ico (fanOut * i + 1) (fanOut * i + 1 + fanOut) := by
    intro c hc
    obtain ⟨-, hpos, rfl⟩ := mem_filter.1 hc
    have hle := Nat.mul_div_le (c - 1) fanOut
    have hlt := Nat.lt_mul_div_succ (c - 1) hf
    rw [Nat.mul_succ] at hlt
    rw [mem_Ico]
    unfold bandParent
    omega
  have hcard := card_le_card hsub
  rw [Nat.card_Ico, Nat.add_sub_cancel_left] at hcard
  rw [sum_const_nat hshare]
  exact Nat.le_trans (Nat.mul_le_mul_right _ hcard) (Nat.mul_div_le _ _)

/-- Every level has the weight of the root. -/
theorem sum_bandWeight (hlevel : level ≤ depth + 1) :
    ∑ i ∈ range (levelStart fanOut level), bandWeight fanOut rootWeight i = level * rootWeight := by
  induction level with
  | zero => rw [levelStart, sum_range_zero, sum_range_zero, Nat.zero_mul]
  | succ level ih =>
    have hle : level ≤ depth := Nat.le_of_succ_le_succ hlevel
    have hband : ∀ j ∈ range (fanOut ^ level),
        bandWeight fanOut rootWeight (levelStart fanOut level + j) =
          rootWeight / fanOut ^ level := by
      intro j hj
      have hstop : levelStart fanOut level + j < levelStart fanOut (level + 1) := by
        rw [levelStart_succ]
        exact Nat.add_lt_add_left (mem_range.1 hj) _
      have hpow := bandWeight_mul_pow hf hroot hdvd hle (Nat.le_add_right _ j) hstop
      exact (Nat.div_eq_of_eq_mul_left (Nat.pow_pos hf) hpow.symm).symm
    have hdvd' : fanOut ^ level ∣ rootWeight :=
      Nat.dvd_trans (Nat.pow_dvd_pow fanOut hle) hdvd
    rw [levelStart_succ, sum_range_add, ih (Nat.le_of_succ_le hlevel), sum_const_nat hband,
      card_range, Nat.mul_div_cancel' hdvd', Nat.succ_mul]

theorem grows_bandSplit (hnames : levelStart fanOut (depth + 1) ≤ 2 ^ 32)
    (htotal : (depth + 1) * rootWeight ≤ wordMax) :
    Grows (levelStart fanOut (depth + 1)) (bandWeight fanOut rootWeight) (bandParent fanOut) where
  pos := by
    rw [levelStart_succ_eq_mul]
    exact Nat.succ_pos _
  le := hnames
  weight_pos := fun i _ => bandWeight_pos hroot i
  parent_lt := fun i hpos _ =>
    Nat.lt_of_le_of_lt (Nat.div_le_self _ _) (Nat.sub_lt hpos Nat.one_pos)
  total_le := by
    rw [sum_bandWeight hf hroot hdvd (Nat.le_refl _)]
    exact htotal

/-- A band split that comes out even takes the room of its root. -/
theorem solve_bandSplit (hnames : levelStart fanOut (depth + 1) ≤ 2 ^ 32)
    (htotal : (depth + 1) * rootWeight ≤ wordMax) :
    ∃ t, BufferTree.ofStages (bandSplit depth fanOut rootWeight) = .ok t ∧
      t.size = levelStart fanOut (depth + 1) ∧ t.totalWeight = (depth + 1) * rootWeight ∧
      t.maxAntichainWeight = rootWeight ∧
      ∀ verify, (Solver.solve (.ofSettings { verify := verify }) t).result = .ok rootWeight := by
  obtain ⟨t, hbuilt, hnumbers⟩ :=
    exists_numbered (grows_bandSplit hf hroot hdvd hnames htotal)
  have wf := BufferTree.ofStages_wellFormed hbuilt
  have hmax : t.maxAntichainWeight = rootWeight := by
    rw [hnumbers.maxAntichainWeight_eq wf fun i _ => sum_parts_le hf hroot hdvd i, bandWeight]
  obtain ⟨offsets, -, hsolve⟩ := Solver.solve_unaligned hbuilt
  rw [hmax] at hsolve
  rw [bandSplit_eq_numbered hf]
  refine ⟨t, hbuilt, hnumbers.size_eq, ?_, hmax, fun verify => (hsolve verify).1⟩
  rw [hnumbers.totalWeight_eq, sum_bandWeight hf hroot hdvd (Nat.le_refl _)]

end

/-! ## The families together -/

/-- The sample pipelines are solved to their closed forms, however many stages can be numbered, and
whether layouts are tested or not. A chain needs the room of one buffer, and every buffer starts at
its first byte. A star needs all its leaves beside each other. A band split that comes out even
needs its root. -/
theorem families_closed_forms :
    (∀ n weight, 0 < n → 0 < weight → n < 2 ^ 32 → n * weight ≤ wordMax →
      ∃ t, BufferTree.ofStages (chain n weight) = .ok t ∧
        ∀ verify, (Solver.solve (.ofSettings { verify := verify }) t).result = .ok weight ∧
          ∀ i, i < n →
            (Solver.solve (.ofSettings { verify := verify }) t).tree.offset? i = some 0) ∧
    (∀ n weight, 0 < n → 0 < weight → n < 2 ^ 32 → (n + 1) * weight ≤ wordMax →
      ∃ t, BufferTree.ofStages (star n weight) = .ok t ∧
        ∀ verify,
          (Solver.solve (.ofSettings { verify := verify }) t).result = .ok (n * weight)) ∧
    (∀ depth fanOut rootWeight, 0 < fanOut → 0 < rootWeight → fanOut ^ depth ∣ rootWeight →
      ∑ k ∈ range (depth + 1), fanOut ^ k < 2 ^ 32 → (depth + 1) * rootWeight ≤ wordMax →
      ∃ stages t, bandSplitAt depth fanOut rootWeight = .ok stages ∧
        BufferTree.ofStages stages = .ok t ∧ t.size = ∑ k ∈ range (depth + 1), fanOut ^ k ∧
        t.totalWeight = (depth + 1) * rootWeight ∧ t.maxAntichainWeight = rootWeight ∧
        ∀ verify,
          (Solver.solve (.ofSettings { verify := verify }) t).result = .ok rootWeight) := by
  refine ⟨fun n weight hn hweight hnames htotal => ?_, fun n weight hn hweight hnames htotal => ?_,
    fun depth fanOut rootWeight hf hroot hdvd hnames htotal => ?_⟩
  · exact solve_chain hn hweight (Nat.le_of_lt hnames) htotal
  · exact solve_star hn hweight hnames htotal
  · obtain ⟨t, hsolve⟩ := solve_bandSplit hf hroot hdvd (Nat.le_of_lt hnames) htotal
    exact ⟨_, t, if_neg fun hzero => Nat.ne_of_gt hf hzero.1, hsolve⟩

/-- A chain and a star of a thousand stages, and the band split used for measurements. -/
theorem families_closed_forms_measured :
    (∃ t, BufferTree.ofStages (chain 1000 64) = .ok t ∧
      (Solver.standard.solve t).result = .ok 64 ∧
      (Solver.standard.solve t).tree.offset? 999 = some 0) ∧
    (∃ t, BufferTree.ofStages (star 1000 64) = .ok t ∧
      (Solver.standard.solve t).result = .ok 64000) ∧
    ∃ t, BufferTree.ofStages referenceProfile = .ok t ∧ t.size = 341 ∧
      t.totalWeight = 327680 ∧ (Solver.standard.solve t).result = .ok 65536 := by
  obtain ⟨hchain, hstar, hband⟩ := families_closed_forms
  obtain ⟨t, ht, hsolve⟩ := hchain 1000 64 (by decide) (by decide) (by decide) (by decide)
  obtain ⟨t', ht', hsolve'⟩ := hstar 1000 64 (by decide) (by decide) (by decide) (by decide)
  obtain ⟨stages, t'', hstages, ht'', hsize, htotal, -, hsolve''⟩ :=
    hband 4 4 65536 (by decide) (by decide) (by decide) (by decide) (by decide)
  have hprofile : bandSplitAt 4 4 65536 = .ok referenceProfile := rfl
  rw [hprofile] at hstages
  cases hstages
  exact ⟨⟨t, ht, (hsolve true).1, (hsolve true).2 999 (by decide)⟩, ⟨t', ht', hsolve' true⟩,
    ⟨t'', ht'', hsize, htotal, hsolve'' true⟩⟩

end Sample

end LifetimeArena
