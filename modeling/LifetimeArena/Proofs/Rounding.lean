import LifetimeArena.Word
import Mathlib.Algebra.Group.Nat.Defs

/-!
# Rounding up

`alignUp?` works on bits of a word: it adds a mask, which may leave the word, and clears the mask.
`roundUp` is the arithmetic behind it, on all natural numbers: the least multiple of an alignment
that is at or above a value. For powers of two the two agree wherever the sum with the mask is a
word, and `alignUp?` has no answer elsewhere (`alignUp?_two_pow`).

- `roundUp`: the least multiple at or above a value.
- `alignUp?_eq_some_iff`, `alignUp?_eq_none_iff`: `alignUp?` in terms of it.
- `le_clearBits_iff`: clearing the mask alone rounds down.
-/

namespace LifetimeArena

/-- The least multiple of `alignment` that is at or above `value`. -/
def roundUp (alignment value : Nat) : Nat := (value + (alignment - 1)) / alignment * alignment

section

variable {a : Nat}

theorem dvd_roundUp (a v : Nat) : a ∣ roundUp a v := Nat.dvd_mul_left _ _

theorem le_roundUp (ha : 0 < a) (v : Nat) : v ≤ roundUp a v := by
  have hdiv := Nat.div_add_mod (v + (a - 1)) a
  have hmod := Nat.mod_lt (v + (a - 1)) ha
  rw [Nat.mul_comm] at hdiv
  unfold roundUp
  omega

theorem roundUp_le_of_dvd {v m : Nat} (hm : a ∣ m) (h : v ≤ m) : roundUp a v ≤ m := by
  obtain ⟨q, rfl⟩ := hm
  rcases Nat.eq_zero_or_pos a with rfl | ha
  · simp [roundUp]
  · have hq : (v + (a - 1)) / a < q + 1 := by
      refine Nat.div_lt_of_lt_mul ?_
      rw [Nat.mul_succ]
      omega
    unfold roundUp
    rw [Nat.mul_comm a q]
    exact Nat.mul_le_mul_right a (Nat.le_of_lt_succ hq)

/-- Less than one alignment is added. -/
theorem roundUp_lt_add (ha : 0 < a) (v : Nat) : roundUp a v < v + a := by
  have hle : roundUp a v ≤ v + (a - 1) := Nat.div_mul_le_self _ _
  omega

/-- A multiple lies at or above the rounded value exactly if it lies at or above the value. -/
theorem roundUp_le_iff (ha : 0 < a) {v m : Nat} (hm : a ∣ m) : roundUp a v ≤ m ↔ v ≤ m :=
  ⟨fun h => Nat.le_trans (le_roundUp ha v) h, roundUp_le_of_dvd hm⟩

theorem roundUp_of_dvd (ha : 0 < a) {v : Nat} (h : a ∣ v) : roundUp a v = v :=
  Nat.le_antisymm (roundUp_le_of_dvd h (Nat.le_refl v)) (le_roundUp ha v)

@[simp] theorem roundUp_zero (a : Nat) : roundUp a 0 = 0 :=
  Nat.le_zero.1 (roundUp_le_of_dvd (Nat.dvd_zero a) (Nat.le_refl 0))

/-- Whole multiples in front pass through the rounding. -/
theorem roundUp_add_left (ha : 0 < a) {k : Nat} (hk : a ∣ k) (v : Nat) :
    roundUp a (k + v) = k + roundUp a v := by
  refine Nat.le_antisymm ?_ ?_
  · refine roundUp_le_of_dvd (Nat.dvd_add hk (dvd_roundUp a v)) ?_
    exact Nat.add_le_add_left (le_roundUp ha v) k
  · have hge : k + v ≤ roundUp a (k + v) := le_roundUp ha (k + v)
    have hsub : a ∣ roundUp a (k + v) - k := Nat.dvd_sub (dvd_roundUp a (k + v)) hk
    have hv : roundUp a v ≤ roundUp a (k + v) - k := roundUp_le_of_dvd hsub (by omega)
    omega

end

/-! ## The bitwise rounding -/

/-- Clearing the lowest `k` bits leaves the part of a number that is a multiple of `2 ^ k`. -/
theorem clearBits_two_pow_sub_one (x k : Nat) : clearBits x (2 ^ k - 1) = x - x % 2 ^ k := by
  rw [clearBits, Nat.and_two_pow_sub_one_eq_mod]

/-- Rounding by mask never goes below the value. -/
theorem le_of_alignUp? {value alignment rounded : Nat}
    (h : alignUp? value alignment = some rounded) : value ≤ rounded := by
  unfold alignUp? at h
  obtain ⟨sum, hsum, rfl⟩ := Option.map_eq_some_iff.1 h
  obtain ⟨rfl, -⟩ := addWord?_eq_some_iff.1 hsum
  have hmask : (value + (alignment - 1)) &&& (alignment - 1) ≤ alignment - 1 := Nat.and_le_right
  unfold clearBits
  omega

/-- For a power of two, rounding by mask is rounding up, as long as the sum with the mask is a
word. -/
theorem alignUp?_two_pow (v k : Nat) :
    alignUp? v (2 ^ k) =
      if v + (2 ^ k - 1) ≤ wordMax then some (roundUp (2 ^ k) v) else none := by
  have hround : clearBits (v + (2 ^ k - 1)) (2 ^ k - 1) = roundUp (2 ^ k) v := by
    have hdiv := Nat.div_add_mod (v + (2 ^ k - 1)) (2 ^ k)
    rw [clearBits_two_pow_sub_one]
    unfold roundUp
    rw [Nat.mul_comm] at hdiv
    omega
  unfold alignUp? addWord?
  split
  · rw [Option.map_some, hround]
  · rfl

section

variable {a : Nat} (ha : a.isPowerOfTwo)
include ha

/-- Of two powers of two the smaller divides the larger. -/
theorem dvd_of_le {b : Nat} (hb : b.isPowerOfTwo) (hle : a ≤ b) : a ∣ b := by
  obtain ⟨k, rfl⟩ := ha
  obtain ⟨l, rfl⟩ := hb
  exact Nat.pow_dvd_pow 2 ((Nat.pow_le_pow_iff_right (by decide)).1 hle)

/-- Clearing the bits below an alignment rounds down. -/
theorem clearBits_eq (x : Nat) : clearBits x (a - 1) = x / a * a := by
  obtain ⟨k, rfl⟩ := ha
  rw [clearBits_two_pow_sub_one, Nat.div_mul_self_eq_mod_sub_self]

/-- A multiple lies at or below the cleared value exactly if it lies at or below the value. -/
theorem le_clearBits_iff {x m : Nat} (hm : a ∣ m) : m ≤ clearBits x (a - 1) ↔ m ≤ x := by
  have hpos : 0 < a := Nat.pos_of_isPowerOfTwo ha
  obtain ⟨q, rfl⟩ := hm
  rw [clearBits_eq ha, Nat.mul_comm a q, Nat.mul_le_mul_right_iff hpos,
    Nat.le_div_iff_mul_le hpos]

theorem alignUp?_eq_some_iff {v m : Nat} :
    alignUp? v a = some m ↔ roundUp a v = m ∧ v + (a - 1) ≤ wordMax := by
  obtain ⟨k, rfl⟩ := ha
  rw [alignUp?_two_pow]
  split <;> simp_all

theorem alignUp?_eq_none_iff {v : Nat} : alignUp? v a = none ↔ wordMax < v + (a - 1) := by
  obtain ⟨k, rfl⟩ := ha
  rw [alignUp?_two_pow]
  split
  · simp_all
  · simp only [true_iff]
    omega

/-- The sum with the mask is a word as soon as the rounded value is one, because the first number
beyond the word is a multiple of the alignment. -/
theorem alignUp?_of_roundUp_le (hle : a ≤ wordMax + 1) {v : Nat} (h : roundUp a v ≤ wordMax) :
    alignUp? v a = some (roundUp a v) := by
  refine (alignUp?_eq_some_iff ha).2 ⟨rfl, ?_⟩
  have hpos : 0 < a := Nat.pos_of_isPowerOfTwo ha
  obtain ⟨q, hq⟩ : a ∣ wordMax + 1 := dvd_of_le ha ⟨64, rfl⟩ hle
  obtain ⟨r, hr⟩ := dvd_roundUp a v
  have hlt : a * r < a * q := by omega
  have hsucc : a * (r + 1) ≤ a * q := Nat.mul_le_mul_left a (Nat.lt_of_mul_lt_mul_left hlt)
  have hv := le_roundUp hpos v
  rw [Nat.mul_succ] at hsucc
  omega

/-- Rounding by mask has no answer exactly where the rounded value is no word. -/
theorem alignUp?_eq_none_iff_lt_roundUp (hle : a ≤ wordMax + 1) {v : Nat} :
    alignUp? v a = none ↔ wordMax < roundUp a v := by
  constructor
  · intro hnone
    refine Nat.lt_of_not_le fun hword => ?_
    rw [alignUp?_of_roundUp_le ha hle hword] at hnone
    cases hnone
  · intro hlt
    have hadd := roundUp_lt_add (Nat.pos_of_isPowerOfTwo ha) v
    exact (alignUp?_eq_none_iff ha).2 (by omega)

end

end LifetimeArena
