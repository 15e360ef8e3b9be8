import LifetimeArena.Proofs.Rounding
import Mathlib.Order.Bounds.Basic

/-!
# Least multiples

Rounding by mask finds the least multiple of a power of two that is at or above a word, and has no
answer exactly if that multiple is no word: the sum with the mask on the way is never too large on
its own account. So rounding is monotone, a rounded word stays as it is, and whole multiples in
front pass through.

- `alignUp?_toNat`: rounding by mask as the machine does it, with the complement of the mask.
- `isLeast_roundUp`: `roundUp` is the least multiple.
- `alignUp?_eq_ite`: rounding by mask in terms of it, over all words.
- `alignUp?_exact`: what rounding by mask finds, and what follows from that.
-/

namespace LifetimeArena

/-! ## On machine words -/

/-- The bits of a word inside of a mask and those outside of it make up the word. -/
theorem and_add_and_not (x mask : UInt64) : (x &&& mask) + (x &&& ~~~mask) = x := by
  refine UInt64.toBitVec_inj.1 ?_
  rw [UInt64.toBitVec_add, UInt64.toBitVec_and, UInt64.toBitVec_and, UInt64.toBitVec_not,
    BitVec.add_eq_or_of_and_eq_zero]
  · ext i
    cases hbit : mask.toBitVec[i] <;> simp [hbit]
  · ext i
    cases hbit : mask.toBitVec[i] <;> simp [hbit]

/-- Clearing the bits of a mask keeps the bits of its complement. -/
theorem clearBits_toNat (x mask : UInt64) :
    clearBits x.toNat mask.toNat = (x &&& ~~~mask).toNat := by
  have hsum := congrArg UInt64.toNat (and_add_and_not x mask)
  have hle : (x &&& mask).toNat ≤ x.toNat := by
    rw [UInt64.toNat_and]
    exact Nat.and_le_left
  have hx := x.toNat_lt
  have hin := (x &&& mask).toNat_lt
  have hout := (x &&& ~~~mask).toNat_lt
  rw [UInt64.toNat_add] at hsum
  rw [clearBits, ← UInt64.toNat_and]
  omega

/-- Where the sum with the mask is a word, the machine adds the mask and keeps the bits outside of
it. -/
theorem alignUp?_toNat {value alignment : UInt64} (halignment : 0 < alignment.toNat) :
    alignUp? value.toNat alignment.toNat =
      if value.toNat + (alignment.toNat - 1) ≤ wordMax then
        some ((value + (alignment - 1)) &&& ~~~(alignment - 1)).toNat
      else none := by
  have hmask : (alignment - 1).toNat = alignment.toNat - 1 :=
    UInt64.toNat_sub_of_le _ _ (UInt64.le_iff_toNat_le.2 halignment)
  unfold alignUp? addWord?
  split
  · next hword =>
    have hsum : (value + (alignment - 1)).toNat = value.toNat + (alignment.toNat - 1) := by
      rw [UInt64.toNat_add, hmask]
      exact Nat.mod_eq_of_lt (Nat.lt_succ_of_le hword)
    rw [Option.map_some, ← clearBits_toNat, hsum, hmask]
  · rfl

/-! ## The least multiple -/

section

variable {a : Nat}

theorem isLeast_roundUp (ha : 0 < a) (v : Nat) : IsLeast {m | a ∣ m ∧ v ≤ m} (roundUp a v) :=
  ⟨⟨dvd_roundUp a v, le_roundUp ha v⟩, fun _ hm => roundUp_le_of_dvd hm.1 hm.2⟩

/-- A larger value has no smaller multiple above it. -/
theorem roundUp_mono (ha : 0 < a) {v w : Nat} (h : v ≤ w) : roundUp a v ≤ roundUp a w :=
  roundUp_le_of_dvd (dvd_roundUp a w) (Nat.le_trans h (le_roundUp ha w))

/-- The multiples of an alignment are multiples of everything that divides it. -/
theorem roundUp_le_roundUp {b : Nat} (hb : 0 < b) (hab : a ∣ b) (v : Nat) :
    roundUp a v ≤ roundUp b v :=
  roundUp_le_of_dvd (Nat.dvd_trans hab (dvd_roundUp b v)) (le_roundUp hb v)

variable (ha : a.isPowerOfTwo) (hle : a ≤ wordMax + 1)
include ha hle

/-- The rounded value, if it is a word. -/
theorem alignUp?_eq_ite (v : Nat) :
    alignUp? v a = if roundUp a v ≤ wordMax then some (roundUp a v) else none := by
  split
  · next hword => exact alignUp?_of_roundUp_le ha hle hword
  · next hword => exact (alignUp?_eq_none_iff_lt_roundUp ha hle).2 (Nat.lt_of_not_le hword)

theorem alignUp?_eq_some_iff_roundUp {v m : Nat} :
    alignUp? v a = some m ↔ roundUp a v = m ∧ m ≤ wordMax := by
  rw [alignUp?_eq_ite ha hle]
  split
  · next hword =>
    rw [Option.some_inj]
    exact ⟨fun h => ⟨h, h ▸ hword⟩, fun h => h.1⟩
  · next hword => exact ⟨nofun, fun h => absurd (h.1 ▸ h.2) hword⟩

/-- Whole multiples in front pass through the rounding, unless they push it out of the word. -/
theorem alignUp?_add_left {k : Nat} (hk : a ∣ k) (v : Nat) :
    alignUp? (k + v) a = (alignUp? v a).bind (addWord? k) := by
  have hadd := roundUp_add_left (Nat.pos_of_isPowerOfTwo ha) hk v
  rw [alignUp?_eq_ite ha hle, alignUp?_eq_ite ha hle, hadd]
  by_cases hword : roundUp a v ≤ wordMax
  · rw [if_pos hword]
    rfl
  · rw [if_neg hword, if_neg (by omega)]
    rfl

end

/-- Rounding a word up to a power of two finds the least multiple at or above it, and has no answer
exactly if that multiple is no word. Where there are answers they grow with the word and with the
alignment, and an answer is rounded to itself. Rounding whole multiples and a word behind them gives
their sum with the rounded word, if there is such a word. -/
theorem alignUp?_exact {a : Nat} (ha : a.isPowerOfTwo) (hle : a ≤ 2 ^ 63) :
    (∀ v, v ≤ wordMax → alignUp v a = .ok (alignUp? v a) ∧
      ∃ m, IsLeast {n | a ∣ n ∧ v ≤ n} m ∧
        (alignUp? v a = some m ↔ m ≤ wordMax) ∧ (alignUp? v a = none ↔ wordMax < m)) ∧
    (∀ v w m n, v ≤ w → alignUp? v a = some m → alignUp? w a = some n → m ≤ n) ∧
    (∀ b v m n, b.isPowerOfTwo → b ≤ 2 ^ 63 → a ≤ b →
      alignUp? v a = some m → alignUp? v b = some n → m ≤ n) ∧
    (∀ v m, alignUp? v a = some m → alignUp? m a = some m) ∧
    ∀ k v, a ∣ k → alignUp? (k + v) a = (alignUp? v a).bind (addWord? k) := by
  have hword : ∀ {b : Nat}, b ≤ 2 ^ 63 → b ≤ wordMax + 1 := fun h => Nat.le_trans h (by decide)
  have hpos : 0 < a := Nat.pos_of_isPowerOfTwo ha
  have hiff := @alignUp?_eq_some_iff_roundUp a ha (hword hle)
  refine ⟨fun v _ => ⟨?_, roundUp a v, isLeast_roundUp hpos v, ?_, ?_⟩, ?_, ?_, ?_, ?_⟩
  · rw [alignUp, requireAlignment, if_neg (Nat.ne_of_gt hpos)]
    rfl
  · rw [hiff]
    exact and_iff_right rfl
  · exact alignUp?_eq_none_iff_lt_roundUp ha (hword hle)
  · intro v w m n hvw hm hn
    rw [← (hiff.1 hm).1, ← (hiff.1 hn).1]
    exact roundUp_mono hpos hvw
  · intro b v m n hb hble hab hm hn
    rw [← (hiff.1 hm).1, ← ((alignUp?_eq_some_iff_roundUp hb (hword hble)).1 hn).1]
    exact roundUp_le_roundUp (Nat.pos_of_isPowerOfTwo hb) (dvd_of_le ha hb hab) v
  · intro v m hm
    obtain ⟨rfl, hmword⟩ := hiff.1 hm
    exact hiff.2 ⟨roundUp_of_dvd hpos (dvd_roundUp a v), hmword⟩
  · exact fun k v hk => alignUp?_add_left ha (hword hle) hk v

/-- Above the largest word that is a multiple of 64 there is no multiple to round to; below it, a
multiple in front passes through. -/
theorem alignUp?_exact_top :
    alignUp? (2 ^ 64 - 63) 64 = none ∧ (∀ n, 64 ∣ n → 2 ^ 64 - 63 ≤ n → wordMax < n) ∧
      alignUp? (2 ^ 64 - 128 + 5) 64 = some (2 ^ 64 - 64) := by
  obtain ⟨hexact, -, -, -, hadd⟩ := alignUp?_exact (a := 64) ⟨6, rfl⟩ (by decide)
  obtain ⟨-, m, hleast, -, hnone⟩ := hexact (2 ^ 64 - 63) (by decide)
  have hno : alignUp? (2 ^ 64 - 63) 64 = none := rfl
  refine ⟨hno, fun n hn hle => ?_, (hadd (2 ^ 64 - 128) 5 (by decide)).trans rfl⟩
  exact Nat.lt_of_lt_of_le (hnone.1 hno) (hleast.2 ⟨hn, hle⟩)

end LifetimeArena
