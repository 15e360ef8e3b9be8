import LifetimeArena.Memory.Region
import LifetimeArena.Proofs.Rounding

/-!
# Reading and writing memory

What a store puts where: byte by byte the stored bytes count inside their run, and outside of it the
bytes that were there before (`Region.getElem?_store`). Reads and writes that stay within the usable
bytes succeed.

- `Region.byteAt?`: the byte that a store puts at a position.
- `Region.allocate_ok`: fresh memory is zero and has room for what was asked for.
- `Region.exists_allocate_iff`: when there is memory, whatever the allocator grants.
-/

namespace LifetimeArena

namespace Region

/-- The byte that the listed bytes, stored from `pos` on, put at `x`. -/
def byteAt? (pos : Nat) (data : List UInt8) (x : Nat) : Option UInt8 :=
  if pos ≤ x then data[x - pos]? else none

theorem within_of_byteAt? {pos x : Nat} {data : List UInt8} {b : UInt8}
    (h : byteAt? pos data x = some b) : pos ≤ x ∧ x < pos + data.length := by
  unfold byteAt? at h
  split at h
  · next hle =>
    obtain ⟨hlt, -⟩ := List.getElem?_eq_some_iff.1 h
    omega
  · cases h

/-- The first byte goes to `pos` itself, the others behind it. -/
theorem byteAt?_cons (pos : Nat) (b : UInt8) (data : List UInt8) (x : Nat) :
    byteAt? pos (b :: data) x = if x = pos then some b else byteAt? (pos + 1) data x := by
  unfold byteAt?
  by_cases heq : x = pos
  · simp [heq]
  · by_cases hle : pos ≤ x
    · have hsub : x - pos = x - (pos + 1) + 1 := by omega
      have hle' : pos + 1 ≤ x := by omega
      rw [if_pos hle, if_neg heq, if_pos hle', hsub, List.getElem?_cons_succ]
    · have hle' : ¬ pos + 1 ≤ x := by omega
      rw [if_neg hle, if_neg heq, if_neg hle']

/-! ## Stores -/

@[simp] theorem size_store (bytes : Array UInt8) (pos : Nat) (data : List UInt8) :
    (store bytes pos data).size = bytes.size := by
  induction data generalizing bytes pos with
  | nil => rfl
  | cons b data ih =>
    rw [store, ih, Array.size_setIfInBounds]

/-- A store changes the bytes of its run and no others. -/
theorem getElem?_store {bytes : Array UInt8} {pos : Nat} {data : List UInt8}
    (h : pos + data.length ≤ bytes.size) (x : Nat) :
    (store bytes pos data)[x]? = (byteAt? pos data x).or bytes[x]? := by
  induction data generalizing bytes pos with
  | nil => simp [store, byteAt?]
  | cons b data ih =>
    rw [List.length_cons] at h
    have hfits : pos + 1 + data.length ≤ (bytes.setIfInBounds pos b).size := by
      rw [Array.size_setIfInBounds]
      omega
    rw [store, ih hfits, byteAt?_cons, Array.getElem?_setIfInBounds]
    by_cases heq : x = pos
    · have hpast : byteAt? (pos + 1) data pos = none := if_neg (by omega)
      have hlt : pos < bytes.size := by omega
      simp [heq, hpast, hlt]
    · rw [if_neg heq, if_neg (Ne.symm heq)]

/-! ## Access within bounds -/

variable {r : Region}

theorem read_of_le {range : Interval} (h : range.stop ≤ r.length) :
    r.read range = .ok (r.bytes.extract range.start range.stop) := by
  unfold read require
  rw [if_pos h]

theorem write_of_le {pos : Nat} {data : List UInt8} (h : pos + data.length ≤ r.length) :
    r.write pos data = .ok { r with bytes := store r.bytes pos data } := by
  unfold write require
  rw [if_pos h]

/-! ## Fresh memory -/

/-- What is granted is zeroed, lies where it was asked for and has room for the bytes asked for. -/
theorem allocate_ok {page start length : Nat} {grants : Nat → Bool}
    (h : allocate page start length grants = .ok r) :
    r.page = page ∧ r.start = start ∧ r.bytes = Array.replicate length 0 ∧
      length ≤ r.capacity := by
  unfold allocate at h
  split at h
  · cases h
  · next capacity halign =>
    have hle := le_of_alignUp? halign
    split at h
    · cases h
    · split at h
      · cases h
        exact ⟨rfl, rfl, rfl, Nat.le_trans (Nat.le_max_left length 1) hle⟩
      · cases h

/-- Memory is had exactly if its whole pages are no more than can be asked for and the allocator
grants them. -/
theorem exists_allocate_iff {page start length : Nat} {grants : Nat → Bool}
    (hp : page.isPowerOfTwo) :
    (∃ r, allocate page start length grants = .ok r) ↔
      roundUp page (max length 1) ≤ largestRequest page ∧
        grants (roundUp page (max length 1)) = true := by
  constructor
  · rintro ⟨r, h⟩
    unfold allocate at h
    split at h
    · cases h
    · next capacity halign =>
      obtain ⟨rfl, -⟩ := (alignUp?_eq_some_iff hp).1 halign
      split at h
      · cases h
      · next hle =>
        split at h
        · next hgrants => exact ⟨Nat.le_of_not_lt hle, hgrants⟩
        · cases h
  · rintro ⟨hle, hgrants⟩
    have hround := le_roundUp (Nat.pos_of_isPowerOfTwo hp) (max length 1)
    -- A request of at least one byte leaves no page size beyond the word.
    have hlargest : largestRequest page = 2 ^ 63 - page := rfl
    have hword : wordMax = 2 ^ 64 - 1 := rfl
    have halign : alignUp? (max length 1) page = some (roundUp page (max length 1)) :=
      alignUp?_of_roundUp_le hp (by omega) (by omega)
    unfold allocate
    rw [halign]
    dsimp only
    rw [if_neg (Nat.not_lt_of_le hle), if_pos hgrants]
    exact ⟨_, rfl⟩

end Region

end LifetimeArena
