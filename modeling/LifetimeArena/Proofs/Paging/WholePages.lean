import LifetimeArena.Paging.PageRun
import LifetimeArena.Proofs.Rounding

/-!
# Whole pages

`PageRun.covering?` rounds the start of a block up and its end down. What is left are exactly the
pages that lie wholly in the block: a page lies in the run if and only if it lies in the block, and
there is no run only if there is no such page. Rounding works with masks and on words, so this holds
up to the very end of the address space.

- `PageRun.Holds`: a page lies wholly in a run of bytes.
- `PageRun.Whole`: runs that consist of whole pages; they touch no page that they do not hold.
- `PageRun.covering?_eq_some`, `PageRun.not_holds_of_covering?_eq_none`: the pages of a block.
- `PageRun.RoundsInward`, `PageRun.covering_rounds_inward`: the run as a part of its block.
-/

namespace LifetimeArena

namespace PageRun

/-- The page numbered `k` lies wholly in the run. -/
def Holds (r : PageRun) (page k : Nat) : Prop := r.start ≤ k * page ∧ (k + 1) * page ≤ r.stop

instance (r : PageRun) (page k : Nat) : Decidable (r.Holds page k) :=
  inferInstanceAs (Decidable (_ ∧ _))

/-- The run consists of whole pages, of which there is at least one. -/
structure Whole (r : PageRun) (page : Nat) : Prop where
  start_dvd : page ∣ r.start
  length_dvd : page ∣ r.length
  length_pos : 0 < r.length

variable {r : PageRun} {addr size page k : Nat}

theorem Whole.page_pos (h : r.Whole page) : 0 < page :=
  Nat.pos_of_dvd_of_pos h.length_dvd h.length_pos

/-- A run of whole pages touches no page in part. -/
theorem Whole.touches_iff (h : r.Whole page) : r.Touches page k ↔ r.Holds page k := by
  have hpos := h.page_pos
  obtain ⟨q, hq⟩ := h.start_dvd
  obtain ⟨l, hl⟩ := h.length_dvd
  have hstop : r.stop = page * (q + l) := by rw [stop, hq, hl, Nat.mul_add]
  unfold Touches Holds
  rw [hq, hstop, Nat.mul_comm (k + 1) page, Nat.mul_comm k page, Nat.mul_lt_mul_left hpos,
    Nat.mul_lt_mul_left hpos, Nat.mul_le_mul_left_iff hpos, Nat.mul_le_mul_left_iff hpos]
  omega

/-- All bytes of a page that lies wholly in a run belong to the run. -/
theorem Holds.mem {x : Nat} (hpos : 0 < page) (h : r.Holds page (x / page)) :
    r.start ≤ x ∧ x < r.stop := by
  have hle : x / page * page ≤ x := Nat.div_mul_le_self x page
  have hlt : x < (x / page + 1) * page := by
    rw [Nat.add_mul, Nat.one_mul]
    exact Nat.lt_div_mul_add hpos
  exact ⟨Nat.le_trans h.1 hle, Nat.lt_of_lt_of_le hlt h.2⟩

/-! ## The pages of a block -/

section

variable (hp : page.isPowerOfTwo)
include hp

/-- The run is made of whole pages, and they are the ones that lie wholly in the block. -/
theorem covering?_eq_some (h : covering? addr size page = some r) :
    r.Whole page ∧ ∀ k, r.Holds page k ↔ (⟨addr, size⟩ : PageRun).Holds page k := by
  have hpos : 0 < page := Nat.pos_of_isPowerOfTwo hp
  unfold covering? at h
  split at h
  · next start reach hstart hreach =>
    obtain ⟨rfl, -⟩ := (alignUp?_eq_some_iff hp).1 hstart
    obtain ⟨rfl, -⟩ := addWord?_eq_some_iff.1 hreach
    dsimp only at h
    split at h
    · cases h
    · next hlt =>
      cases h
      have hdvd : page ∣ clearBits (addr + size) (page - 1) := by
        rw [clearBits_eq hp]
        exact Nat.dvd_mul_left _ _
      refine ⟨⟨dvd_roundUp page addr, Nat.dvd_sub hdvd (dvd_roundUp page addr), ?_⟩, fun k => ?_⟩
      · show 0 < clearBits (addr + size) (page - 1) - roundUp page addr
        omega
      · -- Both ends are rounded to multiples, so they bound the same multiples as before.
        have hend : roundUp page addr + (clearBits (addr + size) (page - 1) - roundUp page addr) =
            clearBits (addr + size) (page - 1) := by omega
        unfold Holds stop
        dsimp only
        rw [hend, roundUp_le_iff hpos (Nat.dvd_mul_left page k),
          le_clearBits_iff hp (Nat.dvd_mul_left page (k + 1))]
  · cases h

/-- A block without a run has no whole page, if it lies within the address space. -/
theorem not_holds_of_covering?_eq_none (hword : addr + size ≤ wordMax)
    (h : covering? addr size page = none) (k : Nat) :
    ¬ (⟨addr, size⟩ : PageRun).Holds page k := by
  have hpos : 0 < page := Nat.pos_of_isPowerOfTwo hp
  rintro ⟨hle, hstop⟩
  have hstart : roundUp page addr ≤ k * page := roundUp_le_of_dvd (Nat.dvd_mul_left page k) hle
  have hsucc : (k + 1) * page = k * page + page := by rw [Nat.add_mul, Nat.one_mul]
  have hreach : (k + 1) * page ≤ addr + size := hstop
  have hend := (le_clearBits_iff hp (Nat.dvd_mul_left page (k + 1))).2 hreach
  have halign := alignUp?_of_roundUp_le hp (v := addr) (by omega) (by omega)
  have hsum : addWord? addr size = some (addr + size) := addWord?_eq_some_iff.2 ⟨rfl, hword⟩
  unfold covering? at h
  rw [halign, hsum] at h
  dsimp only at h
  rw [if_neg (by omega)] at h
  cases h

end

/-! ## The run as a part of its block -/

/-- A run is only looked for in a block within the address space. -/
theorem le_wordMax_of_covering?_eq_some (h : covering? addr size page = some r) :
    addr + size ≤ wordMax := by
  unfold covering? at h
  split at h
  · next start reach _ hreach => exact (addWord?_eq_some_iff.1 hreach).2
  · cases h

/-- The run consists of the pages that lie wholly in the block, and of nothing else. Its length is
that of these pages, and its end is an address. -/
structure RoundsInward (r : PageRun) (addr size page : Nat) : Prop extends Whole r page where
  le_start : addr ≤ r.start
  stop_le : r.stop ≤ addr + size
  stopWord_eq : r.stopWord = .ok r.stop
  pages_eq : ∃ count, r.pages page = .ok count ∧ count * page = r.length
  holds_iff : ∀ k, r.Holds page k ↔ (⟨addr, size⟩ : PageRun).Holds page k

/-- A run of whole pages begins with a page that it holds. -/
theorem Whole.exists_first (h : r.Whole page) : ∃ k, r.Holds page k ∧ k * page = r.start := by
  obtain ⟨k, hk⟩ := h.start_dvd
  have hlength : page ≤ r.length := Nat.le_of_dvd h.length_pos h.length_dvd
  rw [Nat.mul_comm] at hk
  refine ⟨k, ⟨Nat.le_of_eq hk, ?_⟩, hk.symm⟩
  rw [Nat.add_mul, Nat.one_mul, stop]
  omega

/-- A run of whole pages ends with a page that it holds. -/
theorem Whole.exists_last (h : r.Whole page) : ∃ k, r.Holds page k ∧ (k + 1) * page = r.stop := by
  have hlength : page ≤ r.length := Nat.le_of_dvd h.length_pos h.length_dvd
  obtain ⟨q, hq⟩ : page ∣ r.stop := Nat.dvd_add h.start_dvd h.length_dvd
  have hstop : r.stop = r.start + r.length := rfl
  obtain ⟨k, rfl⟩ : ∃ k, q = k + 1 := by
    refine Nat.exists_eq_succ_of_ne_zero fun hzero => ?_
    have hpos := h.page_pos
    rw [hzero, Nat.mul_zero] at hq
    omega
  rw [Nat.mul_comm] at hq
  have hsucc : (k + 1) * page = k * page + page := by rw [Nat.add_mul, Nat.one_mul]
  exact ⟨k, ⟨by omega, Nat.le_of_eq hq.symm⟩, hq.symm⟩

theorem roundsInward_of_covering? (hp : page.isPowerOfTwo)
    (h : covering? addr size page = some r) : r.RoundsInward addr size page := by
  obtain ⟨hwhole, hholds⟩ := covering?_eq_some hp h
  have hword := le_wordMax_of_covering?_eq_some h
  -- Its first and its last page lie in the block, so everything between them does.
  obtain ⟨first, hfirst, hstart⟩ := hwhole.exists_first
  obtain ⟨last, hlast, hstop⟩ := hwhole.exists_last
  have hle : r.stop ≤ addr + size := hstop ▸ ((hholds last).1 hlast).2
  refine
    { hwhole with
      le_start := hstart ▸ ((hholds first).1 hfirst).1
      stop_le := hle
      stopWord_eq := if_pos (Nat.le_trans hle hword)
      pages_eq := ⟨r.length / page, if_neg (Nat.ne_of_gt hwhole.page_pos), ?_⟩
      holds_iff := hholds }
  exact Nat.div_mul_cancel hwhole.length_dvd

/-- Rounding inward is exact: what is found are all whole pages of the block and nothing besides,
nothing is found only where there is no whole page, and nothing is looked for in a block that leaves
the address space. -/
theorem covering_rounds_inward (hp : page.isPowerOfTwo) (addr size : Nat) :
    ∃ found, covering addr size page = .ok found ∧
      (∀ r, found = some r → r.RoundsInward addr size page) ∧
      (addr + size ≤ wordMax →
        (found = none ↔ ∀ k, ¬ (⟨addr, size⟩ : PageRun).Holds page k)) ∧
      (wordMax < addr + size → found = none) := by
  refine ⟨covering? addr size page, if_pos hp, fun r => roundsInward_of_covering? hp,
    fun hword => ⟨not_holds_of_covering?_eq_none hp hword, fun hnot => ?_⟩, fun hlt => ?_⟩
  · cases hfound : covering? addr size page with
    | none => rfl
    | some r =>
      have hinward := roundsInward_of_covering? hp hfound
      obtain ⟨first, hfirst, -⟩ := hinward.exists_first
      exact absurd ((hinward.holds_iff first).1 hfirst) (hnot first)
  · cases hfound : covering? addr size page with
    | none => rfl
    | some r =>
      have hword := le_wordMax_of_covering?_eq_some hfound
      omega

/-- Two blocks that reach up to the last address: one holds a single whole page, and the start of
the other has no multiple of the page size above it. -/
theorem covering_rounds_inward_top :
    (⟨wordMax - 8191, 4096⟩ : PageRun).RoundsInward (wordMax - 9000) 9000 4096 ∧
      covering (wordMax - 100) 100 4096 = .ok none ∧
      ∀ k, ¬ (⟨wordMax - 100, 100⟩ : PageRun).Holds 4096 k := by
  have hp : Nat.isPowerOfTwo 4096 := ⟨12, rfl⟩
  obtain ⟨found, hfound, hinward, -⟩ := covering_rounds_inward hp (wordMax - 9000) 9000
  obtain ⟨found', hfound', -, hnone, -⟩ := covering_rounds_inward hp (wordMax - 100) 100
  have hone : covering (wordMax - 9000) 9000 4096 = .ok (some ⟨wordMax - 8191, 4096⟩) := rfl
  have hno : covering (wordMax - 100) 100 4096 = .ok none := rfl
  rw [hone] at hfound
  rw [hno] at hfound'
  cases hfound
  cases hfound'
  exact ⟨hinward _ rfl, hno, (hnone (by decide)).1 rfl⟩

end PageRun

end LifetimeArena
