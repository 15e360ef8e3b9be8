import LifetimeArena.Memory.Arena
import LifetimeArena.Proofs.Memory.Region
import LifetimeArena.Proofs.Placement.Layout

/-!
# Arenas of solved trees

An arena is made for a tree, from the tree itself or from its layout. Either way it has the layout
of a correct tree and a usable byte for every byte of that layout (`Arena.Backs`), so looking at the
buffer of a stage and writing into it never go wrong.

- `BufferTree.Strangers`: two stages of which neither was derived from the other.
- `Arena.MadeFor`: how arenas are made.
- `Arena.exists_madeFor_iff`: when one can be made.
- `Arena.Backs`: what every arena has that was made for a tree, and keeps while it is written to.
- `Arena.Backs.buffer_eq`, `Arena.Backs.write_eq`: access to the buffer of a stage.
-/

namespace LifetimeArena

namespace BufferTree

/-- Two stages of a tree whose buffers are different and not derived from each other. -/
def Strangers (t : BufferTree) (s u : StageId) : Prop :=
  ∃ i j, t.indexOf? s = some i ∧ t.indexOf? u = some j ∧ ¬ t.Related i j

variable {t : BufferTree}

theorem Strangers.symm {s u : StageId} (h : t.Strangers s u) : t.Strangers u s := by
  obtain ⟨i, j, hi, hj, hunrelated⟩ := h
  exact ⟨j, i, hj, hi, fun hrelated => hunrelated hrelated.symm⟩

/-- In a correct layout strangers have no byte in common. -/
theorem LaidOut.not_covers_of_strangers {arena : Nat} (h : t.LaidOut arena) {s u : StageId}
    (hstrangers : t.Strangers s u) {i j x : Nat} (hi : t.indexOf? s = some i)
    (hj : t.indexOf? u = some j) (hx : t.Covers i x) : ¬ t.Covers j x := by
  obtain ⟨i', j', hi', hj', hunrelated⟩ := hstrangers
  rw [hi] at hi'
  rw [hj] at hj'
  cases hi'
  cases hj'
  intro hx'
  exact h.apart i j x hx.lt_size hx'.lt_size hunrelated ⟨hx, hx'⟩

end BufferTree

namespace Arena

/-! ## Making arenas -/

/-- The arena was made for the tree: from the tree, or from the layout taken from it. The memory
comes from an allocator that grants some capacities, whichever they are. -/
def MadeFor (t : BufferTree) (page start : Nat) (settings : Settings) (grants : Nat → Bool)
    (a : Arena) : Prop :=
  ofTree page start t settings grants = .ok a ∨
    ∃ layout, Layout.ofTree t = .ok layout ∧ ofLayout page start layout settings grants = .ok a

/-- The arena has the layout of a correct tree and a usable byte for every byte of it. -/
structure Backs (a : Arena) (t : BufferTree) : Prop where
  linked : t.Linked
  laidOut : t.LaidOut a.size
  layout : a.layout = .mirror t a.size
  length : a.memory.length = a.size

/-- Nothing has happened to the arena yet. -/
structure Fresh (a : Arena) (page start : Nat) (settings : Settings) : Prop where
  page : a.memory.page = page
  start : a.memory.start = start
  bytes : a.memory.bytes = Array.replicate a.size 0
  capacity : a.size ≤ a.memory.capacity
  settings : a.settings = settings

variable {t : BufferTree} {page start : Nat} {settings : Settings} {grants : Nat → Bool} {a : Arena}

theorem fresh_of_ofLayout {layout : Layout}
    (h : ofLayout page start layout settings grants = .ok a) :
    a.layout = layout ∧ a.Fresh page start settings := by
  unfold ofLayout at h
  split at h
  · next memory hmemory =>
    cases h
    obtain ⟨hpage, hstart, hbytes, hcapacity⟩ := Region.allocate_ok hmemory
    exact ⟨rfl, hpage, hstart, hbytes, hcapacity, rfl⟩
  · cases h

/-- Both ways go through the layout. -/
theorem MadeFor.exists_layout (h : MadeFor t page start settings grants a) :
    ∃ layout, Layout.ofTree t = .ok layout ∧
      ofLayout page start layout settings grants = .ok a := by
  rcases h with h | h
  · unfold ofTree at h
    split at h
    · next layout hlayout => exact ⟨layout, hlayout, h⟩
    · cases h
  · exact h

theorem MadeFor.fresh (h : MadeFor t page start settings grants a) :
    a.Fresh page start settings := by
  obtain ⟨layout, -, hmake⟩ := h.exists_layout
  exact (fresh_of_ofLayout hmake).2

theorem MadeFor.backs (h : MadeFor t page start settings grants a) (hreach : Solver.Reachable t) :
    a.Backs t := by
  obtain ⟨layout, hlayout, hmake⟩ := h.exists_layout
  obtain ⟨arena, hlaid, rfl⟩ := Layout.ofTree_ok hreach hlayout
  obtain ⟨hsame, hfresh⟩ := fresh_of_ofLayout hmake
  have hsize : a.size = arena := by
    show a.layout.arenaSize = arena
    rw [hsame]
    rfl
  refine ⟨hreach.wellFormed.toLinked, hsize ▸ hlaid, hsize ▸ hsame, ?_⟩
  rw [Region.length, hfresh.bytes, Array.size_replicate]

/-- There is an arena for a tree exactly if the tree has a correct layout and there is memory for
it. -/
theorem exists_madeFor_iff (hreach : Solver.Reachable t) (hp : page.isPowerOfTwo) :
    (∃ a, MadeFor t page start settings grants a) ↔
      ∃ arena, t.LaidOut arena ∧ roundUp page (max arena 1) ≤ Region.largestRequest page ∧
        grants (roundUp page (max arena 1)) = true := by
  constructor
  · rintro ⟨a, h⟩
    obtain ⟨layout, hlayout, hmake⟩ := h.exists_layout
    obtain ⟨arena, hlaid, rfl⟩ := Layout.ofTree_ok hreach hlayout
    unfold ofLayout at hmake
    split at hmake
    · next memory hmemory =>
      exact ⟨arena, hlaid, (Region.exists_allocate_iff hp).1 ⟨memory, hmemory⟩⟩
    · cases hmake
  · rintro ⟨arena, hlaid, hroom⟩
    have hcheck := BufferTree.LaidOut.check_eq_ok hreach.wellFormed hlaid
    have hlayout := Layout.ofTree_of_laidOut hreach.nodup_names hlaid hcheck
    obtain ⟨memory, hmemory⟩ :
        ∃ m, Region.allocate page start (Layout.mirror t arena).arenaSize grants = .ok m :=
      (Region.exists_allocate_iff hp).2 hroom
    refine ⟨⟨.mirror t arena, memory, settings⟩, .inr ⟨_, hlayout, ?_⟩⟩
    rw [ofLayout, hmemory]

/-! ## Access to buffers -/

/-- The arena with other bytes in its memory. -/
def withBytes (a : Arena) (bytes : Array UInt8) : Arena :=
  { a with memory := { a.memory with bytes := bytes } }

namespace Backs

variable {stage : StageId} {i o : Nat}

/-- The stages of the layout are those of the tree. -/
theorem node?_eq (h : a.Backs t) (stage : StageId) :
    (a.layout.get? stage).map (·.node) = t.indexOf? stage := by
  rw [h.layout, Layout.node?_mirror h.linked]

theorem exists_offset (h : a.Backs t) (hi : t.indexOf? stage = some i) :
    ∃ o, t.offset? i = some o := by
  obtain ⟨o, ho, -⟩ := h.laidOut.placed i (h.linked.lt_size_of_indexOf? hi)
  exact ⟨o, ho⟩

/-- Writing bytes takes none away. -/
theorem withBytes (h : a.Backs t) {bytes : Array UInt8}
    (hsize : bytes.size = a.memory.bytes.size) : (a.withBytes bytes).Backs t where
  linked := h.linked
  laidOut := h.laidOut
  layout := h.layout
  length := hsize.trans h.length

theorem stop_le (h : a.Backs t) (ho : t.offset? i = some o) :
    o + t.weight i ≤ a.memory.length := by
  rw [h.length]
  exact h.laidOut.highest.2 ⟨i, o, ho, rfl⟩

theorem size_buffer (h : a.Backs t) (ho : t.offset? i = some o) :
    (a.memory.bytes.extract o (o + t.weight i)).size = t.weight i := by
  have hle : o + t.weight i ≤ a.memory.bytes.size := h.stop_le ho
  rw [Array.size_extract, Nat.min_eq_left hle, Nat.add_sub_cancel_left]

theorem getElem?_buffer (h : a.Backs t) (ho : t.offset? i = some o) (j : Nat) :
    (a.memory.bytes.extract o (o + t.weight i))[j]? =
      if j < t.weight i then a.memory.bytes[o + j]? else none := by
  have hle : o + t.weight i ≤ a.memory.bytes.size := h.stop_le ho
  rw [Array.getElem?_extract, Nat.min_eq_left hle, Nat.add_sub_cancel_left]

section

variable (h : a.Backs t) (hi : t.indexOf? stage = some i) (ho : t.offset? i = some o)
include h hi ho

theorem range_eq : a.range stage = .ok ⟨o, o + t.weight i⟩ := by
  have hrange : a.layout.range? stage = some ⟨o, o + t.weight i⟩ := by
    rw [h.layout, Layout.range?_mirror h.linked, hi, Option.map_some, BufferTree.occupiedAt, ho]
    rfl
  rw [range, hrange]

/-- The buffer of a stage has its place in memory. -/
theorem buffer_eq : a.buffer stage = .ok (a.memory.bytes.extract o (o + t.weight i)) := by
  rw [buffer, h.range_eq hi ho]
  dsimp only
  have hread := Region.read_of_le (show Interval.stop ⟨o, o + t.weight i⟩ ≤ _ from h.stop_le ho)
  rw [hread]

/-- What fits into the buffer of a stage can be written there. -/
theorem write_eq {pos : Nat} {data : List UInt8} (hfits : pos + data.length ≤ t.weight i) :
    a.write stage pos data =
      .ok (a.withBytes (Region.store a.memory.bytes (o + pos) data)) := by
  have hle := h.stop_le ho
  have hlength : o + pos + data.length ≤ a.memory.length := by omega
  have hsize := h.size_buffer ho
  rw [write, h.range_eq hi ho, h.buffer_eq hi ho]
  dsimp only
  rw [hsize, if_pos hfits, Region.write_of_le hlength]
  rfl

end

end Backs

end Arena

end LifetimeArena
