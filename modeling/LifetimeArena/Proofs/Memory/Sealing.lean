import LifetimeArena.Proofs.Memory.Isolation
import LifetimeArena.Proofs.Paging.Guarding

/-!
# Sealing buffers

To seal a buffer is to guard its bytes: the pages that lie wholly in the buffer become read-only,
and writable when the guard goes. A page that lies wholly in one buffer has no byte of a stranger's
buffer, so strangers keep the rights that they had, at the beginning of the guard and at its end,
and whatever else happens to the pages in between.

- `Arena.Backs.seal_eq`, `Arena.begins_sealBuffer`: sealing as the beginning of a guard.
- `Arena.seal_spares_strangers`: what sealing does to the pages.
-/

namespace LifetimeArena

namespace Arena

variable {t : BufferTree} {a : Arena} {stage : StageId} {i o : Nat}

/-- Sealing guards the bytes of the stage's buffer, or nothing if that is switched off. -/
theorem Backs.seal_eq (h : a.Backs t) (hi : t.indexOf? stage = some i) (ho : t.offset? i = some o)
    (table : PageTable) :
    a.sealBuffer stage table =
      .ok (if a.settings.protectExpired then
        Guard.engage (.system a.memory.page) (a.memory.start + o) (t.weight i) table
      else (Guard.disabled a.memory.page, { table := table })) := by
  rw [sealBuffer, h.range_eq hi ho, h.buffer_eq hi ho]
  dsimp only
  rw [h.size_buffer ho]
  split <;> rfl

/-- Whatever the arena, sealing begins a guard over whole pages or one that does nothing. -/
theorem begins_sealBuffer {page : Nat} (hp : page.isPowerOfTwo) (hpage : a.memory.page = page)
    {table : PageTable} (hsize : table.pageSize = page) {begun : Guard × Effect}
    (h : a.sealBuffer stage table = .ok begun) : Guard.Begins page table begun := by
  unfold sealBuffer at h
  split at h
  · split at h
    · cases h
      rw [hpage]
      exact Guard.begins_engage hsize hp _ _
    · cases h
      rw [hpage]
      exact Guard.begins_disabled hsize
  · cases h
  · cases h

/-- The pages that lie wholly in the buffer of one stage have no byte of a stranger. -/
theorem not_holds_of_strangers {arena : Nat} (hlaid : t.LaidOut arena) {other : StageId}
    (hstrangers : t.Strangers stage other) (hi : t.indexOf? stage = some i)
    (ho : t.offset? i = some o) {j x : Nat} (hj : t.indexOf? other = some j) (hx : t.Covers j x)
    {page start : Nat} (hpos : 0 < page) :
    ¬ (⟨start + o, t.weight i⟩ : PageRun).Holds page ((start + x) / page) := by
  intro hholds
  obtain ⟨hle, hlt⟩ := hholds.mem hpos
  have hstop : start + x < start + o + t.weight i := hlt
  have hstart : start + o ≤ start + x := hle
  have hcovers : t.Covers i x := ⟨o, ho, by omega, by omega⟩
  exact hlaid.not_covers_of_strangers hstrangers hi hj hcovers hx

/-- Sealing the buffer of a stage makes the pages that lie wholly in it read-only, and the end of
the guard, whenever it comes, makes them writable. No other page changes either time, so the bytes
of strangers stay as writable as they were. -/
theorem seal_spares_strangers (hreach : Solver.Reachable t) {page start : Nat}
    {settings : Settings} {grants : Nat → Bool} {made : Arena}
    (hmade : MadeFor t page start settings grants made) {writes : List Write}
    (hwritten : made.writeAll writes = .ok a) (hp : page.isPowerOfTwo)
    (hword : start + a.memory.capacity ≤ wordMax) (hon : settings.protectExpired = true)
    (hi : t.indexOf? stage = some i) {before : PageTable} (hbefore : before.pageSize = page) :
    ∃ o begun, t.offset? i = some o ∧ a.sealBuffer stage before = .ok begun ∧
      (∀ k, begun.2.table.readOnly k = true ↔
        (⟨start + o, t.weight i⟩ : PageRun).Holds page k ∨ before.readOnly k = true) ∧
      (∀ x, begun.2.table.writable (start + x) = true ↔
        ¬ (⟨start + o, t.weight i⟩ : PageRun).Holds page ((start + x) / page) ∧
          before.writable (start + x) = true) ∧
      (∀ later : PageTable, later.pageSize = page → ∀ k,
        (begun.1.drop later).table.readOnly k = true ↔
          ¬ (⟨start + o, t.weight i⟩ : PageRun).Holds page k ∧ later.readOnly k = true) ∧
      ∀ other j x, t.Strangers stage other → t.indexOf? other = some j → t.Covers j x →
        begun.2.table.writable (start + x) = before.writable (start + x) ∧
        ∀ later : PageTable, later.pageSize = page →
          (begun.1.drop later).table.writable (start + x) = later.writable (start + x) := by
  obtain ⟨bytes, rfl, hsize⟩ := exists_of_writeAll hwritten
  have hback := (hmade.backs hreach).withBytes hsize
  have hfresh := hmade.fresh
  have hplace : (made.withBytes bytes).memory.page = page ∧
      (made.withBytes bytes).memory.start = start := ⟨hfresh.page, hfresh.start⟩
  have hsettings : (made.withBytes bytes).settings = settings := hfresh.settings
  obtain ⟨o, ho⟩ := hback.exists_offset hi
  have hseal := hback.seal_eq hi ho before
  rw [hsettings, if_pos hon, hplace.1, hplace.2] at hseal
  -- The block lies in memory, so the guard covers the pages that lie wholly in it.
  have hblock : start + o + t.weight i ≤ wordMax := by
    have hstop := hback.stop_le ho
    have hcapacity : made.size ≤ (made.withBytes bytes).memory.capacity := hfresh.capacity
    rw [hback.length] at hstop
    have hsame : (made.withBytes bytes).size = made.size := rfl
    omega
  have hcovers : ∀ k,
      (Guard.engage (.system page) (start + o) (t.weight i) before).1.Covers page k ↔
        (⟨start + o, t.weight i⟩ : PageRun).Holds page k :=
    fun k => Guard.covers_engage_iff hp hblock
  have hbegins := Guard.begins_engage hbefore hp (start + o) (t.weight i)
  have hends := fun {later : PageTable} (hlater : later.pageSize = page) =>
    hbegins.guard.ends_drop hlater
  refine ⟨o, _, ho, hseal, fun k => ?_, fun x => ?_, fun later hlater k => ?_,
    fun other j x hstrangers hj hx => ?_⟩
  · rw [hbegins.readOnly_iff, hcovers]
  · rw [hbegins.writable_iff hbefore, hcovers]
  · rw [(hends hlater).readOnly_iff, hcovers]
  · have hfree : ¬ (⟨start + o, t.weight i⟩ : PageRun).Holds page ((start + x) / page) :=
      not_holds_of_strangers hback.laidOut hstrangers hi ho hj hx (Nat.pos_of_isPowerOfTwo hp)
    have hmiss := mt (hcovers _).1 hfree
    refine ⟨Bool.eq_iff_iff.2 ?_, fun later hlater => Bool.eq_iff_iff.2 ?_⟩
    · rw [hbegins.writable_iff hbefore, and_iff_right hmiss]
    · rw [(hends hlater).writable_iff hlater, or_iff_right hmiss]

/-- In the layout of a root with two children, written to before, sealing the first child takes the
page of its four bytes and leaves the bytes of the second child writable. -/
theorem seal_spares_strangers_star :
    ∃ t made a begun, Solver.Reachable t ∧ MadeFor t 4 64 {} systemGrants made ∧
      made.writeAll [⟨.ofNat 2, 0, [5]⟩] = .ok a ∧
      a.sealBuffer (.ofNat 1) (.fresh 4) = .ok begun ∧ begun.2.table.readOnly 16 = true ∧
      begun.2.table.writable (64 + 5) = true := by
  obtain ⟨t, made, hreach, hmade, hcapacity, hi, ho, hw, hj, hfits, hx, hstrangers⟩ :
      ∃ t made, Solver.Reachable t ∧ MadeFor t 4 64 {} systemGrants made ∧
        made.memory.capacity = 8 ∧ t.indexOf? (.ofNat 1) = some 1 ∧ t.offset? 1 = some 0 ∧
        t.weight 1 = 4 ∧ t.indexOf? (.ofNat 2) = some 2 ∧ 0 + 1 ≤ t.weight 2 ∧ t.Covers 2 5 ∧
        t.Strangers (.ofNat 1) (.ofNat 2) :=
    ⟨_, _, ⟨Sample.star 2 4, _, [Solver.standard], rfl, rfl⟩, .inl rfl, rfl, rfl, rfl, rfl, rfl,
      by decide, ⟨4, rfl, by decide, by decide⟩, 1, 2, rfl, rfl, by decide⟩
  obtain ⟨a, hwritten, -⟩ := writeAll_puts (hmade.backs hreach)
    (List.forall_mem_singleton.2 (⟨2, hj, hfits⟩ : Write.Fits t ⟨.ofNat 2, 0, [5]⟩))
  have hword : 64 + a.memory.capacity ≤ wordMax := by
    obtain ⟨bytes, rfl, -⟩ := exists_of_writeAll hwritten
    show 64 + made.memory.capacity ≤ wordMax
    rw [hcapacity]
    decide
  obtain ⟨o, begun, ho', hseal, hlocked, -, -, hspared⟩ :=
    seal_spares_strangers hreach hmade hwritten ⟨2, rfl⟩ hword rfl hi
      (show (PageTable.fresh 4).pageSize = 4 from rfl)
  rw [ho] at ho'
  cases ho'
  have hpage := (hlocked 16).2 (.inl (by rw [hw]; decide))
  have hfree := (hspared _ 2 5 hstrangers hj hx).1
  exact ⟨t, made, a, begun, hreach, hmade, hwritten, hseal, hpage, hfree⟩

/-- There are arenas with a buffer of exactly one page. -/
theorem exists_page_buffer :
    ∃ t a, Solver.Reachable t ∧ MadeFor t systemPageSize (16 * systemPageSize) {} systemGrants a ∧
      ∀ table, a.sealBuffer (.ofNat 0) table =
        .ok (Guard.engage (.system systemPageSize) (16 * systemPageSize) systemPageSize table) := by
  obtain ⟨t, layout, hreach, hlayout, hsize, hi, ho, hweight⟩ :
      ∃ t layout, Solver.Reachable t ∧ Layout.ofTree t = .ok layout ∧
        layout.arenaSize = systemPageSize ∧ t.indexOf? (.ofNat 0) = some 0 ∧
        t.offset? 0 = some 0 ∧ t.weight 0 = systemPageSize :=
    ⟨_, _, ⟨Sample.chain 1 systemPageSize, _, [Solver.standard], rfl, rfl⟩, rfl, rfl, rfl, rfl,
      rfl⟩
  obtain ⟨memory, hmemory⟩ :
      ∃ m, Region.allocate systemPageSize (16 * systemPageSize) layout.arenaSize = .ok m := by
    rw [hsize]
    exact ⟨_, rfl⟩
  have hmade :
      MadeFor t systemPageSize (16 * systemPageSize) {} systemGrants ⟨layout, memory, {}⟩ :=
    .inr ⟨layout, hlayout, by rw [ofLayout, hmemory]⟩
  refine ⟨t, _, hreach, hmade, fun table => ?_⟩
  have hseal := (hmade.backs hreach).seal_eq hi ho table
  rw [hmade.fresh.page, hmade.fresh.start, hweight] at hseal
  exact hseal

end Arena

end LifetimeArena
