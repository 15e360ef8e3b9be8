import LifetimeArena.Proofs.Memory.Arena
import LifetimeArena.Sample.Families

/-!
# Isolation of buffers

All buffers of an arena live in one memory, and related ones share bytes of it on purpose. What a
run of writes leaves behind is told byte by byte: the last write that hit a byte decides, through
whatever stage it came (`Arena.writeAll_puts`). In a correct layout writes through the buffers of
strangers hit different bytes. So neither can change what the other sees, and their order does not
matter.

- `Arena.Write`, `Arena.writeAll`: writes into the buffers of stages, one after the other.
- `Arena.Write.byteAt?`, `Arena.lastByte?`: what one write and a run of writes put at a byte.
- `Arena.Puts`: the effect of a run on the memory of an arena.
- `Arena.buffers_isolated`: what buffers hold after any run of writes.
-/

namespace LifetimeArena

namespace Arena

/-- A write into the buffer of a stage, from byte `pos` of the buffer on. -/
structure Write where
  stage : StageId
  pos : Nat
  data : List UInt8

/-- The write stays within the buffer of a stage of the tree. -/
def Write.Fits (t : BufferTree) (w : Write) : Prop :=
  ∃ i, t.indexOf? w.stage = some i ∧ w.pos + w.data.length ≤ t.weight i

/-- The byte that the write puts at byte `x` of the arena. -/
def Write.byteAt? (t : BufferTree) (w : Write) (x : Nat) : Option UInt8 :=
  ((t.indexOf? w.stage).bind t.offset?).bind fun o => Region.byteAt? (o + w.pos) w.data x

/-- The byte that the last write to hit byte `x` of the arena put there. -/
def lastByte? (t : BufferTree) (writes : List Write) (x : Nat) : Option UInt8 :=
  writes.reverse.findSome? (·.byteAt? t x)

/-- Carries out writes one after the other. -/
def writeAll (a : Arena) (writes : List Write) : Except Failure Arena :=
  writes.foldlM (fun a w => a.write w.stage w.pos w.data) a

/-- From `a` to `a'` the memory gets the bytes that `f` lists. Everything else stays. -/
structure Puts (f : Nat → Option UInt8) (a a' : Arena) : Prop where
  frame : a' = a.withBytes a'.memory.bytes
  length : a'.memory.length = a.memory.length
  bytes : ∀ x, a'.memory.bytes[x]? = (f x).or a.memory.bytes[x]?

variable {t : BufferTree} {a a' a'' : Arena}

/-! ## The bytes of writes -/

theorem lastByte?_append (t : BufferTree) (ws ws' : List Write) (x : Nat) :
    lastByte? t (ws ++ ws') x = (lastByte? t ws' x).or (lastByte? t ws x) := by
  rw [lastByte?, List.reverse_append, List.findSome?_append]
  rfl

theorem lastByte?_eq_none {ws : List Write} {x : Nat} (h : ∀ w ∈ ws, w.byteAt? t x = none) :
    lastByte? t ws x = none := by
  refine List.findSome?_eq_none_iff.2 fun w hw => ?_
  exact h w (List.mem_reverse.1 hw)

theorem exists_of_lastByte? {ws : List Write} {x : Nat} {b : UInt8}
    (h : lastByte? t ws x = some b) : ∃ w ∈ ws, w.byteAt? t x = some b := by
  obtain ⟨w, hw, hb⟩ := List.exists_of_findSome?_eq_some h
  exact ⟨w, List.mem_reverse.1 hw, hb⟩

/-- A write that fits hits bytes of its own stage's buffer only. -/
theorem Write.Fits.covers {w : Write} (hw : w.Fits t) {x : Nat} {b : UInt8}
    (h : w.byteAt? t x = some b) : ∃ i, t.indexOf? w.stage = some i ∧ t.Covers i x := by
  obtain ⟨i, hi, hfits⟩ := hw
  unfold byteAt? at h
  rw [hi, Option.bind_some] at h
  obtain ⟨o, ho, hbyte⟩ := Option.bind_eq_some_iff.1 h
  have hwithin := Region.within_of_byteAt? hbyte
  exact ⟨i, hi, o, ho, by omega, by omega⟩

/-- A write hits no byte of a stranger's buffer. -/
theorem Write.Fits.byteAt?_eq_none {arena : Nat} (hlaid : t.LaidOut arena) {w : Write}
    (hw : w.Fits t) {stage : StageId} (hstrangers : t.Strangers w.stage stage) {j x : Nat}
    (hj : t.indexOf? stage = some j) (hx : t.Covers j x) : w.byteAt? t x = none := by
  cases hbyte : w.byteAt? t x with
  | none => rfl
  | some b =>
    obtain ⟨i, hi, hcovers⟩ := hw.covers hbyte
    exact absurd hx (hlaid.not_covers_of_strangers hstrangers hi hj hcovers)

/-! ## The effect of a run -/

namespace Puts

variable {f g : Nat → Option UInt8}

theorem refl (a : Arena) : Puts (fun _ => none) a a where
  frame := rfl
  length := rfl
  bytes := fun _ => rfl

theorem trans (h : Puts f a a') (h' : Puts g a' a'') :
    Puts (fun x => (g x).or (f x)) a a'' where
  frame := by
    rw [h'.frame, h.frame]
    rfl
  length := h'.length.trans h.length
  bytes := fun x => by rw [h'.bytes, h.bytes, Option.or_assoc]

/-- The bytes that are put decide the arena afterwards. -/
theorem unique (h : Puts f a a') (h' : Puts g a a'') (heq : ∀ x, f x = g x) : a' = a'' := by
  have hbytes : a'.memory.bytes = a''.memory.bytes := by
    refine Array.ext_getElem? fun x => ?_
    rw [h.bytes, h'.bytes, heq]
  rw [h.frame, h'.frame, hbytes]

theorem backs (h : Puts f a a') (hback : a.Backs t) : a'.Backs t := by
  rw [h.frame]
  exact hback.withBytes h.length

/-- A buffer none of whose bytes is hit stays as it was. -/
theorem buffer_eq (h : Puts f a a') (hback : a.Backs t) {stage : StageId} {i : Nat}
    (hi : t.indexOf? stage = some i) (hmiss : ∀ x, t.Covers i x → f x = none) :
    a'.buffer stage = a.buffer stage := by
  obtain ⟨o, ho⟩ := hback.exists_offset hi
  have hback' := h.backs hback
  rw [hback'.buffer_eq hi ho, hback.buffer_eq hi ho]
  refine congrArg Except.ok (Array.ext_getElem? fun j => ?_)
  rw [hback'.getElem?_buffer ho, hback.getElem?_buffer ho]
  by_cases hj : j < t.weight i
  · have hx : t.Covers i (o + j) := ⟨o, ho, by omega, by omega⟩
    rw [if_pos hj, if_pos hj, h.bytes, hmiss _ hx, Option.none_or]
  · rw [if_neg hj, if_neg hj]

end Puts

/-- A write that is carried out changes bytes of memory and nothing else. -/
theorem exists_of_write {stage : StageId} {pos : Nat} {data : List UInt8}
    (h : a.write stage pos data = .ok a') :
    ∃ bytes, a' = a.withBytes bytes ∧ bytes.size = a.memory.bytes.size := by
  unfold write at h
  split at h
  · split at h
    · split at h
      · next memory hmemory =>
        cases h
        unfold Region.write at hmemory
        split at hmemory
        · cases hmemory
        · cases hmemory
          exact ⟨_, rfl, Region.size_store _ _ _⟩
      · cases h
    · cases h
  · cases h
  · cases h

theorem exists_of_writeAll {writes : List Write} (h : a.writeAll writes = .ok a') :
    ∃ bytes, a' = a.withBytes bytes ∧ bytes.size = a.memory.bytes.size := by
  induction writes generalizing a with
  | nil =>
    cases h
    exact ⟨_, rfl, rfl⟩
  | cons w rest ih =>
    have hsteps : a.write w.stage w.pos w.data >>= (·.writeAll rest) = .ok a' := h
    cases hwrite : a.write w.stage w.pos w.data with
    | error e =>
      rw [hwrite] at hsteps
      cases hsteps
    | ok a₁ =>
      rw [hwrite] at hsteps
      obtain ⟨bytes, rfl, hsize⟩ := exists_of_write hwrite
      obtain ⟨bytes', rfl, hsize'⟩ := ih hsteps
      exact ⟨bytes', rfl, hsize'.trans hsize⟩

/-- A write that fits is carried out and puts its bytes. -/
theorem write_puts (h : a.Backs t) {w : Write} (hw : w.Fits t) :
    ∃ a', a.write w.stage w.pos w.data = .ok a' ∧ Puts (w.byteAt? t) a a' := by
  obtain ⟨i, hi, hfits⟩ := hw
  obtain ⟨o, ho⟩ := h.exists_offset hi
  refine ⟨_, h.write_eq hi ho hfits, rfl, Region.size_store _ _ _, fun x => ?_⟩
  have hle : o + w.pos + w.data.length ≤ a.memory.bytes.size := by
    have hstop := h.stop_le ho
    unfold Region.length at hstop
    omega
  have hbyte : w.byteAt? t x = Region.byteAt? (o + w.pos) w.data x := by
    rw [Write.byteAt?, hi, Option.bind_some, ho, Option.bind_some]
  rw [hbyte]
  exact Region.getElem?_store hle x

/-- Writes that fit are carried out, and the last one to hit a byte decides. -/
theorem writeAll_puts (h : a.Backs t) {writes : List Write} (hfits : ∀ w ∈ writes, w.Fits t) :
    ∃ a', a.writeAll writes = .ok a' ∧ Puts (lastByte? t writes) a a' := by
  induction writes generalizing a with
  | nil => exact ⟨a, rfl, Puts.refl a⟩
  | cons w rest ih =>
    obtain ⟨a₁, hwrite, hputs⟩ := write_puts h (hfits w (List.mem_cons_self ..))
    obtain ⟨a₂, hrest, hputs'⟩ :=
      ih (hputs.backs h) fun w' hw' => hfits w' (List.mem_cons_of_mem w hw')
    refine ⟨a₂, ?_, ?_⟩
    · show a.write w.stage w.pos w.data >>= (·.writeAll rest) = .ok a₂
      rw [hwrite]
      exact hrest
    · have hlast : lastByte? t (w :: rest) =
          fun x => (lastByte? t rest x).or (w.byteAt? t x) := by
        funext x
        have happend := lastByte?_append t [w] rest x
        rwa [show lastByte? t [w] x = w.byteAt? t x by simp [lastByte?]] at happend
      rw [hlast]
      exact hputs.trans hputs'

/-! ## Isolation -/

/-- Writes through strangers are carried out in either order, with the same outcome. -/
theorem writeAll_comm (h : a.Backs t) {ws ws' : List Write} (hws : ∀ w ∈ ws, w.Fits t)
    (hws' : ∀ w ∈ ws', w.Fits t)
    (hstrangers : ∀ w ∈ ws, ∀ w' ∈ ws', t.Strangers w.stage w'.stage) :
    ∃ a', a.writeAll (ws ++ ws') = .ok a' ∧ a.writeAll (ws' ++ ws) = .ok a' := by
  have hfits : ∀ w ∈ ws ++ ws', w.Fits t := fun w hw =>
    (List.mem_append.1 hw).elim (hws w) (hws' w)
  have hfits' : ∀ w ∈ ws' ++ ws, w.Fits t := fun w hw =>
    (List.mem_append.1 hw).elim (hws' w) (hws w)
  obtain ⟨a₁, hrun, hputs⟩ := writeAll_puts h hfits
  obtain ⟨a₂, hrun', hputs'⟩ := writeAll_puts h hfits'
  refine ⟨a₁, hrun, ?_⟩
  rw [hrun', hputs'.unique hputs fun x => ?_]
  rw [lastByte?_append, lastByte?_append]
  -- No byte is hit from both sides.
  cases hlast : lastByte? t ws x with
  | none => rw [Option.or_none, Option.none_or]
  | some b =>
    obtain ⟨w, hw, hbyte⟩ := exists_of_lastByte? hlast
    obtain ⟨i, hi, hcovers⟩ := (hws w hw).covers hbyte
    have hmiss : lastByte? t ws' x = none := lastByte?_eq_none fun w' hw' =>
      (hws' w' hw').byteAt?_eq_none h.laidOut (hstrangers w hw w' hw').symm hi hcovers
    rw [hmiss, Option.or_none, Option.none_or]

/-- A fresh arena is zero wherever no write has hit. -/
theorem Fresh.getElem?_bytes {page start : Nat} {settings : Settings}
    (h : a.Fresh page start settings) {f : Nat → Option UInt8} (hputs : Puts f a a') {x : Nat}
    (hx : x < a.size) : a'.memory.bytes[x]? = some ((f x).getD 0) := by
  rw [hputs.bytes, h.bytes, Array.getElem?_replicate, if_pos hx]
  cases f x with
  | none => rfl
  | some b => rfl

/-- After any run of writes that stay within the buffers of their stages, the buffer of every stage
of the layout can be had, has the size of the stage, and holds at each byte what the last write to
hit it put there, or zero. Further writes change no buffer of a stranger, and of writes through
strangers the order does not matter. -/
theorem buffers_isolated (hreach : Solver.Reachable t) {page start : Nat} {settings : Settings}
    {grants : Nat → Bool} (hmade : MadeFor t page start settings grants a) {writes : List Write}
    (hfits : ∀ w ∈ writes, w.Fits t) :
    (∀ stage, (a.layout.get? stage).map (·.node) = t.indexOf? stage) ∧
    ∃ a', a.writeAll writes = .ok a' ∧
      (∀ stage i, t.indexOf? stage = some i →
        (∃ o bytes, t.offset? i = some o ∧ a'.buffer stage = .ok bytes ∧
          bytes.size = t.weight i ∧
          ∀ j, j < t.weight i → bytes[j]? = some ((lastByte? t writes (o + j)).getD 0)) ∧
        ∀ ws, (∀ w ∈ ws, w.Fits t ∧ t.Strangers w.stage stage) →
          ∃ a'', a'.writeAll ws = .ok a'' ∧ a''.buffer stage = a'.buffer stage) ∧
      ∀ ws ws', (∀ w ∈ ws, w.Fits t) → (∀ w ∈ ws', w.Fits t) →
        (∀ w ∈ ws, ∀ w' ∈ ws', t.Strangers w.stage w'.stage) →
        ∃ a'', a'.writeAll (ws ++ ws') = .ok a'' ∧ a'.writeAll (ws' ++ ws) = .ok a'' := by
  have hback := hmade.backs hreach
  obtain ⟨a', hrun, hputs⟩ := writeAll_puts hback hfits
  have hback' := hputs.backs hback
  refine ⟨hback.node?_eq, a', hrun, fun stage i hi => ⟨?_, fun ws hws => ?_⟩,
    fun ws ws' => writeAll_comm hback'⟩
  · obtain ⟨o, ho⟩ := hback.exists_offset hi
    refine ⟨o, _, ho, hback'.buffer_eq hi ho, hback'.size_buffer ho, fun j hj => ?_⟩
    have hstop := hback.stop_le ho
    rw [hback.length] at hstop
    rw [hback'.getElem?_buffer ho, if_pos hj]
    exact hmade.fresh.getElem?_bytes hputs (by omega)
  · obtain ⟨a'', hrun', hputs'⟩ := writeAll_puts hback' fun w hw => (hws w hw).1
    refine ⟨a'', hrun', hputs'.buffer_eq hback' hi fun x hx => ?_⟩
    refine lastByte?_eq_none fun w hw => ?_
    exact (hws w hw).1.byteAt?_eq_none hback.laidOut (hws w hw).2 hi hx

/-- In the layout of a root with two children the root shares the bytes of the first child, so of
two writes at the same byte through both the later one counts. -/
theorem buffers_isolated_star :
    ∃ t a, Solver.Reachable t ∧ MadeFor t 4 64 {} systemGrants a ∧
      ∃ a' bytes, a.writeAll [⟨.ofNat 1, 1, [7]⟩, ⟨.ofNat 0, 1, [9]⟩] = .ok a' ∧
        a'.buffer (.ofNat 1) = .ok bytes ∧ bytes.size = 4 ∧ bytes[1]? = some 9 := by
  obtain ⟨t, a, hreach, hmade, hfits, hi, hw, ho, hlast⟩ :
      ∃ t a, Solver.Reachable t ∧ MadeFor t 4 64 {} systemGrants a ∧
        (∀ w ∈ ([⟨.ofNat 1, 1, [7]⟩, ⟨.ofNat 0, 1, [9]⟩] : List Write), w.Fits t) ∧
        t.indexOf? (.ofNat 1) = some 1 ∧ t.weight 1 = 4 ∧ t.offset? 1 = some 0 ∧
        lastByte? t [⟨.ofNat 1, 1, [7]⟩, ⟨.ofNat 0, 1, [9]⟩] 1 = some 9 := by
    refine ⟨_, _, ⟨Sample.star 2 4, _, [Solver.standard], rfl, rfl⟩, .inl rfl, ?_, rfl, rfl, rfl,
      rfl⟩
    intro w hw
    rcases List.mem_cons.1 hw with rfl | hw
    · exact ⟨1, rfl, by decide⟩
    · rcases List.mem_singleton.1 hw with rfl
      exact ⟨0, rfl, by decide⟩
  obtain ⟨-, a', hrun, hbuffers, -⟩ := buffers_isolated hreach hmade hfits
  obtain ⟨⟨o, bytes, ho', hbuffer, hsize, hbytes⟩, -⟩ := hbuffers _ 1 hi
  rw [ho] at ho'
  cases ho'
  have hbyte := hbytes 1 (by omega)
  rw [Nat.zero_add, hlast] at hbyte
  exact ⟨t, a, hreach, hmade, a', bytes, hrun, hbuffer, hsize.trans hw, hbyte⟩

end Arena

end LifetimeArena
