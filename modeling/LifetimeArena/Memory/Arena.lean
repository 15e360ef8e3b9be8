import LifetimeArena.Memory.Region
import LifetimeArena.Paging.Guard
import LifetimeArena.Placement.Layout

/-!
# Arenas

An `Arena` is a region of memory that holds every buffer of a layout. Buffers are looked up by
stage. A buffer that is done can be *sealed*: its whole pages stay read-only as long as the guard
lives. Solving with a page-sized alignment lets sealed buffers be covered exactly; otherwise only
the whole pages inside each buffer are.

- `Arena.ofLayout`, `Arena.ofTree`: memory for a layout.
- `Arena.buffer`, `Arena.write`, `Arena.fill`: the bytes of one stage.
- `Arena.sealBuffer`: a guard over the buffer of a stage.
-/

namespace LifetimeArena

/-- Why an arena did not do what was asked. -/
inductive ArenaError where
  /-- The tree has no sound layout. -/
  | unsolved (violation : Violation)
  /-- The stage has no buffer in the layout. -/
  | unknownStage (stage : StageId)
  /-- There is no memory for the layout. -/
  | allocation (bytes : Nat)
deriving DecidableEq, Repr

/-- The wording of each cause. -/
def ArenaError.message : ArenaError → String
  | .unsolved violation => s!"no valid layout: {violation}"
  | .unknownStage stage => s!"stage {stage} is not in the layout"
  | .allocation bytes => s!"failed to allocate {bytes} bytes of arena"

instance : ToString ArenaError where
  toString := ArenaError.message

namespace Arena

/-- How an arena behaves. -/
structure Settings where
  /-- Whether sealing makes pages read-only. -/
  protectExpired : Bool := true
deriving DecidableEq, Repr

/-- What can come of an operation on an arena instead of its result. -/
inductive Failure where
  /-- The arena refused. -/
  | refused (error : ArenaError)
  /-- The operation was misused. -/
  | fault (fault : Fault)
deriving DecidableEq, Repr

end Arena

/-- The buffers of a layout in memory. -/
structure Arena where
  /-- Where the buffers live. -/
  layout : Layout
  /-- The memory that holds them. -/
  memory : Region
  /-- How the arena behaves. -/
  settings : Arena.Settings

namespace Arena

/-- Memory for a layout, at an address that starts a page, if the allocator grants it. -/
def ofLayout (page start : Nat) (layout : Layout) (settings : Settings)
    (grants : Nat → Bool := systemGrants) : Except ArenaError Arena :=
  match Region.allocate page start layout.arenaSize grants with
  | .ok memory => .ok { layout := layout, memory := memory, settings := settings }
  | .error e => .error (.allocation e.bytes)

/-- Memory for the layout of a tree. -/
def ofTree (page start : Nat) (t : BufferTree) (settings : Settings)
    (grants : Nat → Bool := systemGrants) : Except ArenaError Arena :=
  match Layout.ofTree t with
  | .ok layout => ofLayout page start layout settings grants
  | .error v => .error (.unsolved v)

/-- The bytes of the arena in use. -/
def size (a : Arena) : Nat := a.layout.arenaSize

/-- The interval of a stage's buffer. -/
def range (a : Arena) (stage : StageId) : Except Failure Interval :=
  match a.layout.range? stage with
  | some r => .ok r
  | none => .error (.refused (.unknownStage stage))

/-- The bytes of a stage's buffer. -/
def buffer (a : Arena) (stage : StageId) : Except Failure (Array UInt8) :=
  match a.range stage with
  | .error e => .error e
  | .ok r =>
    match a.memory.read r with
    | .ok bytes => .ok bytes
    | .error f => .error (.fault f)

/-- Writes the listed bytes into a stage's buffer from its byte `pos` on. They must fit in it. -/
def write (a : Arena) (stage : StageId) (pos : Nat) (data : List UInt8) : Except Failure Arena :=
  match a.range stage, a.buffer stage with
  | .ok r, .ok bytes =>
    if pos + data.length ≤ bytes.size then
      match a.memory.write (r.start + pos) data with
      | .ok memory => .ok { a with memory := memory }
      | .error f => .error (.fault f)
    else .error (.fault (.rangeOutOfBounds (pos + data.length) bytes.size))
  | .error e, _ => .error e
  | _, .error e => .error e

/-- Writes the same byte all over a stage's buffer. -/
def fill (a : Arena) (stage : StageId) (byte : UInt8) : Except Failure Arena :=
  match a.buffer stage with
  | .ok bytes => a.write stage 0 (List.replicate bytes.size byte)
  | .error e => .error e

/-- Makes the whole pages of a stage's buffer read-only for as long as the guard lives. -/
def sealBuffer (a : Arena) (stage : StageId) (t : PageTable) : Except Failure (Guard × Effect) :=
  match a.range stage, a.buffer stage with
  | .ok r, .ok bytes =>
    if a.settings.protectExpired then
      .ok (Guard.engage (.system a.memory.page) (a.memory.start + r.start) bytes.size t)
    else .ok (Guard.disabled a.memory.page, { table := t })
  | .error e, _ => .error e
  | _, .error e => .error e

end Arena

end LifetimeArena
