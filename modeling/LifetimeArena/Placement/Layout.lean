import LifetimeArena.Placement.Soundness

/-!
# Layouts

A `Layout` is what running a pipeline needs of a solved tree: the arena size and, for each stage,
where its buffer lives. It is taken from sound trees only.

- `Layout.ofTree`: the layout of a tree, or what is wrong with the tree.
- `Layout.get?`, `Layout.offset?`, `Layout.range?`: look-up by stage.
- `Layout.reuseRatio`: how many bytes of buffers one byte of the arena serves.
-/

namespace LifetimeArena

namespace Layout

/-- Where the buffer of one stage lives. -/
structure Entry where
  /-- The number of the node in the tree. -/
  node : Nat
  /-- The bytes of the arena. -/
  range : Interval
  /-- The reference to the real buffer. -/
  payload : Payload
deriving DecidableEq, Repr

end Layout

/-- Where the buffers of a pipeline live. -/
structure Layout where
  /-- The bytes that hold all buffers. -/
  arenaSize : Nat
  /-- The sum of the sizes of the buffers. -/
  totalWeight : Nat
  /-- The buffers by stage, in listing order. -/
  entries : List (StageId × Layout.Entry)
deriving DecidableEq, Repr

namespace Layout

/-- The entry of a numbered node. -/
def entryOf : Node × Nat → Except Violation (StageId × Entry)
  | (n, i) =>
    match n.range? with
    | some range => .ok (n.stage, { node := i, range := range, payload := n.payload })
    | none => .error (.unsolved n.stage)

/-- The layout of a tree that passes the test. -/
def ofTree (t : BufferTree) : Except Violation Layout :=
  match t.check with
  | .error e => .error e
  | .ok () =>
    match t.numbered.mapM entryOf with
    | .error e => .error e
    | .ok entries =>
      match t.arenaSize with
      | none => .error (.unsolved (t.stageAt t.root))
      | some arenaSize =>
        .ok { arenaSize := arenaSize, totalWeight := t.totalWeight, entries := byStage entries }

/-- The number of stages. -/
def size (l : Layout) : Nat := l.entries.length

/-- Whether there is no stage. -/
def isEmpty (l : Layout) : Bool := l.entries.isEmpty

/-- The entry of a stage. -/
def get? (l : Layout) (stage : StageId) : Option Entry := findByStage? l.entries stage

/-- The bytes of a stage's buffer. -/
def range? (l : Layout) (stage : StageId) : Option Interval := (l.get? stage).map (·.range)

/-- Where a stage's buffer starts. -/
def offset? (l : Layout) (stage : StageId) : Option Nat := (l.get? stage).map (·.range.start)

/-- Where the buffers start, by stage, in listing order. -/
def offsets (l : Layout) : List (StageId × Nat) :=
  byStage (l.entries.map fun e => (e.1, e.2.range.start))

/-- How many bytes of buffers one byte of the arena serves: one means no reuse, and an empty arena
counts as that. -/
def reuseRatio (l : Layout) : Float :=
  if l.arenaSize = 0 then 1.0
  else l.totalWeight.toUInt64.toFloat / l.arenaSize.toUInt64.toFloat

end Layout

end LifetimeArena
