import LifetimeArena.BufferTree.Walk

/-!
# Drawings

A tree is drawn as the text of a directed graph: one record per node in pre-order, with the stage,
its size and its offset, and after each record one edge to each child. A solved tree also carries
its arena size as a label.

- `Drawing.Line`: the lines that a drawing is made of.
- `BufferTree.drawingLines`: the lines of a tree.
- `BufferTree.drawing`: their text.
-/

namespace LifetimeArena

namespace Drawing

/-- One line of a drawing. -/
inductive Line where
  /-- The graph begins. -/
  | opening
  /-- Nodes are drawn as records. -/
  | recordShape
  /-- The label with the arena size. -/
  | arenaLabel (bytes : Nat)
  /-- A node, with its offset if it has one. -/
  | record (index : Nat) (stage : StageId) (weight : Nat) (offset : Option Nat)
  /-- An edge from a node to one of its children. -/
  | edge (parent child : Nat)
  /-- The graph ends. -/
  | closing
deriving DecidableEq, Repr

/-- An unknown offset is written as a question mark. -/
def offsetText : Option Nat → String
  | some offset => toString offset
  | none => "?"

/-- The text of a line, without its end. -/
def Line.text : Line → String
  | .opening => "digraph lifetime_tree \x7b"
  | .recordShape => "  node [shape=record];"
  | .arenaLabel bytes => s!"  label=\"arena {bytes} bytes\";"
  | .record index stage weight offset =>
    s!"  n{index} [label=\"\x7bstage {stage}|weight {weight}|offset {offsetText offset}\x7d\"];"
  | .edge parent child => s!"  n{parent} -> n{child};"
  | .closing => "\x7d"

/-- The text of a list of lines, each ended by a line break. -/
def render (lines : List Line) : String :=
  String.join (lines.map fun l => l.text ++ "\n")

end Drawing

namespace BufferTree

/-- The record of a node, followed by its edges. -/
def nodeLines (t : BufferTree) (i : Nat) : List Drawing.Line :=
  match t.get? i with
  | some n => .record i n.stage n.weight n.offset :: n.children.map (.edge i)
  | none => []

/-- The lines of a tree's drawing. -/
def drawingLines (t : BufferTree) : List Drawing.Line :=
  [.opening, .recordShape] ++ (t.arenaSize.map Drawing.Line.arenaLabel).toList ++
    t.preorder.flatMap t.nodeLines ++ [.closing]

/-- The text of a tree's drawing. -/
def drawing (t : BufferTree) : String := Drawing.render t.drawingLines

end BufferTree

end LifetimeArena
