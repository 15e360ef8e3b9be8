/-!
# Stages

A pipeline is described by its stages in execution order. Each stage has one output buffer: the
stage's id, the buffer's size in bytes, the stage it was derived from and an opaque reference to the
real buffer, which is carried along and never looked into.

- `StageId`, `Payload`: the names that the caller chooses.
- `Stage`: one entry of the description.
-/

namespace LifetimeArena

/-- The caller's name for a pipeline stage, unique within one pipeline. -/
structure StageId where
  /-- The number behind the name. -/
  val : UInt32
deriving DecidableEq, Repr, Inhabited

namespace StageId

/-- The name with the given number, which is below `2 ^ 32`. -/
def ofNat (n : Nat) : StageId := ⟨UInt32.ofNat n⟩

instance : ToString StageId where
  toString id := toString id.val.toNat

end StageId

/-- A reference to the real buffer of a stage. -/
structure Payload where
  /-- The number behind the reference. -/
  val : UInt64
deriving DecidableEq, Repr, Inhabited

/-- Payloads are written in hexadecimal. -/
instance : ToString Payload where
  toString p := "0x" ++ String.ofList (Nat.toDigits 16 p.val.toNat)

/-- One stage of a pipeline, with the buffer that it writes. -/
structure Stage where
  /-- The stage's name. -/
  id : StageId
  /-- The size of its buffer in bytes. -/
  weight : Nat
  /-- The stage that its buffer is derived from; the root of the pipeline has none. -/
  parent : Option StageId := none
  /-- The reference to the real buffer. -/
  payload : Payload := ⟨0⟩
deriving DecidableEq, Repr

/-- The way a node is named in diagnostics. -/
def nodeLabel (index : Nat) : String := s!"#{index}"

end LifetimeArena
