import LifetimeArena.Event
import LifetimeArena.Paging.Backend

/-!
# Guards

A `Guard` keeps the whole pages of a block read-only for as long as it lives. It is best effort: a
block without a whole page is left alone, and a refusal by the backend is reported once and the
guard then does nothing. When the guard goes, its pages are made writable again whether or not they
could be made read-only.

- `ProtectionStatus`: what a guard achieved.
- `Guard.engage`, `Guard.drop`: the beginning and the end of a guard, each with its `Effect`: the
  page table afterwards, the requests made of the backend and the events reported.
- `Guard.disabled`: a guard that does nothing.
-/

namespace LifetimeArena

/-- What a guard achieved. -/
inductive ProtectionStatus where
  /-- The pages are read-only until the guard goes. -/
  | applied
  /-- The block has no whole page. -/
  | tooSmall
  /-- Protection was switched off. -/
  | disabled
  /-- The backend refused. -/
  | unavailable (error : ProtectionError)
deriving DecidableEq, Repr

namespace ProtectionStatus

/-- The wording of each status. -/
def message : ProtectionStatus → String
  | .applied => "applied"
  | .tooSmall => "too small to protect"
  | .disabled => "disabled"
  | .unavailable e => s!"unavailable: {e}"

instance : ToString ProtectionStatus where
  toString := message

/-- The status as text for diagnosis. -/
def inspect : ProtectionStatus → String
  | .applied => "Applied"
  | .tooSmall => "TooSmall"
  | .disabled => "Disabled"
  | .unavailable e => s!"Unavailable({e.inspect})"

end ProtectionStatus

/-- A request made of a backend. -/
inductive Call where
  /-- Make the pages read-only. -/
  | lock (run : PageRun)
  /-- Make the pages writable. -/
  | unlock (run : PageRun)
deriving DecidableEq, Repr

/-- What the beginning or the end of a guard did. -/
structure Effect where
  /-- The rights of the pages afterwards. -/
  table : PageTable
  /-- The requests made of the backend, in order. -/
  calls : List Call := []
  /-- What was reported, in order. -/
  events : List Event := []

/-- Keeps the whole pages of a block read-only. -/
structure Guard where
  /-- Changes the rights of the pages. -/
  backend : Backend
  /-- The whole pages of the block, if there are any. -/
  region : Option PageRun
  /-- What the guard achieved. -/
  status : ProtectionStatus

namespace Guard

/-! ## Reports -/

/-- The block has no whole page. -/
def belowPage (addr size page : Nat) : Event where
  level := .trace
  message := "block smaller than a page, not protecting"
  fields := [("addr", .number addr), ("size", .number size), ("page", .number page)]

/-- The place of a run, as fields of an event. -/
def place (r : PageRun) : List (String × FieldValue) :=
  [("start", .number r.start), ("len", .number r.length)]

/-- The pages are read-only now. -/
def pagesLocked (r : PageRun) : Event where
  level := .trace
  message := "pages protected read-only"
  fields := place r

/-- The pages could not be made read-only. -/
def lockRefused (e : ProtectionError) (r : PageRun) : Event where
  level := .warn
  message := "page protection unavailable, continuing unprotected"
  fields := ("error", .text e.message) :: place r

/-- The pages are writable again. -/
def pagesUnlocked (r : PageRun) : Event where
  level := .trace
  message := "pages writable again"
  fields := place r

/-- The pages could not be made writable. -/
def unlockRefused (e : ProtectionError) (r : PageRun) : Event where
  level := .warn
  message := "failed to restore write access"
  fields := ("error", .text e.message) :: place r

/-! ## Beginning and end -/

/-- Makes the pages of a run read-only. -/
def engageRun (b : Backend) (r : PageRun) (t : PageTable) : Guard × Effect :=
  let reply := b.lock r t
  match reply.answer with
  | .ok () =>
    ({ backend := b, region := some r, status := .applied },
      { table := reply.table, calls := [.lock r], events := [pagesLocked r] })
  | .error e =>
    ({ backend := b, region := some r, status := .unavailable e },
      { table := reply.table, calls := [.lock r], events := [lockRefused e r] })

/-- Guards the block of `size` bytes at `addr`. The page size of the backend is a power of two. -/
def engage (b : Backend) (addr size : Nat) (t : PageTable) : Guard × Effect :=
  match PageRun.covering? addr size b.pageSize with
  | none =>
    ({ backend := b, region := none, status := .tooSmall },
      { table := t, events := [belowPage addr size b.pageSize] })
  | some r => engageRun b r t

/-- Guards a block with a backend that comes from outside. -/
def engageWith (b : Backend) (addr size : Nat) (t : PageTable) : Except Fault (Guard × Effect) :=
  if b.pageSize.isPowerOfTwo then .ok (engage b addr size t)
  else .error .pageSizeNotPowerOfTwo

/-- A guard that protects nothing. -/
def disabled (pageSize : Nat) : Guard where
  backend := .system pageSize
  region := none
  status := .disabled

/-- Whether the guard made its pages read-only. -/
def isActive (g : Guard) : Bool := g.status = .applied

/-- What is reported when the pages cannot be made writable: nothing where making them read-only has
failed before, since that was reported then. -/
def unlockComplaint (g : Guard) (e : ProtectionError) (r : PageRun) : List Event :=
  if g.isActive then [unlockRefused e r] else []

/-- Ends a guard: its pages, if it has any, become writable again. -/
def drop (g : Guard) (t : PageTable) : Effect :=
  match g.region with
  | none => { table := t }
  | some r =>
    let reply := g.backend.unlock r t
    match reply.answer with
    | .ok () => { table := reply.table, calls := [.unlock r], events := [pagesUnlocked r] }
    | .error e =>
      { table := reply.table, calls := [.unlock r], events := g.unlockComplaint e r }

/-- The guard as text for diagnosis. -/
def inspect (g : Guard) : String :=
  let region := match g.region with
    | some r => s!"Some({r.inspect})"
    | none => "None"
  s!"MemoryProtector \x7b region: {region}, status: {g.status.inspect} \x7d"

end Guard

end LifetimeArena
