import LifetimeArena.Paging.PageTable

/-!
# Protection backends

A `Backend` changes the rights of page runs on behalf of guards. It answers every request with
success or an error, and may change the page table while doing so.

- `ProtectionError`: why a request was refused.
- `Backend.system`: changes the rights of whole pages, but refuses a run that starts inside a page.
- `Backend.unsupported`: for platforms without page rights.
- `Backend.scripted`: answers as told and leaves the pages alone.
-/

namespace LifetimeArena

/-- Why the rights of pages were not changed. -/
inductive ProtectionError where
  /-- The platform has no page rights. -/
  | unsupported
  /-- The named operation failed with an error number of the platform. -/
  | os (operation : String) (errno : Int)
deriving DecidableEq, Repr

namespace ProtectionError

/-- The wording of each cause. -/
def message : ProtectionError → String
  | .unsupported => "page protection is not supported on this platform"
  | .os operation errno => s!"{operation} failed with errno {errno}"

instance : ToString ProtectionError where
  toString := message

/-- The error as text for diagnosis. -/
def inspect : ProtectionError → String
  | .unsupported => "Unsupported"
  | .os operation errno => s!"Os \x7b op: \"{operation}\", errno: {errno} \x7d"

end ProtectionError

/-- How the platform names the request to make pages read-only. -/
def lockOperation : String := "mprotect(PROT_READ)"

/-- How the platform names the request to make pages writable. -/
def unlockOperation : String := "mprotect(PROT_READ | PROT_WRITE)"

/-- The error number for an argument that cannot be used. -/
def invalidArgument : Int := 22

/-- What came of a request: the answer, and the page table afterwards. -/
structure Backend.Reply where
  /-- Success, or the cause of refusal. -/
  answer : Except ProtectionError Unit
  /-- The rights of the pages afterwards. -/
  table : PageTable

/-- Changes the rights of page runs. -/
structure Backend where
  /-- The page size that the backend works with. -/
  pageSize : Nat
  /-- Makes the pages of a run read-only. -/
  lock : PageRun → PageTable → Backend.Reply
  /-- Makes the pages of a run writable again. -/
  unlock : PageRun → PageTable → Backend.Reply

namespace Backend

/-- Changes the rights of every page that a run touches, if the run starts a page. -/
def change (pageSize : Nat) (operation : String) (readOnly : Bool) (r : PageRun) (t : PageTable) :
    Reply :=
  if r.start % pageSize = 0 then { answer := .ok (), table := t.setRun r readOnly }
  else { answer := .error (.os operation invalidArgument), table := t }

/-- The backend of a platform with page rights. -/
def system (pageSize : Nat) : Backend where
  pageSize := pageSize
  lock := change pageSize lockOperation true
  unlock := change pageSize unlockOperation false

/-- The backend of a platform without page rights: nothing can be made read-only, and making
writable what always was succeeds. -/
def unsupported (pageSize : Nat) : Backend where
  pageSize := pageSize
  lock _ t := { answer := .error .unsupported, table := t }
  unlock _ t := { answer := .ok (), table := t }

/-- How a scripted request is to end. -/
inductive Script where
  /-- It succeeds. -/
  | succeed
  /-- It is refused as unsupported. -/
  | refuse
  /-- It fails with an error number. -/
  | fail (errno : Int)
deriving DecidableEq, Repr

/-- The answer that a script prescribes for an operation. -/
def Script.answer (s : Script) (operation : String) : Except ProtectionError Unit :=
  match s with
  | .succeed => .ok ()
  | .refuse => .error .unsupported
  | .fail errno => .error (.os operation errno)

/-- A backend that answers as prescribed and leaves the pages alone. -/
def scripted (pageSize : Nat) (onLock onUnlock : Script) : Backend where
  pageSize := pageSize
  lock _ t := { answer := onLock.answer lockOperation, table := t }
  unlock _ t := { answer := onUnlock.answer unlockOperation, table := t }

end Backend

end LifetimeArena
