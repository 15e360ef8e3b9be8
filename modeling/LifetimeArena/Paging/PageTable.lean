import LifetimeArena.Paging.PageRun

/-!
# Page tables

A `PageTable` records for each page whether it may be written. Rights are per page and are not
counted: a page that was made read-only twice is writable after one release.

- `PageTable.writable`: whether a store to an address would succeed.
- `PageTable.lock`, `PageTable.unlock`: change the rights of every page that a run touches.
-/

namespace LifetimeArena

/-- The access rights of the pages of memory. -/
structure PageTable where
  /-- The page size in bytes. -/
  pageSize : Nat
  /-- Whether the page of a given number is read-only. -/
  readOnly : Nat → Bool

namespace PageTable

/-- Memory in which every page may be written. -/
def fresh (pageSize : Nat) : PageTable where
  pageSize := pageSize
  readOnly := fun _ => false

/-- Whether a store to an address would succeed. -/
def writable (t : PageTable) (addr : Nat) : Bool := !t.readOnly (addr / t.pageSize)

/-- Gives every page that the run touches the same rights. -/
def setRun (t : PageTable) (r : PageRun) (readOnly : Bool) : PageTable :=
  { t with readOnly := fun k => if r.Touches t.pageSize k then readOnly else t.readOnly k }

/-- Makes the pages of a run read-only. -/
def lock (t : PageTable) (r : PageRun) : PageTable := t.setRun r true

/-- Makes the pages of a run writable. -/
def unlock (t : PageTable) (r : PageRun) : PageTable := t.setRun r false

@[simp] theorem pageSize_setRun (t : PageTable) (r : PageRun) (b : Bool) :
    (t.setRun r b).pageSize = t.pageSize := rfl

theorem readOnly_setRun_of_touches {t : PageTable} {r : PageRun} {b : Bool} {k : Nat}
    (h : r.Touches t.pageSize k) : (t.setRun r b).readOnly k = b := if_pos h

theorem readOnly_setRun_of_not_touches {t : PageTable} {r : PageRun} {b : Bool} {k : Nat}
    (h : ¬ r.Touches t.pageSize k) : (t.setRun r b).readOnly k = t.readOnly k := if_neg h

end PageTable

end LifetimeArena
