import LifetimeArena.Interval

/-!
# Page runs

Access rights change page by page. A `PageRun` is a run of bytes that is meant to consist of whole
pages, and `PageRun.covering?` finds the one inside a block: the start is rounded up and the end
rounded down, so a page that the block covers only in part is left out.

- `systemPageSize`: the page size of the platform.
- `PageRun.covering?`: the whole pages inside a block.
- `PageRun.Touches`: a page has a byte in a run.
-/

namespace LifetimeArena

/-- The page size of the platform in bytes. -/
def systemPageSize : Nat := 4096

/-- A run of bytes given by its start and its length. -/
structure PageRun where
  /-- The address of the first byte. -/
  start : Nat
  /-- The number of bytes. -/
  length : Nat
deriving DecidableEq, Repr

namespace PageRun

/-- The whole pages inside the block of `size` bytes at `addr`, or `none` if there is no whole page
or the block leaves the word. The page size is a power of two. -/
def covering? (addr size page : Nat) : Option PageRun :=
  match alignUp? addr page, addWord? addr size with
  | some start, some reach =>
    let stop := clearBits reach (page - 1)
    if stop ≤ start then none else some ⟨start, stop - start⟩
  | _, _ => none

/-- The whole pages inside a block at a page size that comes from outside. -/
def covering (addr size page : Nat) : Except Fault (Option PageRun) :=
  if page.isPowerOfTwo then .ok (covering? addr size page) else .error .pageSizeNotPowerOfTwo

/-- One past the last byte. -/
def stop (r : PageRun) : Nat := r.start + r.length

/-- One past the last byte, as a word. -/
def stopWord (r : PageRun) : Except Fault Nat := addWord r.start r.length

/-- The number of whole pages that the length makes up. -/
def pages (r : PageRun) (page : Nat) : Except Fault Nat :=
  if page = 0 then .error .divisionByZero else .ok (r.length / page)

/-- The page numbered `k` has a byte in the run. -/
def Touches (r : PageRun) (page k : Nat) : Prop := r.start < (k + 1) * page ∧ k * page < r.stop

instance (r : PageRun) (page k : Nat) : Decidable (r.Touches page k) :=
  inferInstanceAs (Decidable (_ ∧ _))

/-- The run as text for diagnosis. -/
def inspect (r : PageRun) : String :=
  s!"PageRange \x7b start: {r.start}, len: {r.length} \x7d"

end PageRun

end LifetimeArena
