import LifetimeArena.Interval

/-!
# Memory regions

A `Region` is a block of zeroed memory that starts a page and takes whole pages, of which the bytes
asked for are usable. That it starts a page lets the pages of a page-aligned buffer be told exactly.

- `systemGrants`: what the allocator of the platform grants.
- `Region.allocate`: a fresh region, from any allocator.
- `Region.read`, `Region.write`: the usable bytes of an interval.
-/

namespace LifetimeArena

/-- A block of memory. -/
structure Region where
  /-- The page size that the block was allocated for. -/
  page : Nat
  /-- The address of the first byte, which starts a page. -/
  start : Nat
  /-- The bytes allocated. -/
  capacity : Nat
  /-- The usable bytes. -/
  bytes : Array UInt8
deriving DecidableEq, Repr

/-- The capacities that are granted where nothing else is said: the address space of the platform
has no room for blocks of `2 ^ 50` bytes. What is proved of memory holds for any allocator. -/
def systemGrants (capacity : Nat) : Bool := capacity < 1 <<< 50

/-- Memory could not be allocated. -/
structure AllocationError where
  /-- The number of bytes that were not to be had. -/
  bytes : Nat
deriving DecidableEq, Repr

namespace Region

/-- The largest block that can be asked for: with the slack for its alignment it stays below
`2 ^ 63`. -/
def largestRequest (page : Nat) : Nat := (1 <<< 63) - page

/-- Allocates `length` usable bytes, rounded up to whole pages and at least one, at an address
`start` that begins a page. The allocator of the platform decides which capacities it grants. A
request that cannot be made names the bytes asked for, one that is not granted the bytes after
rounding. -/
def allocate (page start length : Nat) (grants : Nat → Bool := systemGrants) :
    Except AllocationError Region :=
  match alignUp? (max length 1) page with
  | none => .error ⟨length⟩
  | some capacity =>
    if largestRequest page < capacity then .error ⟨length⟩
    else if grants capacity then
      .ok { page := page, start := start, capacity := capacity, bytes := Array.replicate length 0 }
    else .error ⟨capacity⟩

/-- The number of usable bytes. -/
def length (r : Region) : Nat := r.bytes.size

/-- Whether no byte is usable. -/
def isEmpty (r : Region) : Bool := r.length == 0

/-- Whether the block starts a page. -/
def startsPage (r : Region) : Bool := r.start % r.page == 0

/-- An interval must lie within the usable bytes. -/
def require (r : Region) (range : Interval) : Except Fault Unit :=
  if range.stop ≤ r.length then .ok () else .error (.rangeOutOfBounds range.stop r.length)

/-- The bytes of an interval. -/
def read (r : Region) (range : Interval) : Except Fault (Array UInt8) :=
  match r.require range with
  | .error f => .error f
  | .ok () => .ok (r.bytes.extract range.start range.stop)

/-- Stores the listed bytes one after the other from `pos` on. -/
def store (bytes : Array UInt8) (pos : Nat) : List UInt8 → Array UInt8
  | [] => bytes
  | b :: rest => store (bytes.setIfInBounds pos b) (pos + 1) rest

/-- Writes the listed bytes from `pos` on. -/
def write (r : Region) (pos : Nat) (data : List UInt8) : Except Fault Region :=
  match r.require ⟨pos, pos + data.length⟩ with
  | .error f => .error f
  | .ok () => .ok { r with bytes := store r.bytes pos data }

/-- Writes `count` times the same byte from `pos` on. -/
def fill (r : Region) (pos count : Nat) (byte : UInt8) : Except Fault Region :=
  r.write pos (List.replicate count byte)

/-- The region as text for diagnosis; `address` stands for its start. -/
def inspect (r : Region) (address : String) : String :=
  s!"AlignedRegion \x7b ptr: {address}, len: {r.length}, capacity: {r.capacity} \x7d"

end Region

/-- Puts a byte in front of runs: it makes the first run longer if that has the same byte. -/
def addByte (b : UInt8) : List (Nat × UInt8) → List (Nat × UInt8)
  | [] => [(1, b)]
  | (n, c) :: runs => if b = c then (n + 1, c) :: runs else (1, b) :: (n, c) :: runs

/-- The maximal runs of equal bytes, in order, with their lengths. -/
def byteRuns (bytes : List UInt8) : List (Nat × UInt8) := bytes.foldr addByte []

end LifetimeArena
