/-!
# Pseudo-random words

A stream of 64-bit words from a 64-bit seed. The seed is stretched to a 256-bit key by a linear
congruential generator with permuted output, and the words are the key stream of the ChaCha cipher
with eight rounds, two 32-bit words at a time, the low one first.

- `ChaCha.key`: the key of a seed.
- `ChaCha.block`: one block of sixteen key stream words.
- `ChaCha.word`: the words of the stream by number.
-/

namespace LifetimeArena

namespace ChaCha

/-- Rotates a word to the left. -/
def rotateLeft (x n : UInt32) : UInt32 := (x <<< n) ||| (x >>> (32 - n))

/-- Rotates a word to the right. -/
def rotateRight (x n : UInt32) : UInt32 := (x >>> n) ||| (x <<< (32 - n))

/-! ## The key of a seed -/

/-- The next state of the congruential generator. -/
def advance (state : UInt64) : UInt64 := state * 6364136223846793005 + 11634580027462260723

/-- The output of a state: its high bits folded together, rotated by the highest five. -/
def output (state : UInt64) : UInt32 :=
  rotateRight (((state >>> 18) ^^^ state) >>> 27).toUInt32 (state >>> 59).toUInt32

/-- The outputs of the next `n` states. -/
def stretch : (n : Nat) → (state : UInt64) → List UInt32
  | 0, _ => []
  | n + 1, state => output (advance state) :: stretch n (advance state)

/-- The eight key words of a seed. -/
def key (seed : UInt64) : List UInt32 := stretch 8 seed

/-! ## The key stream -/

/-- The words that open every block. -/
def constants : List UInt32 := [0x61707865, 0x3320646e, 0x79622d32, 0x6b206574]

/-- The sixteen words that a block starts from: constants, key, block number and no nonce. -/
def initial (key : List UInt32) (counter : UInt64) : Array UInt32 :=
  (constants ++ key ++ [counter.toUInt32, (counter >>> 32).toUInt32, 0, 0]).toArray

/-- Adds word `b` to word `a`, folds that into word `d`, and rotates word `d`. -/
def mix (s : Array UInt32) (a b d : Nat) (n : UInt32) : Array UInt32 :=
  let sum := s.getD a 0 + s.getD b 0
  let folded := rotateLeft (s.getD d 0 ^^^ sum) n
  (s.setIfInBounds a sum).setIfInBounds d folded

/-- Stirs four words. -/
def quarterRound (s : Array UInt32) (a b c d : Nat) : Array UInt32 :=
  mix (mix (mix (mix s a b d 16) c d b 12) a b d 8) c d b 7

/-- Stirs the columns of the four by four square of words, then its diagonals. -/
def doubleRound (s : Array UInt32) : Array UInt32 :=
  let s := quarterRound s 0 4 8 12
  let s := quarterRound s 1 5 9 13
  let s := quarterRound s 2 6 10 14
  let s := quarterRound s 3 7 11 15
  let s := quarterRound s 0 5 10 15
  let s := quarterRound s 1 6 11 12
  let s := quarterRound s 2 7 8 13
  quarterRound s 3 4 9 14

/-- The words after four double rounds, each added to what it started from. -/
def block (key : List UInt32) (counter : UInt64) : Array UInt32 :=
  let start := initial key counter
  (doubleRound (doubleRound (doubleRound (doubleRound start)))).mapIdx fun i x =>
    x + start.getD i 0

/-- The 64-bit word numbered `k` of the stream of a seed. -/
def word (seed : UInt64) (k : Nat) : UInt64 :=
  let words := block (key seed) (UInt64.ofNat (k / 8))
  let low := words.getD (2 * (k % 8)) 0
  let high := words.getD (2 * (k % 8) + 1) 0
  low.toUInt64 ||| (high.toUInt64 <<< 32)

end ChaCha

end LifetimeArena
