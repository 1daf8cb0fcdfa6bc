/-!
# Keystream

ChaCha with twelve rounds, the source of the chances that programs take. A block is made
from a state of four rows of four words: constants, two rows of key, and a row with the
number of the block.

## Main definitions

* `Keystream.Row`, `Keystream.State` — four words, and four rows of them
* `Keystream.State.quarterRounds` — the quarter rounds of all four columns at once
* `Keystream.State.doubleRound` — a round of columns and a round of diagonals
* `Keystream.block`, `Keystream.word` — the stream that belongs to a key
* `Keystream.Key.ofSeed` — the key that belongs to a number
-/

namespace ControlScript.Keystream

/-- Four words. -/
structure Row where
  a : UInt32
  b : UInt32
  c : UInt32
  d : UInt32
deriving DecidableEq, Repr

namespace Row

/-- The words of two rows, joined in pairs. -/
def zip (f : UInt32 → UInt32 → UInt32) (x y : Row) : Row :=
  ⟨f x.a y.a, f x.b y.b, f x.c y.c, f x.d y.d⟩

/-- The sums of the words of two rows. -/
def sum : Row → Row → Row := zip (· + ·)

/-- The differences of the words of two rows, bit by bit. -/
def xor : Row → Row → Row := zip (· ^^^ ·)

/-- Each word turned to the left. The shift is neither `0` nor `32`. -/
def turn (shift : UInt32) (x : Row) : Row :=
  let f (w : UInt32) := (w <<< shift) ||| (w >>> (32 - shift))
  ⟨f x.a, f x.b, f x.c, f x.d⟩

/-- The words moved by one place to the front. -/
def rotate (x : Row) : Row := ⟨x.b, x.c, x.d, x.a⟩

/-- The words in order. -/
def toList (x : Row) : List UInt32 := [x.a, x.b, x.c, x.d]

end Row

/-- Four rows. -/
structure State where
  first : Row
  second : Row
  third : Row
  fourth : Row
deriving DecidableEq, Repr

namespace State

/-- A quarter round on each column. -/
def quarterRounds (s : State) : State :=
  let first := s.first.sum s.second
  let fourth := (s.fourth.xor first).turn 16
  let third := s.third.sum fourth
  let second := (s.second.xor third).turn 12
  let first := first.sum second
  let fourth := (fourth.xor first).turn 8
  let third := third.sum fourth
  let second := (second.xor third).turn 7
  { first, second, third, fourth }

/-- Moves the diagonals into the columns. -/
def toDiagonals (s : State) : State :=
  { s with
    second := s.second.rotate
    third := s.third.rotate.rotate
    fourth := s.fourth.rotate.rotate.rotate }

/-- Moves the columns into the diagonals. -/
def ofDiagonals (s : State) : State :=
  { s with
    second := s.second.rotate.rotate.rotate
    third := s.third.rotate.rotate
    fourth := s.fourth.rotate }

/-- A round on the columns and a round on the diagonals. -/
def doubleRound (s : State) : State := s.quarterRounds.toDiagonals.quarterRounds.ofDiagonals

/-- The sums of the rows of two states. -/
def sum (s t : State) : State :=
  ⟨s.first.sum t.first, s.second.sum t.second, s.third.sum t.third, s.fourth.sum t.fourth⟩

/-- The words in order. -/
def toList (s : State) : List UInt32 :=
  s.first.toList ++ s.second.toList ++ s.third.toList ++ s.fourth.toList

theorem ofDiagonals_toDiagonals (s : State) : s.toDiagonals.ofDiagonals = s := rfl

end State

/-- The key of a stream: two rows. -/
structure Key where
  high : Row
  low : Row
deriving DecidableEq, Repr

/-- The next state of the generator that spreads a seed over a key. -/
def nextSeed (s : UInt64) : UInt64 := s * 6364136223846793005 + 11634580027462260723

/-- The word that a state of this generator gives: its upper bits, folded and turned to the
right by the number in its five highest bits. -/
def seedWord (s : UInt64) : UInt32 :=
  let folded := (((s >>> 18) ^^^ s) >>> 27).toUInt32
  let shift := (s >>> 59).toUInt32
  (folded >>> shift) ||| (folded <<< ((32 - shift) % 32))

/-- The key that belongs to a seed. -/
def Key.ofSeed (seed : UInt64) : Key :=
  let word (n : Nat) : UInt32 := seedWord (Nat.repeat nextSeed n seed)
  { high := ⟨word 1, word 2, word 3, word 4⟩, low := ⟨word 5, word 6, word 7, word 8⟩ }

/-- The state that a block is made from. -/
def origin (key : Key) (number : UInt64) : State :=
  { first := ⟨0x61707865, 0x3320646e, 0x79622d32, 0x6b206574⟩
    second := key.high
    third := key.low
    fourth := ⟨number.toUInt32, (number >>> 32).toUInt32, 0, 0⟩ }

/-- A block of sixteen words. -/
def block (key : Key) (number : UInt64) : List UInt32 :=
  let start := origin key number
  ((Nat.repeat State.doubleRound 6 start).sum start).toList

/-- A word of the stream that belongs to a key. -/
def word (key : Key) (place : Nat) : UInt32 :=
  (block key (UInt64.ofNat (place / 16))).getD (place % 16) 0

end ControlScript.Keystream
