import ControlScript.Keystream

/-!
# Coin

A fair coin whose tosses are fixed by a seed. A toss takes two words of the keystream of the
seed, as the lower and the upper half of a number of 64 bits, and falls heads if the number
is below half of the range, that is, if the highest bit of the second word is clear.
-/

namespace ControlScript

/-- A coin that has been tossed some number of times. -/
structure Coin where
  key : Keystream.Key
  tosses : Nat := 0
deriving DecidableEq, Repr

namespace Coin

/-- The coin that belongs to a seed. -/
def ofSeed (seed : UInt64) : Coin := { key := .ofSeed seed }

/-- Whether the next toss falls heads. -/
def isHeads (coin : Coin) : Bool := (Keystream.word coin.key (2 * coin.tosses + 1)) < 0x80000000

/-- The coin after one more toss. -/
def toss (coin : Coin) : Coin := { coin with tosses := coin.tosses + 1 }

end Coin

end ControlScript
