import ControlScript.Attempt

/-!
# Scanning a text

Lines and statements are read from left to right. A scan is a computation on the text that
is left; it never reads past the end, which stands in for the end of the statement.

## Main definitions

* `Scan` — a computation on the text that is left
* `Scan.peek`, `Scan.peekAt`, `Scan.next`, `Scan.skip`, `Scan.skipSpaces`, `Scan.eat`,
  `Scan.takeWhile`, `Scan.take` — the single steps
* `Scan.name` — a name, as it stands to the left of an assignment
* `Scan.passed` — how much of a text has been read
-/

namespace ControlScript

/-- A computation on the text that is left. -/
abbrev Scan := Attempt Bytes

namespace Scan

/-- The number of bytes of `text` that have been read when `rest` is left. -/
def passed (text rest : Bytes) : Nat := text.length - rest.length

/-- The next byte, which is left where it is. -/
def peek : Scan (Option UInt8) := fun rest => .ok rest.head? rest

/-- The byte `ahead` places after the next one. -/
def peekAt (ahead : Nat) : Scan (Option UInt8) := fun rest => .ok rest[ahead]? rest

/-- Reads one byte. -/
def next : Scan (Option UInt8) := fun rest => .ok rest.head? rest.tail

/-- Reads `count` bytes, or as many as are left. -/
def take (count : Nat) : Scan Bytes := fun rest => .ok (rest.take count) (rest.drop count)

/-- Passes over `count` bytes, or as many as are left. -/
def skip (count : Nat) : Scan Unit := fun rest => .ok () (rest.drop count)

/-- Reads the bytes up to the first one outside a class. -/
def takeWhile (isMember : UInt8 → Bool) : Scan Bytes := fun rest =>
  .ok (rest.takeWhile isMember) (rest.dropWhile isMember)

/-- Passes over spaces and counts them. -/
def skipSpaces : Scan Nat := do
  let spaces ← takeWhile (· == Byte.space)
  return spaces.length

/-- Reads `byte` if it is next, and tells whether it was. -/
def eat (byte : UInt8) : Scan Bool := fun rest =>
  if rest.head? = some byte then .ok true rest.tail else .ok false rest

/-- Reads name characters, which must begin as a name does. -/
def name : Scan Bytes := do
  let word ← takeWhile Byte.isNameChar
  if word.head?.any Byte.isNameStart then return word
  else Attempt.fail .invalidIdentifier

theorem skipSpaces_apply (text : Bytes) :
    skipSpaces text = .ok (text.takeWhile (· == Byte.space)).length
      (text.dropWhile (· == Byte.space)) := rfl

theorem name_apply (text : Bytes) :
    name text =
      if (text.takeWhile Byte.isNameChar).head?.any Byte.isNameStart then
        .ok (text.takeWhile Byte.isNameChar) (text.dropWhile Byte.isNameChar)
      else .error (.of .invalidIdentifier) (text.dropWhile Byte.isNameChar) := by
  by_cases isName : (text.takeWhile Byte.isNameChar).head?.any Byte.isNameStart = true <;>
    simp [name, Attempt.bind_apply, takeWhile, isName]

/-- A step leaves an end of the text, so `passed` counts what it has read. -/
theorem passed_append (before rest : Bytes) : passed (before ++ rest) rest = before.length := by
  simp [passed]

end Scan

end ControlScript
