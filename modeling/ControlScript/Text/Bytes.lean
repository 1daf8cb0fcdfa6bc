/-!
# Bytes

Source lines, statements and stored programs are byte strings. This file gives the bytes
that carry meaning a name and fixes the classes of bytes that the language tells apart.
All classes are ASCII classes: a byte of `0x80` or more is a letter of no kind.

## Main definitions

* `Byte.isNameStart`, `Byte.isNameChar` — where a name may start and how it may go on
* `Byte.isControl` — the bytes that never reach a stored program, `Byte.statementEnd` apart
* `Bytes.ofString` — the UTF-8 encoding of a text
* `Bytes.upper` — the form in which two spellings of one word agree
* `Bytes.identifier?` — the name at the start of a text
* `Bytes.startsWith` — a comparison with a text that goes on with zeros for ever
-/

namespace ControlScript

/-- A byte string. -/
abbrev Bytes := List UInt8

namespace Byte

/-- Ends a stored program; a region that was never written holds nothing else. -/
abbrev programEnd : UInt8 := 0x00

/-- Ends a statement. -/
abbrev statementEnd : UInt8 := 0x0D

/-- A space. -/
abbrev space : UInt8 := 0x20

/-- The quote around a text, `"`. -/
abbrev quote : UInt8 := 0x22

/-- Starts a comment, `#`. -/
abbrev hash : UInt8 := 0x23

/-- The product sign, `*`; at the start of a line it announces a raw statement. -/
abbrev star : UInt8 := 0x2A

/-- The plus sign. -/
abbrev plus : UInt8 := 0x2B

/-- Separates a condition from the label to jump to. -/
abbrev comma : UInt8 := 0x2C

/-- The minus sign. -/
abbrev minus : UInt8 := 0x2D

/-- The digit zero. -/
abbrev zero : UInt8 := 0x30

/-- Separates a variable from its new value. -/
abbrev equals : UInt8 := 0x3D

/-- Announces a reading, `@`. -/
abbrev atSign : UInt8 := 0x40

/-- A capital letter. -/
def isUpper (b : UInt8) : Bool := 0x41 ≤ b && b ≤ 0x5A

/-- A small letter. -/
def isLower (b : UInt8) : Bool := 0x61 ≤ b && b ≤ 0x7A

/-- A decimal digit. -/
def isDigit (b : UInt8) : Bool := 0x30 ≤ b && b ≤ 0x39

/-- A letter. -/
def isLetter (b : UInt8) : Bool := isUpper b || isLower b

/-- A name starts with a letter. -/
def isNameStart (b : UInt8) : Bool := isLetter b

/-- A name goes on with letters, digits and underscores. -/
def isNameChar (b : UInt8) : Bool := isLetter b || isDigit b || b == 0x5F

/-- A control byte: one below the space, or DEL. -/
def isControl (b : UInt8) : Bool := b < 0x20 || b == 0x7F

/-- The capital of a small letter, and every other byte itself. -/
def upper (b : UInt8) : UInt8 := if isLower b then b - 0x20 else b

/-- Whether a byte is the given capital letter or its small form. -/
def spells (letter : Char) (b : UInt8) : Bool := upper b == letter.toUInt8

theorem isNameChar_of_isNameStart {b : UInt8} (start : isNameStart b = true) :
    isNameChar b = true := by
  simp [isNameChar, show isLetter b = true from start]

end Byte

namespace Bytes

/-- The UTF-8 encoding of a character string. -/
def ofChars (cs : List Char) : Bytes := cs.flatMap String.utf8EncodeChar

/-- The UTF-8 encoding of a text. -/
def ofString (s : String) : Bytes := ofChars s.toList

/-- Every letter as its capital. Two spellings of a word agree when their capitals do. -/
def upper (text : Bytes) : Bytes := text.map Byte.upper

@[simp] theorem length_upper (text : Bytes) : text.upper.length = text.length :=
  List.length_map _

/-- The name at the start of `text`: a letter and every name character after it. -/
def identifier? : Bytes → Option Bytes
  | [] => none
  | b :: rest => if Byte.isNameStart b then some (b :: rest.takeWhile Byte.isNameChar) else none

/-- `text`, prolonged by zeros without end, starts with `pattern`. -/
def startsWith : (pattern text : Bytes) → Bool
  | [], _ => true
  | p :: pattern, text => text.headD 0 == p && startsWith pattern text.tail

end Bytes

end ControlScript
