import ControlScript.Text.Bytes

/-!
# Reading bytes as text

A statement may hold any bytes, yet what a program writes is text. Reading never fails:
where the bytes are not UTF-8, each maximal part that starts a character and cannot be
completed becomes one replacement character, and so does each byte that starts none.

## Main definitions

* `Utf8.Pending` — a character of which some bytes have been read
* `Utf8.Pending.ofLead?` — what may follow the first byte of a longer character
* `Utf8.decode` — the text that a byte string stands for
-/

namespace ControlScript.Utf8

/-- A character of which the first bytes have been read. -/
structure Pending where
  /-- The number of bytes still to come. -/
  missing : Nat
  /-- The least byte that may come next. -/
  low : Nat
  /-- The greatest byte that may come next. -/
  high : Nat
  /-- The number that the bytes so far spell. -/
  bits : Nat
deriving DecidableEq, Repr

/-- The character that a first byte of `0x80` or more opens. The bounds on the second byte
exclude overlong forms, surrogates and numbers above `0x10FFFF`. -/
def Pending.ofLead? (b : Nat) : Option Pending :=
  if 0xC2 ≤ b ∧ b ≤ 0xDF then some ⟨1, 0x80, 0xBF, b - 0xC0⟩
  else if b = 0xE0 then some ⟨2, 0xA0, 0xBF, 0⟩
  else if b = 0xED then some ⟨2, 0x80, 0x9F, 0xD⟩
  else if 0xE1 ≤ b ∧ b ≤ 0xEF then some ⟨2, 0x80, 0xBF, b - 0xE0⟩
  else if b = 0xF0 then some ⟨3, 0x90, 0xBF, 0⟩
  else if 0xF1 ≤ b ∧ b ≤ 0xF3 then some ⟨3, 0x80, 0xBF, b - 0xF0⟩
  else if b = 0xF4 then some ⟨3, 0x80, 0x8F, 4⟩
  else none

/-- Stands for bytes that are no character. -/
def replacement : Char := '\uFFFD'

/-- A byte between two characters: the characters it completes, and what it opens. -/
def start (b : Nat) : List Char × Option Pending :=
  if b < 0x80 then ([Char.ofNat b], none)
  else
    match Pending.ofLead? b with
    | some p => ([], some p)
    | none => ([replacement], none)

/-- A byte after the beginning `p` of a character. A byte that cannot go on with it is read
again as the start of a character. -/
def Pending.step (p : Pending) (b : Nat) : List Char × Option Pending :=
  if p.low ≤ b ∧ b ≤ p.high then
    let bits := p.bits * 0x40 + (b - 0x80)
    if p.missing ≤ 1 then ([Char.ofNat bits], none)
    else ([], some ⟨p.missing - 1, 0x80, 0xBF, bits⟩)
  else
    let (cs, next) := start b
    (replacement :: cs, next)

/-- The characters of a byte string after the beginning of a character, if one is open. -/
def decodeFrom : Option Pending → Bytes → List Char
  | none, [] => []
  | some _, [] => [replacement]
  | none, b :: rest =>
    let (cs, next) := start b.toNat
    cs ++ decodeFrom next rest
  | some p, b :: rest =>
    let (cs, next) := p.step b.toNat
    cs ++ decodeFrom next rest

/-- The characters of a byte string. -/
def decodeChars (bytes : Bytes) : List Char := decodeFrom none bytes

/-- The text of a byte string. -/
def decode (bytes : Bytes) : String := String.ofList (decodeChars bytes)

/-- Bytes below `0x80` are read as themselves. -/
theorem decodeChars_cons_ascii {b : UInt8} (ascii : b.toNat < 0x80) (rest : Bytes) :
    decodeChars (b :: rest) = Char.ofNat b.toNat :: decodeChars rest := by
  simp [decodeChars, decodeFrom, start, ascii]

end ControlScript.Utf8
