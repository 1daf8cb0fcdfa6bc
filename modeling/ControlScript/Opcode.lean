import ControlScript.Text.Bytes

/-!
# The instruction alphabet

A statement starts with two letters, which may be written in either case: the first names
its category, the second what it does there. `#` alone starts a comment. Statements with
any other start mean nothing and are passed over.

## Main definitions

* `Opcode` — what a statement does
* `Category` — what it is about
* `Opcode.code` — its letters
* `Opcode.ofPair?`, `Opcode.ofStatement?` — the reading of the letters
* `labelChars` — how jumps and declarations write the label with a given number
-/

namespace ControlScript

/-- What a statement is about. -/
inductive Category where
  | info | control | remote | variable | write | comment
deriving DecidableEq, Repr

/-- What a statement does. -/
inductive Opcode where
  /-- Wait for some tenths of a second. -/
  | delay
  /-- Declare the target of jumps. -/
  | label
  | jump
  /-- Jump in one of two cases, by chance. -/
  | coinToss
  | jumpIfTrue
  | jumpIfFalse
  | beginDownload
  | start
  | halt
  | pause
  | resume
  | clearProgram
  /-- Complete a download. Without one, this does nothing. -/
  | endDownload
  /-- Give a download up. Without one, this does nothing. -/
  | abortDownload
  | clearVariables
  | setVariable
  | viewVariable
  | writeText
  | writeLine
  | writeValue
  | version
  | status
  | diagnostics
  | comment
deriving DecidableEq, Repr

/-- The category that a first letter names. -/
def Category.ofByte? (b : UInt8) : Option Category :=
  match Char.ofNat (Byte.upper b).toNat with
  | 'I' => some .info
  | 'C' => some .control
  | 'R' => some .remote
  | 'V' => some .variable
  | 'W' => some .write
  | '#' => some .comment
  | _ => none

namespace Opcode

/-- The letters of an opcode, as text. -/
def text : Opcode → String
  | .delay => "CD"
  | .label => "CL"
  | .jump => "CJ"
  | .coinToss => "CC"
  | .jumpIfTrue => "CT"
  | .jumpIfFalse => "CF"
  | .beginDownload => "RM"
  | .start => "RS"
  | .halt => "RH"
  | .pause => "RP"
  | .resume => "RR"
  | .clearProgram => "RC"
  | .endDownload => "RX"
  | .abortDownload => "RA"
  | .clearVariables => "VC"
  | .setVariable => "VS"
  | .viewVariable => "VV"
  | .writeText => "WT"
  | .writeLine => "WL"
  | .writeValue => "WV"
  | .version => "IV"
  | .status => "IS"
  | .diagnostics => "ID"
  | .comment => "#"

/-- The letters of an opcode. -/
def code (op : Opcode) : Bytes := Bytes.ofString op.text

/-- The category of an opcode. -/
def category : Opcode → Category
  | .delay | .label | .jump | .coinToss | .jumpIfTrue | .jumpIfFalse => .control
  | .beginDownload | .start | .halt | .pause | .resume | .clearProgram | .endDownload
  | .abortDownload => .remote
  | .clearVariables | .setVariable | .viewVariable => .variable
  | .writeText | .writeLine | .writeValue => .write
  | .version | .status | .diagnostics => .info
  | .comment => .comment

/-- All opcodes that are written with two letters. -/
def lettered : List Opcode :=
  [.delay, .label, .jump, .coinToss, .jumpIfTrue, .jumpIfFalse, .beginDownload, .start, .halt,
    .pause, .resume, .clearProgram, .endDownload, .abortDownload, .clearVariables, .setVariable,
    .viewVariable, .writeText, .writeLine, .writeValue, .version, .status, .diagnostics]

/-- The opcode that a first byte and perhaps a second one name. -/
def ofPair? (first : UInt8) (second : Option UInt8) : Option Opcode :=
  match Category.ofByte? first, second with
  | none, _ => none
  | some .comment, _ => some .comment
  | some _, none => none
  | some _, some second =>
    let letters := [Byte.upper first, Byte.upper second]
    lettered.find? (·.code == letters)

/-- The opcode of a statement. -/
def ofStatement? : Bytes → Option Opcode
  | [] => none
  | first :: rest => ofPair? first rest.head?

/-- A statement that starts with the letters of an opcode has that opcode. -/
theorem ofStatement?_code_append (op : Opcode) (args : Bytes) :
    ofStatement? (op.code ++ args) = some op := by
  cases op <;> rfl

/-- The first letter of an opcode names its category. -/
theorem ofByte?_head_code (op : Opcode) :
    op.code.head?.bind Category.ofByte? = some op.category := by
  cases op <;> decide

end Opcode

/-- The label with number `n`, as jumps and declarations write it: the letter `l` and the
number in decimal digits. -/
def labelChars (n : Nat) : List Char := 'l' :: Nat.toDigits 10 n

end ControlScript
