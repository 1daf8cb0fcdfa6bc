import ControlScript.Expression.Basic
import ControlScript.Opcode

/-!
# Instructions

What a compiler makes of a source line: instructions, each of which is written as one
statement of the instruction alphabet.

## Main definitions

* `Instruction` — the instructions that compiled programs consist of
* `Instruction.text` — the statement of an instruction
* `Instruction.encode` — a sequence of instructions as a stream of statements
-/

namespace ControlScript

/-- An instruction that a compiler produces. -/
inductive Instruction where
  /-- Declare a label. -/
  | declare (label : Nat)
  | jump (label : Nat)
  /-- Jump if the condition fails. -/
  | jumpUnless (condition : Condition) (label : Nat)
  /-- Wait for some tenths of a second. -/
  | delay (tenths : Expression)
  | setVariable (name : Bytes) (value : Expression)
  | clearVariables
  | writeText (text : Bytes)
  | writeValue (value : Expression)
  | writeLine
  | beginDownload
  | endDownload
  | abortDownload
  | start
  | halt
  /-- A statement given as it is. -/
  | raw (statement : Bytes)
deriving DecidableEq, Repr

namespace Instruction

/-- A label as it stands in a statement. -/
def labelBytes (n : Nat) : Bytes := Bytes.ofChars (labelChars n)

/-- The statement of an instruction. -/
def text : Instruction → Bytes
  | .declare label => Opcode.label.code ++ labelBytes label
  | .jump label => Opcode.jump.code ++ labelBytes label
  | .jumpUnless condition label =>
    Opcode.jumpIfFalse.code ++ condition.text ++ Byte.comma :: labelBytes label
  | .delay tenths => Opcode.delay.code ++ tenths.text
  | .setVariable name value => Opcode.setVariable.code ++ name ++ Byte.equals :: value.text
  | .clearVariables => Opcode.clearVariables.code
  | .writeText text => Opcode.writeText.code ++ text
  | .writeValue value => Opcode.writeValue.code ++ value.text
  | .writeLine => Opcode.writeLine.code
  | .beginDownload => Opcode.beginDownload.code
  | .endDownload => Opcode.endDownload.code
  | .abortDownload => Opcode.abortDownload.code
  | .start => Opcode.start.code
  | .halt => Opcode.halt.code
  | .raw statement => statement

/-- Instructions as a stream: statement after statement, each with its end. -/
def encode (instructions : List Instruction) : Bytes :=
  instructions.flatMap fun i => i.text ++ [Byte.statementEnd]

theorem encode_append (a b : List Instruction) : encode (a ++ b) = encode a ++ encode b :=
  List.flatMap_append

end Instruction

end ControlScript
