import ControlScript.Readings
import ControlScript.Variables

/-!
# Operands

An operand is a variable, a decimal literal with an optional sign, or a reading. Compiling
and evaluating read operands alike; a compiler keeps what it has read, an evaluation asks
for its value.

## Main definitions

* `Operand` — an operand as it is written; `Operand.text` writes it
* `Scope` — the variables and readings that names refer to
* `Operand.scan` — reads an operand whose name refers to something
* `Operand.value` — the value of an operand
* `Operand.evaluate` — reads an operand and asks for its value
-/

namespace ControlScript

/-- The sign in front of a literal. -/
inductive Sign where
  | plus | minus
deriving DecidableEq, Repr

/-- A decimal literal as it is written. -/
structure Literal where
  sign : Option Sign := none
  digits : Bytes
deriving DecidableEq, Repr

namespace Literal

/-- The sign as it is written. -/
def signText : Option Sign → Bytes
  | none => []
  | some .plus => [Byte.plus]
  | some .minus => [Byte.minus]

/-- The literal as it is written. -/
def text (l : Literal) : Bytes := signText l.sign ++ l.digits

/-- The greatest magnitude of a value: that of the least one. -/
def maxMagnitude : Int64 := 0x80000000

/-- Takes one more digit in. A number that is no magnitude of a value is given up, so that
the next digit cannot make it wrap. -/
def takeDigit (n : Int64) (digit : UInt8) : Option Int64 :=
  let next := n * 10 + (digit - Byte.zero).toUInt64.toInt64
  if next ≤ maxMagnitude then some next else none

/-- The number that decimal digits spell, if it is the magnitude of a value. -/
def magnitude? (digits : Bytes) : Option Int64 := digits.foldlM takeDigit 0

/-- The value of the literal. -/
def value (l : Literal) : Except Fault Value :=
  match magnitude? l.digits with
  | none => .error (.of .overflow)
  | some n => Value.ofWide (if l.sign = some .minus then -n else n)

/-- Reads a sign, if one is next. -/
def scanSign : Scan (Option Sign) := fun rest =>
  match rest with
  | [] => .ok none rest
  | b :: tail =>
    if b = Byte.minus then .ok (some .minus) tail
    else if b = Byte.plus then .ok (some .plus) tail
    else .ok none rest

/-- Reads a literal. It must have digits, and it is read to the last of them before its
value is looked at. -/
def scan : Scan Literal := do
  let sign ← scanSign
  let digits ← Scan.takeWhile Byte.isDigit
  if digits.isEmpty then Attempt.fail .invalidOperand
  let literal : Literal := { sign, digits }
  let _ ← Attempt.ofExcept literal.value
  return literal

end Literal

/-- What names refer to. -/
structure Scope where
  vars : Variables
  readings : Readings
deriving DecidableEq, Repr

/-- An operand as it is written. -/
inductive Operand where
  | variable (name : Bytes)
  | literal (l : Literal)
  | reading (name : Bytes)
deriving DecidableEq, Repr

namespace Operand

/-- The operand as it is written. -/
def text : Operand → Bytes
  | .variable name => name
  | .literal l => l.text
  | .reading name => Byte.atSign :: name

/-- Reads the name of a variable. A name that refers to nothing is not passed over. -/
def scanVariable (scope : Scope) : Scan Operand := do
  let (_, length) ← Attempt.ofExcept (scope.vars.find (← get))
  return .variable (← Scan.take length)

/-- Reads the name of a reading. A name that refers to nothing is not passed over. -/
def scanReading (scope : Scope) : Scan Operand := do
  match scope.readings.find? (← get) with
  | none => Attempt.fail .invalidReading
  | some (_, length) => return .reading (← Scan.take length)

/-- Reads an operand, with the spaces in front of it. -/
def scan (scope : Scope) : Scan Operand := do
  let _ ← Scan.skipSpaces
  match ← Scan.peek with
  | none => Attempt.fail .invalidOperand
  | some b =>
    if Byte.isNameStart b then scanVariable scope
    else if Byte.isDigit b || b == Byte.plus || b == Byte.minus then
      return .literal (← Literal.scan)
    else if b = Byte.atSign then
      Scan.skip 1
      scanReading scope
    else Attempt.fail .invalidOperand

/-- The value of an operand. -/
def value (scope : Scope) : Operand → Except Fault Value
  | .variable name => do
    let (slot, _) ← scope.vars.find name
    scope.vars.get slot
  | .literal l => l.value
  | .reading name =>
    match (scope.readings.find? name).bind fun (place, _) => scope.readings.read? place with
    | none => .error (.of .invalidReading)
    | some value => .ok value

/-- Reads an operand and asks for its value. -/
def evaluate (scope : Scope) : Scan Value := do
  let operand ← scan scope
  Attempt.ofExcept (operand.value scope)

end Operand

end ControlScript
