import ControlScript.Expression.Operand

/-!
# Expressions and conditions

An expression is one operand, or two joined by an operator. A condition is two operands
joined by a comparison.

A compiler reads an expression in full before it writes it to a statement, and leaves
alone what may follow. An evaluation takes the value of each operand as soon as it has read
it, and it wants nothing but a comma after an expression without operator.

## Main definitions

* `Expression`, `Condition` — as they are written; `text` writes them
* `Expression.scan`, `Condition.scan` — reading for the compiler
* `Expression.evaluate`, `Condition.evaluate` — reading for their value
-/

namespace ControlScript

/-- One operand, or two joined by an operator. -/
inductive Expression where
  | single (operand : Operand)
  | binary (left : Operand) (operator : Operator) (right : Operand)
deriving DecidableEq, Repr

namespace Expression

/-- The expression as statements write it: without spaces. -/
def text : Expression → Bytes
  | .single operand => operand.text
  | .binary left operator right => left.text ++ operator.sign :: right.text

/-- Reads an expression whose names refer to something. -/
def scan (scope : Scope) : Scan Expression := do
  let left ← Operand.scan scope
  let _ ← Scan.skipSpaces
  match ← Operator.scan? with
  | none => return .single left
  | some operator =>
    let right ← Operand.scan scope
    return .binary left operator right

/-- Reads an expression and asks for its value. A comma or the end of the text may follow
the first operand; anything else must be an operator. -/
def evaluate (scope : Scope) : Scan Value := do
  let left ← Operand.evaluate scope
  let _ ← Scan.skipSpaces
  let next ← Scan.peek
  if next = none ∨ next = some Byte.comma then return left
  match ← Operator.scan? with
  | none => Attempt.fail .missingOperator
  | some operator =>
    let right ← Operand.evaluate scope
    Attempt.ofExcept (operator.apply left right)

end Expression

/-- Two operands joined by a comparison. -/
structure Condition where
  left : Operand
  comparison : Comparison
  right : Operand
deriving DecidableEq, Repr

namespace Condition

/-- The condition as statements write it: without spaces. -/
def text (c : Condition) : Bytes := c.left.text ++ c.comparison.sign ++ c.right.text

/-- Reads a condition whose names refer to something. -/
def scan (scope : Scope) : Scan Condition := do
  let left ← Operand.scan scope
  let _ ← Scan.skipSpaces
  match ← Comparison.scan? with
  | none => Attempt.failNoting .missingOperator "EXPECTED COMPARISON"
  | some comparison =>
    let right ← Operand.scan scope
    return { left, comparison, right }

/-- Reads a condition and tells whether it holds. -/
def evaluate (scope : Scope) : Scan Bool := do
  let left ← Operand.evaluate scope
  let _ ← Scan.skipSpaces
  match ← Comparison.scan? with
  | none => Attempt.fail .missingOperator
  | some comparison =>
    let right ← Operand.evaluate scope
    return comparison.test left right

end Condition

end ControlScript
