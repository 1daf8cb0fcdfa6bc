import ControlScript.Expression.Operator

/-!
# Output

What a machine writes goes to a destination, in the order in which it was written. It never
waits for whoever reads it.
-/

namespace ControlScript

/-- Whoever sent a statement gets what it writes. Destination `0` is the console. -/
abbrev Destination := UInt8

/-- The destination of what is typed in. -/
def console : Destination := 0

/-- A piece of output. -/
inductive Output where
  | text (content : String)
  | lineBreak
  | value (number : Value)
  /-- A remark of the machine on what it does. -/
  | diagnostic (content : String)
deriving DecidableEq, Repr

/-- Output as it appears: a diagnostic has a line of its own after a question mark. -/
def Output.render : Output → String
  | .text content => content
  | .lineBreak => "\n"
  | .value number => s!"{number.toInt}"
  | .diagnostic content => s!"?{content}\n"

/-- Output on its way. -/
structure Delivery where
  destination : Destination
  output : Output
deriving DecidableEq, Repr

end ControlScript
