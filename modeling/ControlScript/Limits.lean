/-!
# Limits

A machine has fixed resources. Exceeding one of them is a fault, never a growth.
-/

namespace ControlScript

/-- The sizes that a machine is built with. -/
structure Limits where
  /-- Bytes in the program store, the end of the program included. -/
  storeCapacity : Nat := 2000
  /-- The number of variables. -/
  maxVariables : Nat := 20
  /-- The length of a variable's name. -/
  nameLength : Nat := 10
  /-- The longest statement that is executed. -/
  statementLength : Nat := 120
  /-- The longest source line that is compiled. -/
  lineLength : Nat := 120
  /-- The number of blocks that may be open at once. -/
  nesting : Nat := 16
deriving DecidableEq, Repr

end ControlScript
