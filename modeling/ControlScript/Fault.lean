import ControlScript.Text.Blank

/-!
# Faults

Compiling a line and executing a statement both may fail, and both report a fault: a cause,
where helpful with a note, the number of the program line, and the source at fault.

## Main definitions

* `Cause` — what can go wrong, with a number and a text for each
* `Fault` — a cause with its circumstances; `Fault.render` writes it out
-/

namespace ControlScript

/-- What can go wrong. -/
inductive Cause where
  | syntaxError
  | invalidOperand
  | missingOperator
  | overflow
  | divisionByZero
  | illegalDirect
  | invalidIdentifier
  | lineBufferOverflow
  | extraText
  | missingQuote
  | indentNotAllowed
  | indentExpected
  | indentMismatch
  | notInProgram
  | elseWithoutIf
  | endifWithoutIf
  | endwhileWithoutWhile
  | untilWithoutDo
  | breakOutsideLoop
  | continueOutsideLoop
  | blockNotClosed
  | nestingTooDeep
  | notCompiling
  | programHasErrors
  | immediateOnly
  | labelNotFound
  | missingDestination
  | variableNotFound
  | unassignedVariable
  | noRoomForVariable
  | nameTooLong
  | invalidReading
  | storeFull
  | statementTooLong
  | storageFailure
  | noProgram
deriving DecidableEq, Repr

namespace Cause

/-- The number of a cause. -/
def number : Cause → Nat
  | syntaxError => 2
  | invalidOperand => 3
  | missingOperator => 4
  | overflow => 6
  | divisionByZero => 11
  | illegalDirect => 12
  | invalidIdentifier => 13
  | lineBufferOverflow => 23
  | extraText => 24
  | missingQuote => 25
  | indentNotAllowed => 30
  | indentExpected => 31
  | indentMismatch => 32
  | notInProgram => 33
  | elseWithoutIf => 34
  | endifWithoutIf => 35
  | endwhileWithoutWhile => 36
  | untilWithoutDo => 37
  | breakOutsideLoop => 38
  | continueOutsideLoop => 39
  | blockNotClosed => 40
  | nestingTooDeep => 41
  | notCompiling => 42
  | programHasErrors => 43
  | immediateOnly => 44
  | labelNotFound => 50
  | missingDestination => 51
  | variableNotFound => 60
  | unassignedVariable => 61
  | noRoomForVariable => 62
  | nameTooLong => 63
  | invalidReading => 64
  | storeFull => 70
  | statementTooLong => 71
  | storageFailure => 72
  | noProgram => 73

/-- The words for a cause. -/
def text : Cause → String
  | syntaxError => "SYNTAX ERROR"
  | invalidOperand => "INVALID OPERAND"
  | missingOperator => "MISSING OPERATOR"
  | overflow => "OVERFLOW"
  | divisionByZero => "DIVISION BY ZERO"
  | illegalDirect => "ILLEGAL DIRECT"
  | invalidIdentifier => "INVALID IDENTIFIER"
  | lineBufferOverflow => "LINE BUFFER OVERFLOW"
  | extraText => "UNEXPECTED TEXT"
  | missingQuote => "MISSING QUOTE"
  | indentNotAllowed => "INDENT NOT ALLOWED"
  | indentExpected => "INDENT EXPECTED"
  | indentMismatch => "UNMATCHED INDENT"
  | notInProgram => "ONLY IN PROGRAM"
  | elseWithoutIf => "ELSE WITHOUT IF"
  | endifWithoutIf => "ENDIF WITHOUT IF"
  | endwhileWithoutWhile => "ENDWHILE WITHOUT WHILE"
  | untilWithoutDo => "UNTIL WITHOUT DO"
  | breakOutsideLoop => "BREAK OUTSIDE LOOP"
  | continueOutsideLoop => "CONTINUE OUTSIDE LOOP"
  | blockNotClosed => "BLOCK NOT CLOSED"
  | nestingTooDeep => "NESTING TOO DEEP"
  | notCompiling => "END WITHOUT BEGIN"
  | programHasErrors => "PROGRAM HAS ERRORS"
  | immediateOnly => "NOT ALLOWED IN PROGRAM"
  | labelNotFound => "LABEL NOT FOUND"
  | missingDestination => "MISSING DESTINATION"
  | variableNotFound => "VARIABLE NOT FOUND"
  | unassignedVariable => "UNASSIGNED VARIABLE"
  | noRoomForVariable => "NO ROOM FOR VARIABLE"
  | nameTooLong => "NAME TOO LONG"
  | invalidReading => "INVALID READING"
  | storeFull => "PROGRAM STORE FULL"
  | statementTooLong => "STATEMENT TOO LONG"
  | storageFailure => "STORAGE FAILURE"
  | noProgram => "NO PROGRAM"

end Cause

/-- A cause with its circumstances. -/
structure Fault where
  cause : Cause
  /-- A remark on the cause, empty for none. -/
  note : String := ""
  /-- The program line at fault, counted from `begin`. A fault without one is direct. -/
  line : Option Nat := none
  /-- The source line or statement at fault. -/
  source : Option String := none
deriving DecidableEq, Repr

namespace Fault

/-- A cause and nothing more. -/
def of (cause : Cause) : Fault := { cause }

/-- A cause with a remark. -/
def noted (cause : Cause) (note : String) : Fault := { cause, note }

/-- The fault at a program line, or at no line. -/
def atLine (f : Fault) (line : Option Nat) : Fault := { f with line }

/-- The fault in a source, which is kept without the white space at its end. -/
def inSource (f : Fault) (source : String) : Fault :=
  { f with source := some (String.ofList (trimEnd source.toList)) }

/-- A fault is direct when it belongs to no program line. -/
def isDirect (f : Fault) : Bool := f.line.isNone

/-- The text of a fault: the words for its cause, then its line, note and source as far as
it has them. -/
def render (f : Fault) : String :=
  f.cause.text
    ++ f.line.elim "" (fun n => s!" IN {n}")
    ++ (if f.note.isEmpty then "" else s!"; {f.note}")
    ++ f.source.elim "" (fun s => s!": {s}")

end Fault

end ControlScript
