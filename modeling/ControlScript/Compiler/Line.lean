import ControlScript.Compiler.Statement

/-!
# Compiling lines

A line is blank, a comment, a raw statement after `*`, or a statement of the script
language. `begin` and `end` frame a program. Of a line with a fault nothing is kept but what
it has changed in the compiler and in the variables; and if it is an `end`, the program is
given up.

## Main definitions

* `Compile.line` — the work on one line
* `Compilation` — what compiling a line gives
* `Compiler.compileLine` — one line
-/

namespace ControlScript

namespace Compile

/-- A raw statement. In a program it must not start with `R`, because the download of the
program would take it as meant for itself. -/
def raw (indent : Nat) : Compile Unit := do
  let matched ← align indent
  closeBlock matched
  let text := (← get).rest
  if text.isEmpty then Attempt.failNoting .syntaxError "EMPTY DIRECT STATEMENT"
  else if (← compiler).compiling && text.head?.any (Byte.spells 'R') then
    Attempt.fail .immediateOnly
  else emit (.raw text)

/-- Insists on the end of the line. -/
def endOfLine : Compile Unit := do
  if (← get).rest.isEmpty then return ()
  else Attempt.fail .extraText

/-- Starts a program. A program that is being compiled is given up. -/
def beginProgram : Compile Unit := do
  endOfLine
  if (← compiler).compiling then emit .abortDownload
  update fun c =>
    { c.leave with compiling := true, programError := false, lineNumber := 0, nextLabel := 0 }
  emit .beginDownload

/-- Closes what can be closed at the end of a program and checks that nothing is left. -/
def lastChecks (indent : Nat) : Compile Unit := do
  let matched ← align indent
  closeBlock matched
  endOfLine
  let c ← compiler
  if c.depth ≠ 0 then Attempt.fail .blockNotClosed
  else if c.programError then Attempt.fail .programHasErrors
  else return ()

/-- Ends a program. Whatever the last checks say, it is no longer compiled. -/
def endProgram (indent : Nat) : Compile Unit := fun d =>
  if !d.compiler.compiling then .error (.of .notCompiling) d
  else
    match lastChecks indent d with
    | .ok _ d => emit .endDownload { d with compiler := d.compiler.leave }
    -- The flag outlives the program: nothing may be run until another one is begun.
    | .error f d => .error f { d with compiler := { d.compiler.leave with programError := true } }

/-- Reads the keyword of a line, if it has one, and the spaces after it. -/
def keyword : Compile (Option Keyword) := do
  match Keyword.ofLine? (← get).rest with
  | none => return none
  | some k =>
    scanning (Scan.skip k.word.length)
    let _ ← scanning Scan.skipSpaces
    return some k

/-- Compiles a line that is neither blank nor a comment nor raw. -/
def command (indent : Nat) : Compile Unit := do
  match ← keyword with
  | some .begin => beginProgram
  | some .finish => endProgram indent
  | k =>
    let matched ← align indent
    statement k matched indent
    let _ ← scanning Scan.skipSpaces
    endOfLine

/-- Compiles a line without the white space at its end. -/
def line : Compile Unit := do
  let indent ← scanning Scan.skipSpaces
  let text := (← get).rest
  if text.isEmpty || text.head? == some Byte.hash then return ()
  else if text.any Byte.isControl then Attempt.failNoting .syntaxError "CONTROL CHARACTER"
  else if ← scanning (Scan.eat Byte.star) then raw indent
  else command indent

/-- What a line is taken for, by what stands behind its indentation. -/
theorem line_apply (d : Draft) :
    line d =
      let indent := (d.rest.takeWhile (· == Byte.space)).length
      let e : Draft := { d with rest := d.rest.dropWhile (· == Byte.space) }
      if e.rest.isEmpty || e.rest.head? == some Byte.hash then .ok () e
      else if e.rest.any Byte.isControl then .error (.noted .syntaxError "CONTROL CHARACTER") e
      else if e.rest.head? = some Byte.star then raw indent { e with rest := e.rest.tail }
      else command indent e := by
  have skipped : scanning Scan.skipSpaces d = .ok (d.rest.takeWhile (· == Byte.space)).length
      { d with rest := d.rest.dropWhile (· == Byte.space) } := rfl
  rw [line, Attempt.bind_apply, skipped]
  dsimp only
  rw [Attempt.bind_apply, Attempt.get_apply]
  dsimp only
  split
  · rfl
  split
  · rfl
  by_cases star : (d.rest.dropWhile (· == Byte.space)).head? = some Byte.star
  · rw [if_pos star, Attempt.bind_apply]
    simp only [scanning, Attempt.on, Scan.eat, if_pos star]
    rfl
  · rw [if_neg star, Attempt.bind_apply]
    simp only [scanning, Attempt.on, Scan.eat, if_neg star]
    rfl

end Compile

/-- What compiling a line gives. -/
structure Compilation where
  compiler : Compiler
  vars : Variables
  /-- What the line was compiled to. -/
  emitted : List Instruction
  /-- What is wrong with the line. -/
  fault : Option Fault
deriving DecidableEq, Repr

namespace Compiler

/-- Compiles a line, unless it is too long. -/
def draft (c : Compiler) (scope : Scope) (text : String) : EStateM.Result Fault Draft Unit :=
  let trimmed := trimEnd text.toList
  let start : Draft := { rest := Bytes.ofChars trimmed, compiler := c, scope }
  if c.lineLength < (Bytes.ofString text).length then .error (.of .lineBufferOverflow) start
  else Compile.line start

/-- Compiles one line. A faulty line of a program marks the program as faulty; one that
ends the program gives it up, and nothing else is produced from a faulty line. -/
def compileLine (c : Compiler) (vars : Variables) (readings : Readings) (text : String) :
    Compilation :=
  let counted := c.countLine
  match counted.draft { vars, readings } text with
  | .ok _ d =>
    { compiler := d.compiler, vars := d.scope.vars, emitted := d.emitted, fault := none }
  | .error f d =>
    let inProgram := d.compiler.compiling
    { compiler := { d.compiler with programError := inProgram || d.compiler.programError }
      vars := d.scope.vars
      -- A download that is under way must not be left open.
      emitted := if c.compiling && !inProgram then [.abortDownload] else []
      fault := some ((f.atLine (if c.compiling then some counted.lineNumber else none)).inSource
        text) }

end Compiler

end ControlScript
