import ControlScript.Instruction
import ControlScript.Limits
import ControlScript.Stack

/-!
# The state of the compiler

A compiler takes one source line at a time. Between `begin` and `end` it keeps the blocks
that are open and the indentation of the line before; it never looks back at what it has
produced. Jumps go to labels, two of which are set apart for each block that is opened.

## Main definitions

* `Block`, `Block.closing` — an open block, and the instructions that close it
* `Compiler` — the state that is kept from line to line
* `Draft`, `Compile` — the work on one line
* `Compile.scanning`, `Compile.emit`, `Compile.openBlock`, `Compile.requireProgram` — the
  single steps of that work
-/

namespace ControlScript

/-- What opened a block. -/
inductive BlockKind where
  | conditional
  | whileLoop
  | foreverLoop
  /-- Opened by `do`, closed by `until` or `forever`. -/
  | doLoop
deriving DecidableEq, Repr

/-- Whether the lines of a block are repeated. -/
def BlockKind.isLoop (k : BlockKind) : Bool := k != .conditional

/-- An open block. -/
structure Block where
  kind : BlockKind
  /-- The top of a loop, whose exit is the next label; for a conditional, the label that
  its closing declares. Like all labels, a number that is meant to have 32 bits. -/
  label : Nat
  /-- The indentation of the line that opened the block. -/
  indent : Nat
  /-- Whether this is the second branch of a conditional. -/
  elseSeen : Bool := false
deriving DecidableEq, Repr

/-- The instructions that close a block. -/
def Block.closing (b : Block) : List Instruction :=
  if b.kind.isLoop then [.jump b.label, .declare (b.label + 1)] else [.declare b.label]

/-- A compiler between two lines. -/
structure Compiler where
  /-- The longest line it accepts. -/
  lineLength : Nat
  /-- The open blocks. -/
  blocks : Stack Block
  /-- The indentation of the current block. -/
  indent : Nat := 0
  /-- Whether the line before opened a block, so that the next one must be indented more. -/
  openedBlock : Bool := false
  /-- The first label that has not been given away. Two are given away for each block, and they are
  meant to have 32 bits: a program that opens `2 ^ 31` blocks or more is out of range. -/
  nextLabel : Nat := 0
  /-- Whether the lines belong to a program. -/
  compiling : Bool := false
  /-- The number of the line in its program. -/
  lineNumber : Nat := 0
  /-- Whether the current or the last program has a fault. -/
  programError : Bool := false
deriving DecidableEq, Repr

namespace Compiler

/-- A compiler that has not seen a line. -/
def ofLimits (limits : Limits) : Compiler :=
  { lineLength := limits.lineLength
    blocks := { limit := limits.nesting, note := "TOO MANY NESTED BLOCKS" } }

/-- The number of open blocks. -/
def depth (c : Compiler) : Nat := c.blocks.depth

/-- The compiler outside of programs, with no block open. -/
def leave (c : Compiler) : Compiler :=
  { c with compiling := false, indent := 0, openedBlock := false, blocks := c.blocks.clear }

/-- The greatest line number; lines after it keep it. -/
def lastLine : Nat := 65535

/-- The compiler with one more line of the program counted. -/
def countLine (c : Compiler) : Compiler :=
  if c.compiling then { c with lineNumber := min (c.lineNumber + 1) lastLine } else c

@[simp] theorem lineLength_countLine (c : Compiler) : c.countLine.lineLength = c.lineLength := by
  unfold countLine
  split <;> rfl

@[simp] theorem compiling_countLine (c : Compiler) : c.countLine.compiling = c.compiling := by
  unfold countLine
  split <;> rfl

@[simp] theorem programError_countLine (c : Compiler) :
    c.countLine.programError = c.programError := by
  unfold countLine
  split <;> rfl

end Compiler

/-- The work on one line. -/
structure Draft where
  /-- What is left of the line. -/
  rest : Bytes
  compiler : Compiler
  /-- What names refer to. -/
  scope : Scope
  /-- The instructions so far. -/
  emitted : List Instruction := []
deriving DecidableEq, Repr

/-- A computation on the work on one line. -/
abbrev Compile := Attempt Draft

namespace Compile

variable {α : Type}

/-- A scan of what is left of the line. -/
def scanning (x : Scan α) : Compile α := x.on Draft.rest fun d rest => { d with rest }

/-- A computation on the variables. -/
def onVariables (x : Attempt Variables α) : Compile α :=
  x.on (·.scope.vars) fun d vars => { d with scope := { d.scope with vars } }

/-- A computation on the open blocks. -/
def onBlocks (x : Attempt (Stack Block) α) : Compile α :=
  x.on (·.compiler.blocks) fun d blocks => { d with compiler := { d.compiler with blocks } }

/-- The compiler as it is now. -/
def compiler : Compile Compiler := fun d => .ok d.compiler d

/-- Changes the compiler. -/
def update (f : Compiler → Compiler) : Compile Unit := fun d =>
  .ok () { d with compiler := f d.compiler }

/-- Appends instructions. -/
def emitAll (instructions : List Instruction) : Compile Unit := fun d =>
  .ok () { d with emitted := d.emitted ++ instructions }

/-- Appends an instruction. -/
def emit (instruction : Instruction) : Compile Unit := emitAll [instruction]

/-- Insists on a program. -/
def requireProgram : Compile Unit := do
  if (← compiler).compiling then return ()
  else Attempt.fail .notInProgram

/-- Insists on the absence of a program. -/
def forbidProgram : Compile Unit := do
  if (← compiler).compiling then Attempt.fail .immediateOnly
  else return ()

/-- Sets two labels apart: the one returned and the next. -/
def allocateLabels : Compile Nat := do
  let c ← compiler
  update fun c => { c with nextLabel := c.nextLabel + 2 }
  return c.nextLabel

/-- Opens a block. The next line must be indented more. -/
def openBlock (block : Block) : Compile Unit := do
  onBlocks (Stack.push block)
  update fun c => { c with openedBlock := true }

/-- Closes a block that has been taken off the stack, if there is one. -/
def closeBlock (block : Option Block) : Compile Unit :=
  emitAll (block.elim [] Block.closing)

/-- Reads an operand. -/
def operand : Compile Operand := do
  let d ← get
  scanning (Operand.scan d.scope)

/-- Reads an expression. -/
def expression : Compile Expression := do
  let d ← get
  scanning (Expression.scan d.scope)

/-- Reads a condition. -/
def condition : Compile Condition := do
  let d ← get
  scanning (Condition.scan d.scope)

end Compile

end ControlScript
