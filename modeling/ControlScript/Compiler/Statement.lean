import ControlScript.Compiler.Basic
import ControlScript.Keyword

/-!
# Compiling statements

A source line is aligned with the open blocks by its indentation, and then its statement
is compiled. Less indentation closes blocks: all that were opened deeper than the line, and
the one that was opened at its indentation, which is left to the statement, because `else`,
`until` and the closing keywords treat it differently.

## Main definitions

* `Compile.align` — the rules of indentation
* `Compile.statement` — one statement, `begin` and `end` apart
-/

namespace ControlScript.Compile

/-- Applies the rules of indentation to a line. The result is the block opened at the line's
own indentation, if the line closes it; deeper blocks are closed here. Outside of programs
indentation means nothing. -/
def align (indent : Nat) : Compile (Option Block) := do
  let c ← compiler
  if !c.compiling then return none
  else if c.openedBlock then
    -- The demand for a deeper line is met or missed once; it is not repeated.
    update fun c => { c with openedBlock := false }
    if indent ≤ c.indent then Attempt.fail .indentExpected
    else
      update fun c => { c with indent }
      return none
  else if c.indent < indent then Attempt.fail .indentNotAllowed
  else if c.indent = indent then return none
  else
    let isDeeper : Block → Bool := fun b => indent < b.indent
    let deeper := c.blocks.items.takeWhile isDeeper
    let others := c.blocks.items.dropWhile isDeeper
    emitAll (deeper.flatMap Block.closing)
    -- A block with less indentation than the line stays open; one with as much is handed on.
    let opener := others.head?.filter (·.indent == indent)
    let items := if opener.isSome then others.tail else others
    -- Also a line that fits no block sets the indentation for the lines after it.
    update fun c => { c with indent, blocks := { c.blocks with items } }
    if opener.isSome then return opener
    else Attempt.fail .indentMismatch

/-- Assigns to a variable, which comes into being here if it is new. -/
def assignment : Compile Unit := do
  let name ← scanning Scan.name
  let _ ← scanning Scan.skipSpaces
  if ← scanning (Scan.eat Byte.equals) then
    -- The variable may stand on the right of its own first assignment.
    let _ ← onVariables (Variables.findOrCreate name)
    let value ← expression
    emit (.setVariable name value)
  else Attempt.failNoting .missingOperator "EXPECTED ="

/-- Waits for some seconds. -/
def wait : Compile Unit := do
  let seconds ← operand
  let ten : Operand := .literal { digits := Bytes.ofString "10" }
  emit (.delay (.binary seconds .multiply ten))

/-- Writes a quoted text. -/
def quotedText : Compile Unit := do
  scanning (Scan.skip 1)
  let text ← scanning (Scan.takeWhile (· != Byte.quote))
  if ← scanning (Scan.eat Byte.quote) then emit (.writeText text)
  else Attempt.fail .missingQuote

/-- Writes a text or a value. -/
def print : Compile Unit := do
  match ← scanning Scan.peek with
  | none => Attempt.fail .invalidOperand
  | some b =>
    if b = Byte.quote then quotedText
    else
      let value ← expression
      emit (.writeValue value)

/-- Writes a text or a value, if there is one, and a line break. -/
def println : Compile Unit := do
  match ← scanning Scan.peek with
  | none => emit .writeLine
  | some _ =>
    print
    emit .writeLine

/-- Starts the stored program. -/
def run : Compile Unit := do
  forbidProgram
  if (← compiler).programError then Attempt.fail .programHasErrors
  else emit .start

/-- Halts the running program. -/
def stop : Compile Unit := do
  forbidProgram
  emit .halt

/-- Opens a conditional. -/
def ifThen (indent : Nat) : Compile Unit := do
  requireProgram
  let holds ← condition
  let label ← allocateLabels
  emit (.jumpUnless holds label)
  openBlock { kind := .conditional, label, indent }

/-- Opens a loop that is repeated while a condition holds. -/
def whileLoop (indent : Nat) : Compile Unit := do
  requireProgram
  let holds ← condition
  let label ← allocateLabels
  emit (.declare label)
  emit (.jumpUnless holds (label + 1))
  openBlock { kind := .whileLoop, label, indent }

/-- Opens a loop without a condition at its top. -/
def plainLoop (kind : BlockKind) (indent : Nat) : Compile Unit := do
  requireProgram
  let label ← allocateLabels
  emit (.declare label)
  openBlock { kind, label, indent }

/-- Opens the second branch of a conditional. -/
def elseThen (matched : Option Block) (indent : Nat) : Compile Unit := do
  requireProgram
  match matched.filter fun b => b.kind = .conditional ∧ !b.elseSeen with
  | none => Attempt.fail .elseWithoutIf
  | some b =>
    emit (.jump (b.label + 1))
    emit (.declare b.label)
    openBlock { kind := .conditional, label := b.label + 1, indent, elseSeen := true }

/-- Closes a loop that is repeated until a condition holds. -/
def untilTrue (matched : Option Block) : Compile Unit := do
  requireProgram
  match matched.filter (·.kind = .doLoop) with
  | none => Attempt.fail .untilWithoutDo
  | some b =>
    let holds ← condition
    emit (.jumpUnless holds b.label)
    emit (.declare (b.label + 1))

/-- Closes a block of one of the given kinds. -/
def closer (kinds : List BlockKind) (otherwise : Cause) (matched : Option Block) :
    Compile Unit := do
  requireProgram
  match matched.filter (·.kind ∈ kinds) with
  | none => Attempt.fail otherwise
  | some b => closeBlock (some b)

/-- Leaves the innermost loop, or its current turn. -/
def leaveLoop (otherwise : Cause) (target : Block → Nat) : Compile Unit := do
  requireProgram
  match (← compiler).blocks.items.find? (·.kind.isLoop) with
  | none => Attempt.fail otherwise
  | some loop => emit (.jump (target loop))

/-- Compiles the statement of a line. `matched` is the block opened at the line's
indentation, if the line closes it. -/
def statement (keyword : Option Keyword) (matched : Option Block) (indent : Nat) :
    Compile Unit := do
  match keyword with
  | some .elseThen => elseThen matched indent
  | some .untilTrue => untilTrue matched
  | some .endif => closer [.conditional] .endifWithoutIf matched
  | some .endwhile => closer [.whileLoop, .foreverLoop] .endwhileWithoutWhile matched
  | some .forever =>
    closeBlock matched
    -- At the indentation of its `do`, the word closes that loop and opens none.
    if matched.any (·.kind = .doLoop) then return ()
    else plainLoop .foreverLoop indent
  | some .begin | some .finish => Attempt.fail .syntaxError
  | some .doLoop => closeBlock matched; plainLoop .doLoop indent
  | some .whileLoop => closeBlock matched; whileLoop indent
  | some .ifThen => closeBlock matched; ifThen indent
  | some .breakLoop =>
    closeBlock matched
    leaveLoop .breakOutsideLoop (·.label + 1)
  | some .continueLoop =>
    closeBlock matched
    leaveLoop .continueOutsideLoop (·.label)
  | some .delay =>
    closeBlock matched
    let tenths ← expression
    emit (.delay tenths)
  | some .wait => closeBlock matched; wait
  | some .print => closeBlock matched; print
  | some .println => closeBlock matched; println
  | some .clear => closeBlock matched; emit .clearVariables
  | some .run => closeBlock matched; run
  | some .stop => closeBlock matched; stop
  | some .set | none => closeBlock matched; assignment

end ControlScript.Compile
