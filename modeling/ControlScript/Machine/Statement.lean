import ControlScript.Machine.Status
import ControlScript.Store.LabelSearch
import ControlScript.Text.Utf8

/-!
# Executing statements

A statement is executed from its text, whether it has just come in or stands in the stored
program; only statements of control need a program around them. A fault is reported to
whoever the statement belongs to, and execution goes on.

## Main definitions

* `Machine.perform` — what an opcode does with its arguments
* `Machine.execute` — one statement
-/

namespace ControlScript

/-- Where a statement comes from. -/
inductive Origin where
  /-- It has just come in. -/
  | live
  /-- It stands in the stored program. -/
  | program
deriving DecidableEq, Repr

/-- A computation on a machine. -/
abbrev Command := Attempt Machine

namespace Command

variable {α : Type}

/-- The result of a scan, and what it leaves. -/
def scanning (x : Scan α) (text : Bytes) : Command (α × Bytes) :=
  match x text with
  | .ok a rest => pure (a, rest)
  | .error f _ => throw f

/-- The value of the expression that a text starts with. -/
def expression (text : Bytes) : Command Value := do
  let (value, _) ← scanning (Expression.evaluate (← get).scope) text
  return value

/-- Sends output to a destination. -/
def write (destination : Destination) (output : Output) : Command Unit :=
  modify (·.deliver destination output)

/-- A computation on the store. -/
def onStore (x : Attempt Store α) : Command α := x.on Machine.store fun m store => { m with store }

/-- A computation on the variables. -/
def onVariables (x : Attempt Variables α) : Command α :=
  x.on Machine.vars fun m vars => { m with vars }

end Command

/-- Reads the label that a jump goes to. -/
def Scan.label : Scan Bytes := do
  let _ ← skipSpaces
  let label ← takeWhile Byte.isNameChar
  if label.isEmpty then Attempt.fail .missingDestination
  else return label

/-- Reads a condition and the label after it. -/
def Scan.branch (scope : Scope) : Scan (Bool × Bytes) := do
  let holds ← Condition.evaluate scope
  let _ ← skipSpaces
  if ← eat Byte.comma then
    let label ← Scan.label
    return (holds, label)
  else Attempt.fail .missingDestination

/-- Reads the name of the variable that a statement is about. -/
def Scan.target : Scan Bytes := do
  let _ ← skipSpaces
  name

/-- Reads an assignment: a name and the value for it. -/
def Scan.assignment (scope : Scope) : Scan (Bytes × Value) := do
  let name ← target
  let _ ← skipSpaces
  if ← eat Byte.equals then
    let value ← Expression.evaluate scope
    return (name, value)
  else Attempt.failNoting .missingOperator "EXPECTED ="

namespace Machine

open Command

/-- Goes on at the statement that declares a label. -/
def jump (label : Bytes) : Command Unit := do
  let m ← get
  match m.store.findLabel? label with
  | none => Attempt.fail .labelNotFound
  | some offset => set { m with pc := offset }

/-- Goes on at a label if a toss of the coin falls heads. -/
def coinToss (args : Bytes) : Command Unit := do
  let (label, _) ← scanning Scan.label args
  let m ← get
  -- A toss counts even if the label turns out not to exist.
  set { m with coin := m.coin.toss }
  if m.coin.isHeads then jump label

/-- Goes on at a label if a condition has the given outcome. -/
def branch (outcome : Bool) (args : Bytes) : Command Unit := do
  let ((holds, label), _) ← scanning (Scan.branch (← get).scope) args
  if holds = outcome then jump label

/-- The end of a delay of some tenths of a second, which is no later than the last time. -/
def deadlineAfter (now : Nat) (tenths : Value) : Nat :=
  min (now + 100 * tenths.toInt.toNat) (timeRange - 1)

/-- Waits for some tenths of a second. -/
def delay (args : Bytes) : Command Unit := do
  let tenths ← expression args
  modify fun m =>
    { m with deadline := deadlineAfter m.now tenths, program := .awaitingDelay }

/-- Stops the program and stores another. -/
def beginDownload (dest : Destination) : Command Unit := do
  modify fun m => { m.enterState .stopped dest with filter := .fresh }
  onStore Store.beginDownload
  modify fun m => { m with device := .storeProgram }.remark dest "STORING PROGRAM"

/-- Starts the program, if there is one. -/
def startProgram (dest : Destination) : Command Unit := do
  let m ← get
  if !m.store.valid || m.store.isEmpty then Attempt.fail .noProgram
  else set (m.start dest)

/-- Pauses a running program. -/
def pause (m : Machine) (dest : Destination) : Machine :=
  if m.isRunning then m.enterState .paused dest else m

/-- Lets a paused program run on. A delay that has not ended goes on. -/
def resume (m : Machine) (dest : Destination) : Machine :=
  if m.program = .paused then
    m.enterState (if m.now < m.deadline then .awaitingDelay else .active) dest
  else m

/-- Stops the program and removes it. -/
def clearProgram (dest : Destination) : Command Unit := do
  modify fun m => { m.enterState .stopped dest with pc := 0 }
  onStore Store.clear

/-- Assigns to a variable, which comes into being if it is new. -/
def setVariable (args : Bytes) : Command Unit := do
  let ((name, value), _) ← scanning (Scan.assignment (← get).scope) args
  let (slot, _) ← onVariables (Variables.findOrCreate name)
  onVariables (Variables.set slot value)

/-- Writes the value of a variable, or that it has none. -/
def viewVariable (args : Bytes) (dest : Destination) : Command Unit := do
  let (name, _) ← scanning Scan.target args
  let m ← get
  let (slot, _) ← Attempt.ofExcept (m.vars.find name)
  match (m.vars.inSlot? slot).bind (·.value) with
  | some value => write dest (.value value)
  | none => write dest (.text "UNASSIGNED")

/-- The name and version that a machine gives. -/
def versionText : String := "scriptbox 0.3.0"

/-- What an opcode does with its arguments. -/
def perform (op : Opcode) (args : Bytes) (origin : Origin) (dest : Destination) :
    Command Unit := do
  if op.category = .control ∧ origin = .live then Attempt.fail .illegalDirect
  else
    match op with
    | .delay => delay args
    | .label => return ()
    | .jump =>
      let (label, _) ← scanning Scan.label args
      jump label
    | .coinToss => coinToss args
    | .jumpIfTrue => branch true args
    | .jumpIfFalse => branch false args
    | .beginDownload => beginDownload dest
    | .start => startProgram dest
    | .halt => modify (·.enterState .stopped dest)
    | .pause => modify (·.pause dest)
    | .resume => modify (·.resume dest)
    | .clearProgram => clearProgram dest
    | .endDownload | .abortDownload => return ()
    | .clearVariables => modify fun m => { m with vars := m.vars.clear }
    | .setVariable => setVariable args
    | .viewVariable => viewVariable args dest
    | .writeText => write dest (.text (Utf8.decode args))
    | .writeLine => write dest .lineBreak
    | .writeValue =>
      let value ← expression args
      write dest (.value value)
    | .version => write dest (.text versionText)
    | .status => modify fun m => m.deliver dest (.text m.status.render)
    | .diagnostics =>
      let level ← expression args
      modify (·.setDiagnostics level.toInt.toNat)
    | .comment => return ()

/-- Executes a statement. Its letters are the first two bytes; what stands after them are its
arguments. -/
def execute (m : Machine) (statement : Bytes) (origin : Origin) (dest : Destination) : Machine :=
  let m := m.diagnose 3 dest (Utf8.decode statement)
  match Opcode.ofStatement? statement with
  | none => m
  | some op =>
    match perform op (statement.drop 2) origin dest m with
    | .ok _ m => m
    | .error f m => m.report dest (f.inSource (Utf8.decode statement))

end Machine

end ControlScript
