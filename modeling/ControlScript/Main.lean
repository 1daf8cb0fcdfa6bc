import ControlScript.Machine.Step

/-!
# Console

Reads lines of script from the standard input, enters them into a machine with the default
limits, and shows what the machine writes. A program that was started runs until it stops
before the next line is read.
-/

namespace ControlScript.Console

/-- The number of statements that are executed before output is shown. -/
def statementsPerTurn : Nat := 5000

/-- The prompt: how many blocks are open, while a program is being compiled. -/
def prompt (m : Machine) : String :=
  if m.compiler.compiling then s!"{m.compiler.depth}| " else "> "

/-- Shows the output so far. -/
def showOutput (m : Machine) : IO Machine := do
  let (deliveries, rest) := m.takeOutput
  for delivery in deliveries do
    IO.print delivery.output.render
  return rest

/-- Lets the program run until it stops. -/
partial def runProgram (m : Machine) : IO Machine := do
  let time ← IO.monoMsNow
  let m ← showOutput ((m.setClock time).run statementsPerTurn)
  if m.isRunning then
    if m.program = .awaitingDelay then IO.sleep 5
    runProgram m
  else return m

/-- Enters line after line. -/
partial def readLines (input output : IO.FS.Stream) (m : Machine) : IO Unit := do
  let m ← runProgram m
  IO.print (prompt m)
  output.flush
  let line ← input.getLine
  if line.isEmpty then return ()
  let time ← IO.monoMsNow
  let (m, fault) := (m.setClock time).enter (String.ofList (line.toList.filter (· != '\n')))
  match fault with
  | none => readLines input output m
  | some f =>
    IO.println f.render
    readLines input output m

end ControlScript.Console

open ControlScript in
/-- Runs the console with faults shown. -/
def main : IO Unit := do
  let limits : Limits := {}
  let seed ← IO.monoMsNow
  let m := Machine.ofLimits limits (.ofLimits limits) (UInt64.ofNat seed)
  Console.readLines (← IO.getStdin) (← IO.getStdout) (m.setDiagnostics 1)
