import ControlScript.Coin
import ControlScript.Compiler.Line
import ControlScript.Machine.Output
import ControlScript.Store.Download

/-!
# The machine

A machine holds everything that running a script needs: compiler, variables, program store,
the running program, and the statement that is just coming in. It is driven from outside, by
bytes and by ticks, and it never waits: a delay is a deadline.

## Main definitions

* `ProgramState`, `DeviceState` — what the program and the machine are at
* `Machine` — the state of a machine
* `Machine.fresh`, `Machine.ofLimits` — machines at their start
* `Machine.deliver`, `Machine.report`, `Machine.remark` — output and diagnostics
* `Machine.enterState`, `Machine.start` — the life of a program

Diagnostics have levels: `1` shows faults, `2` also what happens to the program, and `3` also
every statement.
-/

namespace ControlScript

/-- What the stored program is at. -/
inductive ProgramState where
  | stopped
  | paused
  | active
  /-- Running, but waiting for a deadline. -/
  | awaitingDelay
deriving DecidableEq, Repr

/-- What the machine does with the bytes that come in. -/
inductive DeviceState where
  | executeImmediately
  /-- The bytes pass the download filter into the store. -/
  | storeProgram
deriving DecidableEq, Repr

/-- A machine. -/
structure Machine where
  limits : Limits
  compiler : Compiler
  vars : Variables
  readings : Readings := {}
  store : Store
  filter : DownloadFilter := {}
  /-- The time, in milliseconds. -/
  now : Nat := 0
  coin : Coin
  /-- The output that has not been taken yet. -/
  outbox : Array Delivery := #[]
  program : ProgramState := .stopped
  device : DeviceState := .executeImmediately
  /-- Where the next statement of the program starts. -/
  pc : Nat := 0
  /-- When the last delay ends. -/
  deadline : Nat := 0
  /-- Who started the program. -/
  owner : Destination := console
  /-- The statement that is coming in. -/
  line : Bytes := []
  /-- Whether the rest of the line that is coming in is dropped. -/
  discarding : Bool := false
  /-- The level of diagnostics. -/
  diagnostics : Nat := 0
deriving DecidableEq, Repr

namespace Machine

/-- A machine at its start, with any coin. -/
def fresh (limits : Limits) (store : Store) (coin : Coin) : Machine :=
  { limits, store, coin
    compiler := .ofLimits limits
    vars := .ofLimits limits }

/-- A machine at its start, with the coin that belongs to a seed. -/
def ofLimits (limits : Limits) (store : Store) (seed : UInt64) : Machine :=
  .fresh limits store (.ofSeed seed)

/-- The highest level of diagnostics. -/
def maxDiagnostics : Nat := 3

/-- Sets the level of diagnostics, or the highest if it is above that. -/
def setDiagnostics (m : Machine) (level : Nat) : Machine :=
  { m with diagnostics := min level maxDiagnostics }

/-- Times are numbers of 64 bits. -/
def timeRange : Nat := UInt64.size

/-- Sets the clock. -/
def setClock (m : Machine) (time : Nat) : Machine := { m with now := time % timeRange }

/-- Moves the clock on. -/
def advanceClock (m : Machine) (millis : Nat) : Machine := m.setClock (m.now + millis)

/-- What names refer to while the machine runs. -/
def scope (m : Machine) : Scope := { vars := m.vars, readings := m.readings }

/-- Whether the program runs, even if it waits. -/
def isRunning (m : Machine) : Bool := m.program = .active ∨ m.program = .awaitingDelay

/-- Sends output to a destination. -/
def deliver (m : Machine) (destination : Destination) (output : Output) : Machine :=
  { m with outbox := m.outbox.push { destination, output } }

/-- Takes the output so far. -/
def takeOutput (m : Machine) : List Delivery × Machine :=
  (m.outbox.toList, { m with outbox := #[] })

/-- Sends a diagnostic, if diagnostics of its level are shown. -/
def diagnose (m : Machine) (level : Nat) (destination : Destination) (text : String) : Machine :=
  if level ≤ m.diagnostics then m.deliver destination (.diagnostic text) else m

/-- Reports a fault. -/
def report (m : Machine) (destination : Destination) (f : Fault) : Machine :=
  m.diagnose 1 destination f.render

/-- Remarks on what happens to the program. -/
def remark (m : Machine) (destination : Destination) (text : String) : Machine :=
  m.diagnose 2 destination text

/-- The remark on a state that the program has come to. -/
def stateRemark : ProgramState → String
  | .stopped => "PROGRAM STOPPED"
  | .paused => "PROGRAM PAUSED"
  | .active => "PROGRAM ACTIVE"
  | .awaitingDelay => "PROGRAM DELAYED"

/-- Brings the program to a state, with a remark if it was in another. -/
def enterState (m : Machine) (state : ProgramState) (destination : Destination) : Machine :=
  if m.program = state then m
  else { m with program := state }.remark destination (stateRemark state)

/-- Starts the stored program from its first statement. -/
def start (m : Machine) (destination : Destination) : Machine :=
  { m with pc := 0, owner := destination }.enterState .active destination

/-- Stops the program. -/
def interrupt (m : Machine) : Machine := m.enterState .stopped m.owner

/-- The value of the variable with exactly this name, if it has one. -/
def valueOf (m : Machine) (name : Bytes) : Option Value := m.vars.value? name

end Machine

end ControlScript
