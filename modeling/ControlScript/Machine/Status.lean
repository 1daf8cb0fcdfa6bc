import ControlScript.Machine.Basic

/-!
# Status

What a machine tells about itself: in words, to whoever executes the statement for it, and
in full, to whoever looks after the machine.

## Main definitions

* `Machine.Status`, `Machine.status` — what a machine tells about itself
* `Machine.Status.render` — the text that a statement writes
* `Machine.describe` — a full description
-/

namespace ControlScript.Machine

/-- What a machine tells about itself. -/
structure Status where
  program : ProgramState
  device : DeviceState
  pc : Nat
  programLength : Nat
  programValid : Bool
  variableCount : Nat
  diagnostics : Nat
deriving DecidableEq, Repr

/-- What the machine tells about itself. -/
def status (m : Machine) : Status :=
  { program := m.program
    device := m.device
    pc := m.pc
    programLength := m.store.length
    programValid := m.store.valid
    variableCount := m.vars.size
    diagnostics := m.diagnostics }

namespace Status

/-- The word for the state of the program. -/
def programWord (s : Status) : String :=
  match s.program with
  | .stopped => "STOPPED"
  | .paused => "PAUSED"
  | .active => "ACTIVE"
  | .awaitingDelay => "DELAY"

/-- The word for the state of the machine. -/
def deviceWord (s : Status) : String :=
  match s.device with
  | .executeImmediately => "EXECUTE"
  | .storeProgram => "STORE"

/-- The text of a status. -/
def render (s : Status) : String :=
  let invalid := if s.programValid then "" else " INVALID"
  s!"PROGRAM {s.programWord} AT {s.pc}; DEVICE {s.deviceWord}; "
    ++ s!"{s.programLength} BYTES{invalid}; {s.variableCount} VARIABLES; "
    ++ s!"DIAGNOSTICS {s.diagnostics}"

/-- The name of the state of the program. -/
def programName (s : Status) : String :=
  match s.program with
  | .stopped => "Stopped"
  | .paused => "Paused"
  | .active => "Active"
  | .awaitingDelay => "AwaitingDelay"

/-- The name of the state of the machine. -/
def deviceName (s : Status) : String :=
  match s.device with
  | .executeImmediately => "ExecuteImmediately"
  | .storeProgram => "StoreProgram"

/-- A description of a status. -/
def describe (s : Status) : String :=
  s!"Status \x7b program: {s.programName}, device: {s.deviceName}, pc: {s.pc}, "
    ++ s!"program_len: {s.programLength}, program_valid: {s.programValid}, "
    ++ s!"variables: {s.variableCount}, diagnostics: {s.diagnostics} \x7d"

end Status

/-- A description of the machine. -/
def describe (m : Machine) : String :=
  s!"Runtime \x7b status: {m.status.describe}, store: {m.store.describe} \x7d"

end ControlScript.Machine
