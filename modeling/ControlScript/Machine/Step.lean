import ControlScript.Machine.Statement

/-!
# Driving a machine

Bytes come in one by one, and whenever there is nothing else to do the machine gets a tick,
in which it executes at most one statement of the stored program.

## Main definitions

* `Machine.receive` — one byte
* `Machine.tick`, `Machine.run` — one statement, or some, of the program
* `Machine.enter` — one line of script
-/

namespace ControlScript.Machine

/-- Takes a byte of a download. -/
def download (m : Machine) (b : UInt8) (dest : Destination) : Machine :=
  match DownloadFilter.process b (m.filter, m.store) with
  | .ok .more (filter, store) => { m with filter, store }
  | .ok .finished (filter, store) =>
    ({ m with filter, store, device := .executeImmediately, discarding := true }.remark dest
      "DOWNLOAD COMPLETE").start dest
  | .ok .aborted (filter, store) =>
    { m with filter, store, device := .executeImmediately, discarding := true }.remark dest
      "DOWNLOAD ABORTED"
  -- A program of which a byte is missing must not survive.
  | .error f (filter, store) =>
    let cleared := Store.clear store
    let m := { m with filter, store := Attempt.reached cleared }.report dest f
    match Attempt.fault? cleared with
    | none => m
    | some f => m.report dest f

/-- Takes a byte of a statement, which is executed when it is complete. -/
def assemble (m : Machine) (b : UInt8) (dest : Destination) : Machine :=
  if b = Byte.statementEnd then
    let next := { m with line := [], discarding := false }
    if m.discarding || m.line.isEmpty then next
    else next.execute m.line .live dest
  else if Byte.isControl b || m.discarding then m
  else if m.limits.statementLength ≤ m.line.length then
    { m with line := [], discarding := true }.report dest (.of .statementTooLong)
  else { m with line := m.line ++ [b] }

/-- Takes a byte. -/
def receive (m : Machine) (b : UInt8) (dest : Destination) : Machine :=
  match m.device with
  | .storeProgram => m.download b dest
  | .executeImmediately => m.assemble b dest

/-- Takes byte after byte. -/
def receiveAll (m : Machine) (bytes : Bytes) (dest : Destination) : Machine :=
  bytes.foldl (fun m b => m.receive b dest) m

theorem receiveAll_append (m : Machine) (a b : Bytes) (dest : Destination) :
    m.receiveAll (a ++ b) dest = (m.receiveAll a dest).receiveAll b dest := List.foldl_append

/-- Executes the next statement of the program, which ends where no statement is left. -/
def executeNext (m : Machine) : Machine :=
  match m.store.fetch? m.pc m.limits.statementLength with
  | none => m.enterState .stopped m.owner
  | some fetched =>
    let m := { m with pc := fetched.next }
    if fetched.truncated then m.report m.owner (.of .statementTooLong)
    else m.execute fetched.text .program m.owner

/-- Lets the program execute a statement, if it may. -/
def tick (m : Machine) : Machine :=
  match m.program with
  | .stopped | .paused => m
  | .active => m.executeNext
  | .awaitingDelay => if m.now < m.deadline then m else { m with program := .active }.executeNext

/-- A program that does not run is left alone. -/
theorem tick_of_not_isRunning {m : Machine} (idle : m.isRunning = false) : m.tick = m := by
  unfold tick
  cases state : m.program <;> simp_all [isRunning]

/-- Gives the machine ticks until its program stops, at most `limit` of them. -/
def run (m : Machine) : (limit : Nat) → Machine
  | 0 => m
  | limit + 1 =>
    let m := m.tick
    if m.isRunning then m.run limit else m

theorem run_of_not_isRunning {m : Machine} (idle : m.isRunning = false) (limit : Nat) :
    m.run limit = m := by
  cases limit <;> simp [run, tick_of_not_isRunning idle, idle]

/-- A run may be cut into two. -/
theorem run_add (m : Machine) (a b : Nat) : m.run (a + b) = (m.run a).run b := by
  induction a generalizing m with
  | zero => rw [Nat.zero_add]; rfl
  | succ a ih =>
    rw [Nat.add_right_comm]
    cases running : m.tick.isRunning
    · simp [run, running, run_of_not_isRunning running]
    · simp [run, running, ih]

/-- Compiles a line of script and takes the result as if it were typed in at the console. -/
def enter (m : Machine) (text : String) : Machine × Option Fault :=
  let compiled := m.compiler.compileLine m.vars m.readings text
  let m := { m with compiler := compiled.compiler, vars := compiled.vars }
  (m.receiveAll (Instruction.encode compiled.emitted) console, compiled.fault)

end ControlScript.Machine
