import ControlScript.Machine.Step
import ControlScript.Proofs.Names

/-!
# What a relation allows

Whatever is done to a machine is made of a few changes: of its variables, of its output, of what its
program is at, of what comes in. A relation between a machine and what becomes of it that allows
these changes allows all that is made of them. So what statements, bytes and ticks are made of is
said here once, and a part of the machine that none of the changes touches is seen to stay.

## Main definitions

* `Command.Within` — a command changes a machine as a relation allows
* `Machine.Allows` — a relation that allows what most statements change
* `Machine.AllowsAll` — a relation that allows all that statements and bytes change, but for delays

## Main results

* `Machine.within_perform_of_plain` — statements that are not about control or the program
* `Machine.within_perform_of_control` — statements of control
* `Machine.Allows.execute`, `Machine.Allows.tick` — a statement that is executed, and a tick
* `Machine.AllowsAll.perform`, `Machine.AllowsAll.receiveAll` — any statement, and what comes in
-/

namespace ControlScript

open Attempt

namespace Command

variable {α β : Type} {R : Machine → Machine → Prop}

/-- A command changes a machine only as a relation allows. -/
def Within (R : Machine → Machine → Prop) (x : Command α) : Prop := ∀ m, R m (reached (x m))

theorem Within.bind {x : Command α} {next : α → Command β}
    (trans : ∀ {k m n}, R k m → R m n → R k n) (first : x.Within R)
    (second : ∀ a, (next a).Within R) : (x >>= next).Within R := by
  intro m
  have before := first m
  rw [bind_apply]
  cases done : x m with
  | ok a n =>
    rw [done] at before
    exact trans before (second a n)
  | error f n =>
    rw [done] at before
    exact before

/-- A change of the machine that it was read for. -/
theorem Within.get_bind {next : Machine → Command β} (second : ∀ m, R m (reached (next m m))) :
    (get >>= next).Within R := fun m => second m

theorem within_modify {f : Machine → Machine} (change : ∀ m, R m (f m)) :
    (modify f : Command PUnit).Within R := change

end Command

namespace Machine

open Command

/-- Reading a text leaves the machine as it is. -/
theorem reached_scanning {α : Type} (x : Scan α) (text : Bytes) (m : Machine) :
    reached (scanning x text m) = m := by
  unfold scanning
  cases x text <;> rfl

theorem reached_ofExcept {α : Type} (result : Except Fault α) (m : Machine) :
    reached ((Attempt.ofExcept result : Command α) m) = m := by
  cases result <;> rfl

/-- A relation between machines that allows what most statements change. -/
structure Allows (R : Machine → Machine → Prop) : Prop where
  refl : ∀ m, R m m
  trans : ∀ {k m n}, R k m → R m n → R k n
  vars : ∀ m {vars}, m.vars.Becomes vars → R m { m with vars }
  outbox : ∀ m outbox, R m { m with outbox }
  diagnostics : ∀ m level, R m { m with diagnostics := level }

namespace Allows

variable {α : Type} {R : Machine → Machine → Prop} (allows : Allows R)
include allows

theorem pure (a : α) : (Pure.pure a : Command α).Within R := allows.refl

theorem get : (MonadState.get : Command Machine).Within R := allows.refl

theorem fail (cause : Cause) : Within R (Attempt.fail cause : Command α) := allows.refl

theorem ofExcept (result : Except Fault α) : Within R (Attempt.ofExcept result : Command α) := by
  intro m
  rw [reached_ofExcept]
  exact allows.refl m

theorem scanning (x : Scan α) (text : Bytes) : (Command.scanning x text).Within R := by
  intro m
  rw [reached_scanning]
  exact allows.refl m

theorem onVariables {x : Attempt Variables α}
    (becomes : ∀ vs : Variables, vs.Becomes (reached (x vs))) :
    (Command.onVariables x).Within R := by
  intro m
  have after := becomes m.vars
  unfold Command.onVariables Attempt.on
  cases done : x m.vars <;> (rw [done] at after; exact allows.vars m after)

theorem expression (text : Bytes) : (Command.expression text).Within R :=
  allows.get.bind allows.trans fun _ => (allows.scanning _ text).bind allows.trans fun _ =>
    allows.pure _

theorem write (dest : Destination) (output : Output) : (Command.write dest output).Within R :=
  within_modify fun m => allows.outbox m _

theorem diagnose (m : Machine) (level : Nat) (dest : Destination) (text : String) :
    R m (m.diagnose level dest text) := by
  unfold Machine.diagnose
  split
  · exact allows.outbox m _
  · exact allows.refl m

theorem setVariable (args : Bytes) : (Machine.setVariable args).Within R :=
  allows.get.bind allows.trans fun _ => (allows.scanning _ args).bind allows.trans fun _ =>
    (allows.onVariables fun vs => vs.becomes_findOrCreate _).bind allows.trans fun _ =>
      allows.onVariables fun vs => vs.becomes_set _ _

theorem viewVariable (args : Bytes) (dest : Destination) :
    (Machine.viewVariable args dest).Within R := by
  refine (allows.scanning _ args).bind allows.trans fun (name, _) =>
    allows.get.bind allows.trans fun m => (allows.ofExcept _).bind allows.trans fun (slot, _) => ?_
  dsimp only
  split <;> exact allows.write _ _

theorem branch (jump : ∀ label, (Machine.jump label).Within R) (outcome : Bool) (args : Bytes) :
    (Machine.branch outcome args).Within R := by
  refine allows.get.bind allows.trans fun m =>
    (allows.scanning _ args).bind allows.trans fun ((holds, label), _) => ?_
  dsimp only
  split
  · exact jump label
  · exact allows.pure _

theorem coinToss (jump : ∀ label, (Machine.jump label).Within R)
    (toss : ∀ m : Machine, R m { m with coin := m.coin.toss }) (args : Bytes) :
    (Machine.coinToss args).Within R := by
  refine (allows.scanning _ args).bind allows.trans fun (label, _) => .get_bind fun m => ?_
  rw [bind_apply, set_apply]
  dsimp only
  split
  · exact allows.trans (toss m) (jump label _)
  · exact toss m

end Allows

/-- A statement of control jumps, tosses the coin first, or is a delay of the program. -/
theorem within_perform_of_control {R : Machine → Machine → Prop} (allows : Allows R)
    (jump : ∀ label, (Machine.jump label).Within R)
    (toss : ∀ m : Machine, R m { m with coin := m.coin.toss }) {op : Opcode} {args : Bytes}
    {origin : Origin} (delay : op = .delay → origin = .program → (Machine.delay args).Within R)
    (control : op.category = .control) (dest : Destination) :
    (perform op args origin dest).Within R := by
  unfold perform
  split
  · exact allows.fail _
  · next inProgram =>
    cases op
    case delay =>
      cases origin with
      | live => exact absurd ⟨control, rfl⟩ inProgram
      | program => exact delay rfl rfl
    case label => exact allows.pure _
    case jump => exact (allows.scanning _ args).bind allows.trans fun _ => jump _
    case coinToss => exact allows.coinToss jump toss args
    case jumpIfTrue | jumpIfFalse => exact allows.branch jump _ args
    all_goals cases control

/-- A statement that is not about control or the program changes the variables, the output or the
level of diagnostics. -/
theorem within_perform_of_plain {R : Machine → Machine → Prop} (allows : Allows R) {op : Opcode}
    (noControl : op.category ≠ .control) (noRemote : op.category ≠ .remote) (args : Bytes)
    (origin : Origin) (dest : Destination) : (perform op args origin dest).Within R := by
  unfold perform
  rw [if_neg fun both => noControl both.1]
  cases op
  case delay | label | jump | coinToss | jumpIfTrue | jumpIfFalse => exact absurd rfl noControl
  case beginDownload | start | halt | pause | resume | clearProgram | endDownload | abortDownload =>
    exact absurd rfl noRemote
  case clearVariables => exact within_modify fun m => allows.vars m m.vars.becomes_clear
  case setVariable => exact allows.setVariable args
  case viewVariable => exact allows.viewVariable args dest
  case writeText | writeLine | version => exact allows.write _ _
  case writeValue => exact (allows.expression args).bind allows.trans fun _ => allows.write _ _
  case status => exact within_modify fun m => allows.outbox m _
  case diagnostics =>
    exact (allows.expression args).bind allows.trans fun _ =>
      within_modify fun m => allows.diagnostics m _
  case comment => exact allows.pure _

namespace Allows

variable {R : Machine → Machine → Prop} (allows : Allows R)
include allows

/-- A change of what the program is at. -/
theorem enterState (enters : ∀ m state, R m { m with program := state }) (m : Machine)
    (state : ProgramState) (dest : Destination) : R m (m.enterState state dest) := by
  unfold Machine.enterState
  split
  · exact allows.refl m
  · exact allows.trans (enters m state) (allows.diagnose _ 2 dest _)

/-- A statement changes a machine as a relation allows, if its opcode does: tracing it and reporting
its fault are output. -/
theorem execute {statement : Bytes} {origin : Origin} {dest : Destination}
    (performs : ∀ op, Opcode.ofStatement? statement = some op →
      (perform op (statement.drop 2) origin dest).Within R) (m : Machine) :
    R m (m.execute statement origin dest) := by
  have traced := allows.diagnose m 3 dest (Utf8.decode statement)
  unfold Machine.execute
  dsimp only
  cases named : Opcode.ofStatement? statement with
  | none => exact traced
  | some op =>
    have performed := performs op named (m.diagnose 3 dest (Utf8.decode statement))
    dsimp only
    cases done : perform op (statement.drop 2) origin dest
        (m.diagnose 3 dest (Utf8.decode statement)) with
    | ok _ n =>
      rw [done] at performed
      exact allows.trans traced performed
    | error f n =>
      rw [done] at performed
      exact allows.trans traced (allows.trans performed (allows.diagnose n 1 dest _))

section

variable (enters : ∀ m state, R m { m with program := state })
  (moves : ∀ m pc, R m { m with pc })
  (executes : ∀ m statement, R m (m.execute statement .program m.owner))
include enters moves executes

/-- A statement of the program, or its end. -/
theorem executeNext (m : Machine) : R m m.executeNext := by
  unfold Machine.executeNext
  split
  · exact allows.enterState enters m .stopped m.owner
  · next fetched _ =>
    dsimp only
    split
    · exact allows.trans (moves m fetched.next) (allows.diagnose _ 1 m.owner _)
    · have next := executes { m with pc := fetched.next } fetched.text
      exact allows.trans (moves m fetched.next) next

/-- A tick. -/
theorem tick (m : Machine) : R m m.tick := by
  unfold Machine.tick
  split
  · exact allows.refl m
  · exact allows.refl m
  · exact allows.executeNext enters moves executes m
  · split
    · exact allows.refl m
    · exact allows.trans (enters m .active) (allows.executeNext enters moves executes _)

end

end Allows

/-- A relation between machines that allows whatever statements and bytes change. Only a delay also
sets the deadline. -/
structure AllowsAll (R : Machine → Machine → Prop) : Prop extends Allows R where
  program : ∀ m state, R m { m with program := state }
  position : ∀ m pc owner, R m { m with pc, owner }
  coin : ∀ m coin, R m { m with coin }
  line : ∀ m line discarding, R m { m with line, discarding }
  stored : ∀ m filter store device, R m { m with filter, store, device }

namespace AllowsAll

variable {α : Type} {R : Machine → Machine → Prop} (allows : AllowsAll R)
include allows

theorem enterState (m : Machine) (state : ProgramState) (dest : Destination) :
    R m (m.enterState state dest) := allows.toAllows.enterState allows.program m state dest

theorem start (m : Machine) (dest : Destination) : R m (m.start dest) :=
  allows.trans (allows.position m 0 dest) (allows.enterState _ .active dest)

theorem jump (label : Bytes) : (Machine.jump label).Within R := by
  refine .get_bind fun m => ?_
  cases found : m.store.findLabel? label with
  | none => exact allows.refl m
  | some offset => exact allows.position m offset m.owner

theorem onStore (x : Attempt Store α) : (Command.onStore x).Within R := by
  intro m
  unfold Command.onStore Attempt.on
  cases x m.store <;> exact allows.stored m m.filter _ m.device

theorem beginDownload (dest : Destination) : (Machine.beginDownload dest).Within R := by
  refine (within_modify fun m => ?_).bind allows.trans fun _ =>
    (allows.onStore _).bind allows.trans fun _ => within_modify fun m => ?_
  · exact allows.trans (allows.enterState m .stopped dest) (allows.stored _ .fresh _ _)
  · exact allows.trans (allows.stored m m.filter m.store .storeProgram) (allows.diagnose _ 2 dest _)

theorem clearProgram (dest : Destination) : (Machine.clearProgram dest).Within R := by
  refine (within_modify fun m => ?_).bind allows.trans fun _ => allows.onStore _
  exact allows.trans (allows.enterState m .stopped dest) (allows.position _ 0 _)

theorem startProgram (dest : Destination) : (Machine.startProgram dest).Within R := by
  refine .get_bind fun m => ?_
  split
  · exact allows.refl m
  · exact allows.start m dest

theorem pause (m : Machine) (dest : Destination) : R m (m.pause dest) := by
  unfold Machine.pause
  split
  · exact allows.enterState m .paused dest
  · exact allows.refl m

theorem resume (m : Machine) (dest : Destination) : R m (m.resume dest) := by
  unfold Machine.resume
  split
  · exact allows.enterState m _ dest
  · exact allows.refl m

/-- What a statement does, if a delay is allowed or it is none. -/
theorem perform {op : Opcode} {args : Bytes} {origin : Origin}
    (delay : op = .delay → origin = .program → (Machine.delay args).Within R)
    (dest : Destination) : (Machine.perform op args origin dest).Within R := by
  by_cases control : op.category = .control
  · exact within_perform_of_control allows.toAllows allows.jump (fun m => allows.coin m _) delay
      control dest
  by_cases remote : op.category = .remote
  · unfold Machine.perform
    rw [if_neg fun both => control both.1]
    -- What is left are the statements about the program, which are allowed one by one.
    cases op
    case beginDownload => exact allows.beginDownload dest
    case start => exact allows.startProgram dest
    case halt => exact within_modify fun m => allows.enterState m .stopped dest
    case pause => exact within_modify fun m => allows.pause m dest
    case resume => exact within_modify fun m => allows.resume m dest
    case clearProgram => exact allows.clearProgram dest
    case endDownload | abortDownload => exact allows.toAllows.pure _
    all_goals cases remote
  · exact within_perform_of_plain allows.toAllows control remote args origin dest

theorem execute {statement : Bytes} {origin : Origin}
    (delay : Opcode.ofStatement? statement = some .delay → origin = .program →
      (Machine.delay (statement.drop 2)).Within R)
    (dest : Destination) (m : Machine) : R m (m.execute statement origin dest) :=
  allows.toAllows.execute (fun _ named => allows.perform (fun same => delay (same ▸ named)) dest) m

/-- A statement that comes in, which is no delay of the program. -/
theorem execute_live (m : Machine) (statement : Bytes) (dest : Destination) :
    R m (m.execute statement .live dest) :=
  allows.execute (fun _ inProgram => by cases inProgram) dest m

/-- A byte of a download. -/
theorem download (m : Machine) (b : UInt8) (dest : Destination) : R m (m.download b dest) := by
  have ended (filter : DownloadFilter) (store : Store) (text : String) :
      R m ({ m with filter, store, device := .executeImmediately, discarding := true }.remark dest
        text) :=
    allows.trans (allows.stored m filter store .executeImmediately)
      (allows.trans (allows.line _ m.line true) (allows.diagnose _ 2 dest text))
  unfold Machine.download
  split
  · exact allows.stored m _ _ m.device
  · exact allows.trans (ended _ _ _) (allows.start _ dest)
  · exact ended _ _ _
  · next f filter store _ =>
    -- A byte is missing, so the store is cleared. That this may fail too is only reported.
    have reported := allows.trans (allows.stored m filter (reached (Store.clear store)) m.device)
      (allows.diagnose _ 1 dest f.render)
    dsimp only
    split
    · exact reported
    · exact allows.trans reported (allows.diagnose _ 1 dest _)

/-- A byte of a statement, which is executed when it is complete. -/
theorem assemble (m : Machine) (b : UInt8) (dest : Destination) : R m (m.assemble b dest) := by
  unfold Machine.assemble
  split
  · dsimp only
    split
    · exact allows.line m [] false
    · exact allows.trans (allows.line m [] false) (allows.execute_live _ m.line dest)
  · split
    · exact allows.refl m
    · split
      · exact allows.trans (allows.line m [] true) (allows.diagnose _ 1 dest _)
      · exact allows.line m _ m.discarding

theorem receive (m : Machine) (b : UInt8) (dest : Destination) : R m (m.receive b dest) := by
  unfold Machine.receive
  split
  · exact allows.download m b dest
  · exact allows.assemble m b dest

/-- A delay, where its deadline is allowed too. -/
theorem delay (deadline : ∀ m deadline, R m { m with deadline }) (args : Bytes) :
    (Machine.delay args).Within R :=
  (allows.toAllows.expression args).bind allows.trans fun tenths => within_modify fun m =>
    allows.trans (deadline m (deadlineAfter m.now tenths)) (allows.program _ .awaitingDelay)

/-- A tick, where delays are allowed too. -/
theorem tick (delay : ∀ args, (Machine.delay args).Within R) (m : Machine) : R m m.tick :=
  allows.toAllows.tick allows.program (fun m pc => allows.position m pc m.owner)
    (fun m _ => allows.execute (fun _ _ => delay _) m.owner m) m

/-- Bytes that come in. -/
theorem receiveAll (m : Machine) (bytes : Bytes) (dest : Destination) :
    R m (m.receiveAll bytes dest) := by
  induction bytes generalizing m with
  | nil => exact allows.refl m
  | cons b bytes ih => exact allows.trans (allows.receive m b dest) (ih _)

end AllowsAll

end Machine

end ControlScript
