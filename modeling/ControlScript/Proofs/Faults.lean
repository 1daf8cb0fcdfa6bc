import ControlScript.Machine.Statement
import ControlScript.Proofs.Expressions

/-!
# Causes that do not arise

What reads operands and labels has many causes to stop for, but that a label is missing from the
program is not among them: only a jump looks for a label. The same goes for whatever else a
statement does, as long as it neither jumps nor manages the program.

## Main definitions

* `Attempt.Avoids` — a computation that never stops for a cause
* `Command.Calm` — a command that leaves the program and the place in it alone

## Main results

* `Machine.calm_perform` — statements that neither jump nor manage the program are calm
-/

namespace ControlScript

namespace Attempt

variable {σ τ α β : Type} {cause : Cause}

/-- The fault of a sequence is that of one of its parts. -/
theorem exists_of_fault?_bind {x : Attempt σ α} {next : α → Attempt σ β} {s : σ} {f : Fault}
    (stopped : fault? ((x >>= next) s) = some f) :
    fault? (x s) = some f ∨ ∃ a t, x s = .ok a t ∧ fault? (next a t) = some f := by
  rw [bind_apply] at stopped
  cases done : x s with
  | ok a t =>
    rw [done] at stopped
    exact .inr ⟨a, t, rfl, stopped⟩
  | error e t =>
    rw [done] at stopped
    exact .inl stopped

theorem fault?_on (part : τ → σ) (replace : τ → σ → τ) (x : Attempt σ α) (t : τ) :
    fault? (x.on part replace t) = fault? (x (part t)) := by
  unfold on
  cases x (part t) <;> rfl

/-- A sequence of results that fails, fails in one of its parts. -/
theorem bind_eq_error {x : Except Fault α} {next : α → Except Fault β} {f : Fault}
    (stopped : x >>= next = .error f) : x = .error f ∨ ∃ a, x = .ok a ∧ next a = .error f := by
  cases x with
  | error g =>
    cases stopped
    exact .inl rfl
  | ok a => exact .inr ⟨a, rfl, stopped⟩

/-- A computation that never stops for a cause. -/
def Avoids (cause : Cause) (x : Attempt σ α) : Prop :=
  ∀ s f, fault? (x s) = some f → f.cause ≠ cause

/-- What does not stop at all avoids every cause. -/
theorem Avoids.of_ok {x : Attempt σ α} (goesOn : ∀ s, fault? (x s) = none) : x.Avoids cause := by
  intro s f stopped
  rw [goesOn s] at stopped
  cases stopped

theorem avoids_pure (a : α) : (pure a : Attempt σ α).Avoids cause := .of_ok fun _ => rfl

theorem avoids_get : (get : Attempt σ σ).Avoids cause := .of_ok fun _ => rfl

theorem avoids_modify (f : σ → σ) : (modify f : Attempt σ PUnit).Avoids cause := .of_ok fun _ => rfl

theorem avoids_fail {other : Cause} (apart : other ≠ cause) :
    (fail other : Attempt σ α).Avoids cause := by
  intro s f stopped
  cases stopped
  exact apart

theorem avoids_failNoting {other : Cause} (note : String) (apart : other ≠ cause) :
    (failNoting other note : Attempt σ α).Avoids cause := by
  intro s f stopped
  cases stopped
  exact apart

theorem avoids_ofExcept {result : Except Fault α}
    (apart : ∀ f, result = .error f → f.cause ≠ cause) :
    (ofExcept result : Attempt σ α).Avoids cause := by
  intro s f stopped
  cases result with
  | ok a => cases stopped
  | error e =>
    cases stopped
    exact apart f rfl

theorem Avoids.bind {x : Attempt σ α} {next : α → Attempt σ β} (first : x.Avoids cause)
    (second : ∀ a, (next a).Avoids cause) : (x >>= next).Avoids cause := by
  intro s f stopped
  obtain before | ⟨a, t, -, after⟩ := exists_of_fault?_bind stopped
  · exact first s f before
  · exact second a t f after

theorem Avoids.ite {condition : Prop} [Decidable condition] {x y : Attempt σ α}
    (first : x.Avoids cause) (second : y.Avoids cause) :
    (if condition then x else y).Avoids cause := by
  split
  · exact first
  · exact second

end Attempt

open Attempt

/-- A number outside the range of values is the only fault of arithmetic, division by zero
apart. -/
theorem Value.cause_of_ofWide {n : Int64} {f : Fault} (stopped : Value.ofWide n = .error f) :
    f.cause = .overflow := by
  rw [(Value.ofWide_eq_error_iff.mp stopped).1]
  rfl

theorem Operator.cause_of_apply {op : Operator} {a b : Value} {f : Fault}
    (stopped : op.apply a b = .error f) : f.cause = .overflow ∨ f.cause = .divisionByZero := by
  cases op
  case add | subtract | multiply => exact .inl (Value.cause_of_ofWide stopped)
  case divide =>
    simp only [apply] at stopped
    split at stopped
    · cases stopped
      exact .inr rfl
    · exact .inl (Value.cause_of_ofWide stopped)
  case modulus =>
    simp only [apply] at stopped
    split at stopped
    · cases stopped
      exact .inr rfl
    · obtain quotient | ⟨_, -, remainder⟩ := bind_eq_error stopped
      · exact .inl (Value.cause_of_ofWide quotient)
      · exact .inl (Value.cause_of_ofWide remainder)

theorem Literal.cause_of_value {l : Literal} {f : Fault} (stopped : l.value = .error f) :
    f.cause = .overflow := by
  unfold value at stopped
  split at stopped
  · cases stopped
    rfl
  · exact Value.cause_of_ofWide stopped

theorem Variables.cause_of_find {vs : Variables} {text : Bytes} {f : Fault}
    (stopped : vs.find text = .error f) :
    f.cause = .invalidIdentifier ∨ f.cause = .variableNotFound := by
  unfold find at stopped
  split at stopped
  · cases stopped
    exact .inl rfl
  · split at stopped
    · cases stopped
      exact .inr rfl
    · cases stopped

/-- A name is always found, or there is no variable with it. -/
theorem Variables.cause_of_find_of_isName {vs : Variables} {name : Bytes} {f : Fault}
    (named : name.IsName) (stopped : vs.find name = .error f) : f.cause = .variableNotFound := by
  simp only [find, show Bytes.identifier? name = some name from named] at stopped
  split at stopped
  · cases stopped
    rfl
  · cases stopped

theorem Variables.cause_of_get {vs : Variables} {slot : Nat} {f : Fault}
    (stopped : vs.get slot = .error f) :
    f.cause = .variableNotFound ∨ f.cause = .unassignedVariable := by
  unfold get at stopped
  split at stopped
  · cases stopped
    exact .inl rfl
  · split at stopped
    · cases stopped
      exact .inr rfl
    · cases stopped

theorem Operand.cause_of_value {scope : Scope} {o : Operand} {f : Fault}
    (stopped : o.value scope = .error f) : f.cause ≠ .labelNotFound := by
  match o with
  | .literal l => rw [Literal.cause_of_value stopped]; decide
  | .reading name =>
    simp only [value] at stopped
    split at stopped
    · cases stopped
      decide
    · cases stopped
  | .variable name =>
    obtain missing | ⟨place, -, unassigned⟩ := bind_eq_error stopped
    · rcases Variables.cause_of_find missing with cause | cause <;> rw [cause] <;> decide
    · rcases Variables.cause_of_get unassigned with cause | cause <;> rw [cause] <;> decide

theorem Condition.cause_of_holds {scope : Scope} {c : Condition} {f : Fault}
    (stopped : c.holds scope = .error f) : f.cause ≠ .labelNotFound := by
  obtain left | ⟨a, -, rest⟩ := bind_eq_error stopped
  · exact Operand.cause_of_value left
  obtain right | ⟨b, -, compared⟩ := bind_eq_error rest
  · exact Operand.cause_of_value right
  · cases compared

namespace Scan

theorem avoids_takeWhile (isMember : UInt8 → Bool) {cause : Cause} :
    (takeWhile isMember).Avoids cause := .of_ok fun _ => rfl

theorem avoids_skipSpaces {cause : Cause} : skipSpaces.Avoids cause := .of_ok fun _ => rfl

theorem avoids_eat (byte : UInt8) {cause : Cause} : (eat byte).Avoids cause := by
  refine .of_ok fun text => ?_
  unfold eat
  split <;> rfl

theorem avoids_name : name.Avoids .labelNotFound :=
  (avoids_takeWhile _).bind fun _ => .ite (avoids_pure _) (avoids_fail (by decide))

end Scan

open Scan

theorem Literal.avoids_scan : Literal.scan.Avoids .labelNotFound := by
  have signed : scanSign.Avoids .labelNotFound := by
    refine .of_ok fun text => ?_
    unfold scanSign
    repeat' split
    all_goals rfl
  refine signed.bind fun sign => (avoids_takeWhile _).bind fun digits => ?_
  refine .ite ((avoids_fail (by decide)).bind fun _ => ?_) ?_ <;>
    refine (avoids_ofExcept fun f stopped => ?_).bind fun _ => avoids_pure _
  all_goals
    rw [Literal.cause_of_value stopped]
    decide

namespace Operand

theorem avoids_scan (scope : Scope) : (scan scope).Avoids .labelNotFound := by
  have taken (count : Nat) : (Scan.take count).Avoids .labelNotFound := .of_ok fun _ => rfl
  have named : (scanVariable scope).Avoids .labelNotFound := by
    refine avoids_get.bind fun text => (avoids_ofExcept fun f stopped => ?_).bind fun place =>
      (taken _).bind fun _ => avoids_pure _
    rcases Variables.cause_of_find stopped with cause | cause <;> rw [cause] <;> decide
  have reading : (scanReading scope).Avoids .labelNotFound := by
    refine avoids_get.bind fun text => ?_
    cases scope.readings.find? text with
    | none => exact avoids_fail (by decide)
    | some place => exact (taken _).bind fun _ => avoids_pure _
  refine avoids_skipSpaces.bind fun _ => Avoids.bind (.of_ok fun _ => rfl) fun next => ?_
  cases next with
  | none => exact avoids_fail (by decide)
  | some b =>
    refine .ite named (.ite (Literal.avoids_scan.bind fun _ => avoids_pure _) (.ite ?_ ?_))
    · exact Avoids.bind (.of_ok fun _ => rfl) fun _ => reading
    · exact avoids_fail (by decide)

theorem avoids_evaluate (scope : Scope) : (evaluate scope).Avoids .labelNotFound :=
  (avoids_scan scope).bind fun _ => avoids_ofExcept fun _ stopped => cause_of_value stopped

end Operand

theorem Operator.avoids_scan? {cause : Cause} : Operator.scan?.Avoids cause := by
  refine .of_ok fun text => ?_
  unfold scan?
  repeat' split
  all_goals rfl

theorem Expression.avoids_evaluate (scope : Scope) :
    (Expression.evaluate scope).Avoids .labelNotFound := by
  refine (Operand.avoids_evaluate scope).bind fun a => avoids_skipSpaces.bind fun _ =>
    Avoids.bind (.of_ok fun _ => rfl) fun next => .ite (avoids_pure _) ?_
  refine Operator.avoids_scan?.bind fun operator => ?_
  cases operator with
  | none => exact avoids_fail (by decide)
  | some operator =>
    refine (Operand.avoids_evaluate scope).bind fun b => avoids_ofExcept fun f stopped => ?_
    rcases Operator.cause_of_apply stopped with cause | cause <;> rw [cause] <;> decide

namespace Scan

theorem avoids_target : target.Avoids .labelNotFound :=
  avoids_skipSpaces.bind fun _ => avoids_name

theorem avoids_assignment (scope : Scope) : (assignment scope).Avoids .labelNotFound :=
  avoids_target.bind fun _ => avoids_skipSpaces.bind fun _ => (avoids_eat _).bind fun _ =>
    .ite ((Expression.avoids_evaluate scope).bind fun _ => avoids_pure _)
      (avoids_failNoting _ (by decide))

end Scan

namespace Command

variable {α β : Type}

/-- A command that leaves the program and the place in it as they are, and that does not stop for
want of a label. -/
def Calm (x : Command α) : Prop :=
  ∀ m, (reached (x m)).store = m.store ∧ (reached (x m)).pc = m.pc ∧
    ∀ f, fault? (x m) = some f → f.cause ≠ .labelNotFound

theorem Calm.bind {x : Command α} {next : α → Command β} (first : x.Calm)
    (second : ∀ a, (next a).Calm) : Calm (x >>= next) := by
  intro m
  have before := first m
  rw [bind_apply]
  cases done : x m with
  | ok a n =>
    rw [done] at before
    have after := second a n
    exact ⟨after.1.trans before.1, after.2.1.trans before.2.1, after.2.2⟩
  | error f n =>
    rw [done] at before
    exact ⟨before.1, before.2.1, before.2.2⟩

theorem calm_pure (a : α) : Calm (pure a : Command α) := fun m => ⟨rfl, rfl, avoids_pure a m⟩

theorem calm_get : Calm (get : Command Machine) := fun m => ⟨rfl, rfl, avoids_get m⟩

theorem calm_modify {f : Machine → Machine} (store : ∀ m, (f m).store = m.store)
    (pc : ∀ m, (f m).pc = m.pc) : Calm (modify f : Command PUnit) :=
  fun m => ⟨store m, pc m, avoids_modify f m⟩

theorem calm_fail {cause : Cause} (apart : cause ≠ .labelNotFound) :
    Calm (fail cause : Command α) := fun m => ⟨rfl, rfl, avoids_fail apart m⟩

theorem calm_ofExcept {result : Except Fault α}
    (apart : ∀ f, result = .error f → f.cause ≠ .labelNotFound) :
    Calm (Attempt.ofExcept result : Command α) := fun m => by
  refine ⟨?_, ?_, avoids_ofExcept apart m⟩ <;> cases result <;> rfl

theorem calm_scanning {x : Scan α} (avoids : x.Avoids .labelNotFound) (text : Bytes) :
    (scanning x text).Calm := by
  intro m
  have apart := avoids text
  unfold scanning
  cases done : x text with
  | ok a rest => exact ⟨rfl, rfl, avoids_pure (a, rest) m⟩
  | error f rest =>
    rw [done] at apart
    exact ⟨rfl, rfl, apart⟩

theorem calm_onVariables {x : Attempt Variables α} (avoids : x.Avoids .labelNotFound) :
    (onVariables x).Calm := by
  intro m
  have apart := avoids m.vars
  unfold onVariables Attempt.on
  cases done : x m.vars with
  | ok a vars => exact ⟨rfl, rfl, avoids_pure a { m with vars }⟩
  | error f vars =>
    rw [done] at apart
    exact ⟨rfl, rfl, apart⟩

theorem calm_expression (text : Bytes) : (expression text).Calm :=
  calm_get.bind fun m => (calm_scanning (Expression.avoids_evaluate m.scope) text).bind fun _ =>
    calm_pure _

theorem calm_write (dest : Destination) (output : Output) : (write dest output).Calm :=
  calm_modify (fun _ => rfl) fun _ => rfl

end Command

/-- Whether a statement may go on elsewhere in the program. -/
def Opcode.isJump : Opcode → Bool
  | .jump | .coinToss | .jumpIfTrue | .jumpIfFalse => true
  | _ => false

namespace Machine

open Command

theorem calm_setVariable (args : Bytes) : (setVariable args).Calm := by
  refine calm_get.bind fun m => (calm_scanning (Scan.avoids_assignment m.scope) args).bind
    fun target => (calm_onVariables ?_).bind fun place => calm_onVariables ?_
  · intro vs f stopped
    unfold Variables.findOrCreate at stopped
    split at stopped
    · cases stopped
    · next g failed =>
      split at stopped
      · unfold Variables.create at stopped
        repeat' split at stopped
        all_goals
          cases stopped
          try decide
      · cases stopped
        rcases Variables.cause_of_find failed with cause | cause <;> rw [cause] <;> decide
  · intro vs f stopped
    unfold Variables.set at stopped
    split at stopped
    · cases stopped
      decide
    · cases stopped

theorem calm_viewVariable (args : Bytes) (dest : Destination) : (viewVariable args dest).Calm := by
  refine (calm_scanning Scan.avoids_target args).bind fun target => calm_get.bind fun m =>
    (calm_ofExcept fun f stopped => ?_).bind fun place => ?_
  · rcases Variables.cause_of_find stopped with cause | cause <;> rw [cause] <;> decide
  · obtain ⟨slot, length⟩ := place
    dsimp only
    split <;> exact calm_write _ _

theorem calm_delay (args : Bytes) : (delay args).Calm :=
  (calm_expression args).bind fun _ => calm_modify (fun _ => rfl) fun _ => rfl

/-- What neither jumps nor manages the program is calm. -/
theorem calm_perform {op : Opcode} (noJump : op.isJump = false) (inside : op.category ≠ .remote)
    (args : Bytes) (origin : Origin) (dest : Destination) : (perform op args origin dest).Calm := by
  unfold perform
  split
  · exact calm_fail (by decide)
  · cases op
    case delay => exact calm_delay args
    case setVariable => exact calm_setVariable args
    case viewVariable => exact calm_viewVariable args dest
    case writeText | writeLine | version => exact calm_write _ _
    case writeValue => exact (calm_expression args).bind fun _ => calm_write _ _
    case diagnostics =>
      exact (calm_expression args).bind fun _ => calm_modify (fun _ => rfl) fun _ => rfl
    case status | clearVariables => exact calm_modify (fun _ => rfl) fun _ => rfl
    case label | comment => exact calm_pure _
    case jump | coinToss | jumpIfTrue | jumpIfFalse => cases noJump
    all_goals exact absurd rfl inside

end Machine

end ControlScript
