import ControlScript.Proofs.Interpretation
import ControlScript.Proofs.Jumps
import ControlScript.Proofs.Ticks

/-!
# Executing instructions

What the statement of an instruction does to a machine that shows no diagnostics: the same as the
instruction does to the variables and the output of a script, and nothing else that matters to a
program.

## Main definitions

* `Instruction.work` — what an instruction does to a memory
* `Machine.Carries` — a machine that runs a program has the variables and the output of a memory

## Main results

* `Action.perform_eq_foldl` — the instructions for an action do what the action does
* `Machine.Carries.execute` — executing an instruction
-/

namespace ControlScript

open Instruction

namespace Scan

/-- An assignment is read from its statement. -/
theorem assignment_text (scope : Scope) {name : Bytes} {e : Expression} (named : name.IsName)
    (proper : e.Proper) :
    (assignment scope).Gives (name ++ Byte.equals :: e.text)
      (e.value scope >>= fun v => .ok (name, v)) [] := by
  obtain ⟨b, tail, rfl, start, -⟩ := named.exists_cons
  have solid : b ≠ Byte.space := by rintro rfl; exact absurd start (by decide)
  have ends : Bytes.Ends (Byte.equals :: e.text) := Bytes.ends_cons (by decide)
  have run := takeWhile_append_of_ends named.isNameChar ends
  have read : target ((b :: tail) ++ Byte.equals :: e.text) =
      .ok (b :: tail) (Byte.equals :: e.text) := by
    have skipped : target ((b :: tail) ++ Byte.equals :: e.text) =
        Scan.name ((b :: tail) ++ Byte.equals :: e.text) := by
      simp only [target, Attempt.bind_apply, List.cons_append, skipSpaces_of_ne _ solid]
    rw [skipped, name_apply, run.1, run.2]
    simp [start]
  refine Gives.bind_ok read (Gives.bind_ok (skipSpaces_of_ne _ (by decide)) ?_)
  refine Gives.bind_ok (show eat Byte.equals (Byte.equals :: e.text) = _ from rfl) ?_
  exact (Expression.evaluate_text scope proper).bind fun v _ => .of_eq rfl

end Scan

/-- What an instruction does to the variables and the output of a script. -/
def Instruction.work (readings : Readings) (i : Instruction) (memory : Memory) : Memory :=
  match i with
  | .setVariable name value =>
    match value.value (memory.scope readings) with
    | .ok v => memory.assign name v
    | .error _ => memory
  | .clearVariables => { memory with vars := memory.vars.clear }
  | .writeText text => memory.write (.text (Utf8.decode text))
  | .writeValue e =>
    match e.value (memory.scope readings) with
    | .ok v => memory.write (.value v)
    | .error _ => memory
  | .writeLine => memory.write .lineBreak
  | _ => memory

/-- The instructions for an action do what the action does. -/
theorem Action.perform_eq_foldl (readings : Readings) (a : Action) (memory : Memory) :
    a.perform readings memory = a.code.foldl (fun memory i => i.work readings memory) memory := by
  cases a with
  | print what => cases what <;> rfl
  | println what =>
    cases what with
    | none => rfl
    | some what => cases what <;> rfl
  | _ => rfl

/-- Whether execution goes on at the next instruction and keeps the program. -/
def Instruction.IsPlain : Instruction → Prop
  | .declare _ | .delay _ | .setVariable _ _ | .clearVariables | .writeText _ | .writeValue _
  | .writeLine => True
  | _ => False

/-- The instructions for an action go on at the next one. -/
theorem Action.isPlain_of_mem_code {a : Action} (interpreted : ∀ statement, a ≠ .raw statement) :
    a.code ≠ [] ∧ ∀ i ∈ a.code, i.IsPlain := by
  match a with
  | .raw statement => exact absurd rfl (interpreted statement)
  | .assign _ _ | .clear | .delay _ | .wait _ | .print (.text _) | .print (.value _)
  | .println none | .println (some (.text _)) | .println (some (.value _)) =>
    exact ⟨List.cons_ne_nil _ _, by simp [code, Printed.instruction, Instruction.IsPlain]⟩

namespace Machine

open Command

/-- A machine that runs the program of `base` has the variables and the output of a memory. -/
structure Carries (base : Machine) (memory : Memory) (m : Machine) : Prop where
  store : m.store = base.store
  limits : m.limits = base.limits
  readings : m.readings = base.readings
  owner : m.owner = base.owner
  quiet : m.diagnostics = 0
  running : m.isRunning = true
  ends : m.program = .awaitingDelay → m.deadline < timeRange
  vars : m.vars = memory.vars
  outbox : m.outbox.toList = base.outbox.toList ++ memory.output.map (Delivery.mk base.owner)

variable {base m : Machine} {memory : Memory} {i : Instruction}

theorem Carries.scope (carries : Carries base memory m) : m.scope = memory.scope base.readings := by
  rw [Machine.scope, Memory.scope, carries.vars, carries.readings]

theorem Carries.write (carries : Carries base memory m) (output : Output) :
    Carries base (memory.write output) (m.deliver m.owner output) :=
  { carries with
    outbox := by simp [deliver, Memory.write, carries.outbox, carries.owner] }

theorem Carries.setVars (carries : Carries base memory m) (vars : Variables) :
    Carries base { memory with vars } { m with vars } :=
  { carries with vars := rfl }

/-- Without diagnostics, a fault shows nowhere. -/
theorem report_of_quiet (quiet : m.diagnostics = 0) (dest : Destination) (f : Fault) :
    m.report dest f = m := if_neg (by omega)

theorem enterState_of_quiet (quiet : m.diagnostics = 0) (state : ProgramState)
    (dest : Destination) : m.enterState state dest = { m with program := state } := by
  unfold enterState
  split
  · next same => rw [← same]
  · exact if_neg (show ¬2 ≤ m.diagnostics by omega)

/-- Executing an instruction is what its opcode does. -/
theorem Carries.execute_of_perform {after : Memory} {pc : Nat} {op : Opcode}
    (carries : Carries base memory m) (named : i.opcode? = some op)
    (performed : Carries base after
        (Attempt.reached (perform op (i.text.drop 2) .program m.owner m)) ∧
      (Attempt.reached (perform op (i.text.drop 2) .program m.owner m)).pc = pc) :
    Carries base after (m.execute i.text .program m.owner) ∧
      (m.execute i.text .program m.owner).pc = pc := by
  have read := ofStatement?_of_opcode? named
  have shown : m.diagnose 3 m.owner (Utf8.decode i.text) = m := by
    have quiet := carries.quiet
    exact if_neg (by omega)
  have executed : m.execute i.text .program m.owner =
      Attempt.reached (perform op (i.text.drop 2) .program m.owner m) := by
    simp only [execute, shown, read]
    cases done : perform op (i.text.drop 2) .program m.owner m with
    | ok _ n => rfl
    | error f n =>
      rw [done] at performed
      exact report_of_quiet performed.1.quiet _ _
  rw [executed]
  exact performed

/-- The value of an expression is read from its text. -/
theorem expression_text {e : Expression} (proper : e.Proper) (m : Machine) :
    expression e.text m = match e.value m.scope with
      | .ok v => .ok v m
      | .error f => .error f m := by
  simp only [expression, Attempt.bind_apply, Attempt.get_apply,
    scanning_of_gives (Expression.evaluate_text m.scope proper)]
  cases e.value m.scope <;> rfl

/-- A delay waits for the value of its expression, if that has one. -/
theorem delay_text {e : Expression} (proper : e.Proper) (m : Machine) :
    delay e.text m = match e.value m.scope with
      | .ok v => .ok () { m with deadline := deadlineAfter m.now v, program := .awaitingDelay }
      | .error f => .error f m := by
  rw [delay, Attempt.bind_apply, expression_text proper]
  cases e.value m.scope <;> rfl

/-- An assignment gives the variable the value of its expression, if that has one. -/
theorem setVariable_text {name : Bytes} {e : Expression} (named : name.IsName)
    (proper : e.Proper) (m : Machine) :
    setVariable (name ++ Byte.equals :: e.text) m = match e.value m.scope with
      | .ok v => (onVariables (Variables.findOrCreate name) >>= fun place =>
          onVariables (Variables.set place.1 v)) m
      | .error f => .error f m := by
  simp only [setVariable, Attempt.bind_apply, Attempt.get_apply,
    scanning_of_gives (Scan.assignment_text m.scope named proper)]
  cases e.value m.scope <;> rfl

theorem eq_of_findOrCreate_error {vs vs' : Variables} {text : Bytes} {f : Fault}
    (failed : Variables.findOrCreate text vs = .error f vs') : vs' = vs := by
  unfold Variables.findOrCreate at failed
  split at failed
  · cases failed
  · split at failed
    · exact Variables.eq_of_create_error failed
    · cases failed
      rfl

/-- Giving a variable a value. -/
theorem Carries.assign (carries : Carries base memory m) (name : Bytes) (v : Value) :
    let after := Attempt.reached ((onVariables (Variables.findOrCreate name) >>= fun place =>
      onVariables (Variables.set place.1 v)) m)
    Carries base (memory.assign name v) after ∧ after.pc = m.pc := by
  simp only [Memory.assign, ← carries.vars, Attempt.bind_apply, onVariables, Attempt.on]
  cases made : Variables.findOrCreate name m.vars with
  | error f vars =>
    rw [eq_of_findOrCreate_error made]
    exact ⟨carries, rfl⟩
  | ok place vars =>
    obtain ⟨slot, length⟩ := place
    dsimp only
    cases Variables.set slot v vars <;> exact ⟨carries.setVars _, rfl⟩

/-- Waiting for a deadline, which is a time that the clock can show. -/
theorem Carries.waiting (carries : Carries base memory m) (v : Value) :
    Carries base memory
      { m with deadline := deadlineAfter m.now v, program := .awaitingDelay } :=
  { carries with
    running := by simp [isRunning]
    ends := fun _ => (Nat.min_le_right _ _).trans_lt (by decide) }

/-- Executing an instruction that goes on at the next one works on the memory alone. Where an
expression has no value, nothing is done. -/
theorem Carries.execute (carries : Carries base memory m) (plain : i.IsPlain) (proper : i.Proper) :
    Carries base (i.work base.readings memory) (m.execute i.text .program m.owner) ∧
      (m.execute i.text .program m.owner).pc = m.pc := by
  match i with
  | .declare label => exact carries.execute_of_perform rfl ⟨carries, rfl⟩
  | .writeLine => exact carries.execute_of_perform rfl ⟨carries.write .lineBreak, rfl⟩
  | .clearVariables =>
    refine carries.execute_of_perform rfl ⟨?_, rfl⟩
    rw [work, ← carries.vars]
    exact carries.setVars m.vars.clear
  | .writeText content =>
    refine carries.execute_of_perform rfl ?_
    rw [text, drop_code _ (by decide)]
    exact ⟨carries.write _, rfl⟩
  | .writeValue e =>
    refine carries.execute_of_perform rfl ?_
    rw [text, drop_code _ (by decide), show perform .writeValue e.text .program m.owner m =
      (expression e.text >>= fun v => Command.write m.owner (.value v)) m from rfl,
      Attempt.bind_apply, expression_text proper]
    simp only [work, ← carries.scope]
    cases e.value m.scope with
    | error f => exact ⟨carries, rfl⟩
    | ok v => exact ⟨carries.write _, rfl⟩
  | .delay e =>
    refine carries.execute_of_perform rfl ?_
    rw [text, drop_code _ (by decide), show perform .delay e.text .program m.owner m =
      delay e.text m from rfl, delay_text proper]
    cases e.value m.scope with
    | error f => exact ⟨carries, rfl⟩
    | ok v => exact ⟨carries.waiting v, rfl⟩
  | .setVariable name e =>
    refine carries.execute_of_perform rfl ?_
    rw [text, List.append_assoc, drop_code _ (by decide),
      show perform .setVariable (name ++ Byte.equals :: e.text) .program m.owner m =
        setVariable (name ++ Byte.equals :: e.text) m from rfl, setVariable_text proper.1 proper.2]
    simp only [work, ← carries.scope]
    cases e.value m.scope with
    | error f => exact ⟨carries, rfl⟩
    | ok v => exact carries.assign name v

end Machine

end ControlScript
