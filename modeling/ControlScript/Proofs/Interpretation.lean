import ControlScript.Machine.Statement
import ControlScript.Proofs.Labels

/-!
# Running a script by its structure

What a script does, said without labels and jumps. A statement whose evaluation fails does
nothing, but the line break after a text or a value is written all the same. A condition that
cannot be evaluated counts as true, because a jump that fails does not take place: the branch or
the loop is entered, and `until` leaves its loop.

A script need not come to an end, so it is run with a bound on the number of nested and repeated
statements. A script terminates if there is a bound that is not met.

## Main definitions

* `Memory` — the variables and the output of a script
* `Action.perform` — what a statement does
* `Script.run` — what a script does within a bound
-/

namespace ControlScript

/-- What a script works on: its variables, and what it has written. -/
structure Memory where
  vars : Variables
  output : List Output := []
deriving DecidableEq, Repr

namespace Memory

/-- What names refer to. -/
def scope (memory : Memory) (readings : Readings) : Scope := { vars := memory.vars, readings }

/-- Writes output. -/
def write (memory : Memory) (output : Output) : Memory :=
  { memory with output := memory.output ++ [output] }

/-- Gives a variable a value. It is made if it is not there; without room for it, nothing is
done. -/
def assign (memory : Memory) (name : Bytes) (value : Value) : Memory :=
  match Variables.findOrCreate name memory.vars with
  | .ok (slot, _) vars => { memory with vars := Attempt.reached (Variables.set slot value vars) }
  | .error _ _ => memory

end Memory

/-- Whether the body of a conditional or a loop is entered. A condition that cannot be evaluated
counts as true. -/
def Condition.passes (c : Condition) (scope : Scope) : Bool :=
  match c.holds scope with
  | .ok holds => holds
  | .error _ => true

/-- Writes what a print statement writes, if it can be evaluated. -/
def Printed.perform (readings : Readings) (what : Printed) (memory : Memory) : Memory :=
  match what with
  | .text content => memory.write (.text (Utf8.decode content))
  | .value e =>
    match e.value (memory.scope readings) with
    | .ok v => memory.write (.value v)
    | .error _ => memory

/-- What a statement does. Waiting shows neither in the variables nor in the output. A raw
statement is not interpreted. -/
def Action.perform (readings : Readings) (a : Action) (memory : Memory) : Memory :=
  match a with
  | .assign name value =>
    match value.value (memory.scope readings) with
    | .ok v => memory.assign name v
    | .error _ => memory
  | .print what => what.perform readings memory
  | .println none => memory.write .lineBreak
  | .println (some what) => (what.perform readings memory).write .lineBreak
  | .clear => { memory with vars := memory.vars.clear }
  | .delay _ | .wait _ | .raw _ => memory

/-- How a script comes to an end. -/
inductive Ending where
  /-- At its last statement. -/
  | finished
  /-- At a statement that leaves the loop around the script. -/
  | broke
  /-- At a statement that repeats the loop around the script. -/
  | continued
deriving DecidableEq, Repr

namespace Script

/-- Runs a script within a bound. A loop is run once and then, unless it was left, run again from
its top; a loop with a condition at its end comes to that only at the end of its body. -/
def run (readings : Readings) : (bound : Nat) → Script → Memory → Option (Ending × Memory)
  | 0, _, _ => none
  | _ + 1, done, memory => some (.finished, memory)
  | bound + 1, action a rest, memory => rest.run readings bound (a.perform readings memory)
  | _ + 1, breakLoop _, memory => some (.broke, memory)
  | _ + 1, continueLoop _, memory => some (.continued, memory)
  | bound + 1, ifThen holds body rest, memory =>
    if holds.passes (memory.scope readings) then
      (body.run readings bound memory).bind fun (ending, memory) =>
        if ending = .finished then rest.run readings bound memory else some (ending, memory)
    else rest.run readings bound memory
  | bound + 1, ifElse holds body other rest, memory =>
    let branch := if holds.passes (memory.scope readings) then body else other
    (branch.run readings bound memory).bind fun (ending, memory) =>
      if ending = .finished then rest.run readings bound memory else some (ending, memory)
  | bound + 1, whileLoop holds body rest, memory =>
    if holds.passes (memory.scope readings) then
      (body.run readings bound memory).bind fun (ending, memory) =>
        if ending = .broke then rest.run readings bound memory
        else (whileLoop holds body rest).run readings bound memory
    else rest.run readings bound memory
  | bound + 1, foreverLoop body rest, memory =>
    (body.run readings bound memory).bind fun (ending, memory) =>
      if ending = .broke then rest.run readings bound memory
      else (foreverLoop body rest).run readings bound memory
  | bound + 1, doUntil body holds rest, memory =>
    (body.run readings bound memory).bind fun (ending, memory) =>
      if ending = .broke then rest.run readings bound memory
      else if ending = .finished ∧ holds.passes (memory.scope readings) then
        rest.run readings bound memory
      else (doUntil body holds rest).run readings bound memory

/-- A script leaves and repeats no loop outside of it. -/
theorem finished_of_placed {readings : Readings} {bound : Nat} {s : Script}
    {memory memory' : Memory} {ending : Ending} (placed : s.Placed false)
    (ran : s.run readings bound memory = some (ending, memory')) : ending = .finished := by
  -- The induction is on the bound and not on the script, which a loop runs again as a whole.
  induction bound generalizing s memory ending memory' with
  | zero => cases ran
  | succ bound ih =>
    cases s with
    | done =>
      cases ran
      rfl
    | action a rest => exact ih (s := rest) placed ran
    | breakLoop rest | continueLoop rest => exact absurd placed.1 (by simp)
    | ifThen holds body rest =>
      simp only [run] at ran
      split at ran
      · simp only [Option.bind_eq_some_iff, Prod.exists] at ran
        obtain ⟨first, _, inBody, later⟩ := ran
        obtain rfl := ih placed.1 inBody
        exact ih placed.2 later
      · exact ih placed.2 ran
    | ifElse holds body other rest =>
      simp only [run, Option.bind_eq_some_iff, Prod.exists] at ran
      obtain ⟨first, _, inBranch, later⟩ := ran
      have isFinished : first = .finished := by
        split at inBranch
        · exact ih placed.1 inBranch
        · exact ih placed.2.1 inBranch
      rw [if_pos isFinished] at later
      exact ih placed.2.2 later
    | whileLoop holds body rest =>
      simp only [run] at ran
      split at ran
      · simp only [Option.bind_eq_some_iff, Prod.exists] at ran
        -- A loop takes up whatever its body ends with; only what follows it counts.
        obtain ⟨first, _, -, later⟩ := ran
        split at later
        · exact ih placed.2 later
        · exact ih placed later
      · exact ih placed.2 ran
    | foreverLoop body rest =>
      simp only [run, Option.bind_eq_some_iff, Prod.exists] at ran
      obtain ⟨first, _, -, later⟩ := ran
      split at later
      · exact ih placed.2 later
      · exact ih placed later
    | doUntil body holds rest =>
      simp only [run, Option.bind_eq_some_iff, Prod.exists] at ran
      obtain ⟨first, _, -, later⟩ := ran
      split at later
      · exact ih placed.2 later
      · split at later
        · exact ih placed.2 later
        · exact ih placed later

end Script

end ControlScript
