import ControlScript.Proofs.Tables

/-!
# Statements executed at once or one by one

Some actions may be compiled first and executed then, as in a program, or each of them may be
executed before the next is compiled. Both come to the same variables, output and faults, because
variables made ahead of time make no difference.

Only clearing the variables takes them away. Behind it, a program makes its variables again while it
runs, and then only if there is a value for them. So the two ways may differ where variables are
cleared and a statement fails.

## Main definitions

* `Setting.steps` — executing instructions one after the other
* `Setting.live` — executing actions, for each of which its variable is made first
* `Log.Agrees` — two logs that differ at most in their output

## Main results

* `Setting.steps_ahead` — instructions that name no variable made ahead of time
* `Setting.steps_eq_live_of_faultless` — both ways, as long as no statement fails
* `Setting.steps_eq_live` — both ways
-/

namespace ControlScript

open Attempt

/-- What the effect of statements depends on, besides the variables. -/
structure Setting where
  /-- The longest statement that is executed. -/
  limit : Nat
  /-- The level of diagnostics. -/
  level : Nat
  readings : Readings

/-- The variables, what has been written, and the faults that there were. -/
structure Log where
  vars : Variables
  output : List Output := []
  faults : List Fault := []

/-- A log with the variables for some actions made ahead of time. -/
def Log.ahead (log : Log) (actions : List Action) : Log :=
  { log with vars := Action.makeAll log.vars actions }

namespace Setting

/-- Executing the statement of an instruction, unless it is too long. -/
def attempt (e : Setting) (i : Instruction) : Attempt Variables (List Output) := fun vs =>
  if e.limit < i.text.length then .error (.of .statementTooLong) vs
  else
    match i.effect e.readings vs with
    | .error f vs => .error (f.inSource (Utf8.decode i.text)) vs
    | .ok outputs vs => .ok outputs vs

/-- What is written of a fault. -/
def shown (e : Setting) (f : Fault) : List Output :=
  if 1 ≤ e.level then [.diagnostic f.render] else []

/-- The log after a statement. -/
def note (e : Setting) (log : Log) : EStateM.Result Fault Variables (List Output) → Log
  | .ok outputs vars => { log with vars, output := log.output ++ outputs }
  | .error f vars => { vars, output := log.output ++ e.shown f, faults := log.faults ++ [f] }

/-- The log after the statement of an instruction. -/
def step (e : Setting) (log : Log) (i : Instruction) : Log := e.note log (e.attempt i log.vars)

/-- The log after the statements of some instructions. -/
def steps (e : Setting) (log : Log) (code : List Instruction) : Log := code.foldl e.step log

/-- The log after an action that is compiled and executed. -/
def enter (e : Setting) (log : Log) (a : Action) : Log :=
  e.steps { log with vars := a.make log.vars } a.code

/-- The log after some actions, each of which is executed before the next is compiled. -/
def live (e : Setting) (log : Log) (actions : List Action) : Log := actions.foldl e.enter log

/-- Each of some actions names variables that there are when it is compiled. -/
def Knows (e : Setting) : Log → List Action → Prop
  | _, [] => True
  | log, a :: actions =>
    (∀ i ∈ a.code, i.Known (a.make log.vars)) ∧ e.Knows (e.enter log a) actions

variable {e : Setting} {log : Log} {i : Instruction} {code : List Instruction} {a : Action}
variable {actions : List Action} {vs : Variables}

theorem attempt_make (known : i.Known vs) (noClear : i ≠ .clearVariables) (other : Bytes) :
    e.attempt i (vs.make other) = carry (·.make other) (e.attempt i vs) := by
  unfold attempt
  by_cases long : e.limit < i.text.length
  · rw [if_pos long, if_pos long]
    rfl
  · rw [if_neg long, if_neg long, i.effect_make known noClear]
    cases i.effect e.readings vs <;> rfl

theorem sameShape_attempt (known : i.Known vs) (noClear : i ≠ .clearVariables) :
    vs.SameShape (reached (e.attempt i vs)) := by
  have same := Instruction.sameShape_effect known noClear e.readings
  unfold attempt
  by_cases long : e.limit < i.text.length
  · rw [if_pos long]
    exact ⟨rfl, rfl, rfl⟩
  · rw [if_neg long]
    cases done : i.effect e.readings vs <;> simpa [done] using same

theorem vars_step (log : Log) (i : Instruction) :
    (e.step log i).vars = reached (e.attempt i log.vars) := by
  unfold step
  cases e.attempt i log.vars <;> rfl

/-- Variables made ahead of time make no difference to an instruction. The induction is on what they
are made for. -/
theorem attempt_makeAll (known : i.Known vs) (noClear : i ≠ .clearVariables)
    (actions : List Action) :
    e.attempt i (Action.makeAll vs actions) =
      carry (Action.makeAll · actions) (e.attempt i vs) := by
  induction actions generalizing vs with
  | nil => cases done : e.attempt i vs <;> exact done
  | cons a actions ih =>
    cases a with
    | assign name value =>
      have later := ih (known.make name)
      rw [attempt_make known noClear] at later
      refine later.trans ?_
      cases e.attempt i vs <;> rfl
    | _ => exact ih known

theorem step_ahead (known : i.Known log.vars) (noClear : i ≠ .clearVariables)
    (actions : List Action) : e.step (log.ahead actions) i = (e.step log i).ahead actions := by
  have same : e.attempt i (Action.makeAll log.vars actions) = _ :=
    attempt_makeAll known noClear actions
  unfold step
  rw [show (log.ahead actions).vars = Action.makeAll log.vars actions from rfl, same]
  cases e.attempt i log.vars <;> rfl

theorem steps_ahead (known : ∀ i ∈ code, i.Known log.vars)
    (noClear : ∀ i ∈ code, i ≠ .clearVariables) (actions : List Action) :
    e.steps (log.ahead actions) code = (e.steps log code).ahead actions := by
  induction code generalizing log with
  | nil => rfl
  | cons i code ih =>
    have known' := known i List.mem_cons_self
    have noClear' := noClear i List.mem_cons_self
    have shape := sameShape_attempt (e := e) known' noClear'
    rw [← vars_step] at shape
    change e.steps (e.step (log.ahead actions) i) code = (e.steps (e.step log i) code).ahead actions
    rw [step_ahead known' noClear']
    exact ih (fun j member => (known j (List.mem_cons_of_mem i member)).sameShape shape)
      fun j member => noClear j (List.mem_cons_of_mem i member)

theorem steps_append (log : Log) (first second : List Instruction) :
    e.steps log (first ++ second) = e.steps (e.steps log first) second := List.foldl_append

/-- What every step keeps is kept by actions, whatever variables are made for them. -/
theorem live_induction {P : Log → Prop} (made : ∀ log vars, P log → P { log with vars })
    (stepped : ∀ log i, P log → P (e.step log i)) (start : P log) (actions : List Action) :
    P (e.live log actions) := by
  have all (code : List Instruction) : ∀ log, P log → P (e.steps log code) := by
    induction code with
    | nil => exact fun log start => start
    | cons i code ih => exact fun log start => ih _ (stepped log i start)
  induction actions generalizing log with
  | nil => exact start
  | cons a actions ih => exact ih (all a.code _ (made log _ start))

/-- Faults stay in the log. -/
theorem faults_prefix_live (log : Log) (actions : List Action) :
    log.faults <+: (e.live log actions).faults := by
  let Keeps (later : Log) : Prop := log.faults <+: later.faults
  refine live_induction (P := Keeps) (fun _ _ kept => kept) (fun later i kept => ?_)
    List.prefix_rfl actions
  refine List.IsPrefix.trans kept ?_
  unfold step
  cases e.attempt i later.vars with
  | ok outputs vars => exact List.prefix_rfl
  | error f vars => exact List.prefix_append _ _

/-- Where faults are shown, the output tells whether there was one. -/
theorem faultless_of_output (shown : 1 ≤ e.level) (start : log.faults = [])
    (plain : ∀ content, .diagnostic content ∉ (e.live log actions).output) :
    (e.live log actions).faults = [] := by
  let Told (later : Log) : Prop :=
    later.faults = [] ∨ ∃ content, .diagnostic content ∈ later.output
  have told : Told (e.live log actions) := by
    refine live_induction (P := Told) (fun _ _ kept => kept) (fun later i kept => ?_)
      (.inl start) actions
    unfold step
    cases e.attempt i later.vars with
    | ok outputs vars =>
      refine kept.imp id fun ⟨content, member⟩ => ?_
      exact ⟨content, List.mem_append_left outputs member⟩
    | error f vars =>
      refine .inr ⟨f.render, List.mem_append_right later.output ?_⟩
      rw [Setting.shown, if_pos shown]
      exact List.mem_singleton_self _
  exact told.resolve_right fun ⟨content, member⟩ => plain content member

/-- A step that adds no fault succeeds. -/
theorem exists_of_faultless (faultless : (e.step log i).faults = []) :
    ∃ outputs vars, e.attempt i log.vars = .ok outputs vars := by
  cases done : e.attempt i log.vars with
  | ok outputs vars => exact ⟨outputs, vars, rfl⟩
  | error f vars => simp [step, done, note] at faultless

/-- An action without a fault makes its variable itself, if nothing made it ahead of time. -/
theorem steps_eq_enter (faultless : (e.enter log a).faults = []) :
    e.steps log a.code = e.enter log a := by
  cases a with
  | assign name value =>
    let log' : Log := { log with vars := log.vars.make name }
    have faultless' : (e.step log' (.setVariable name value)).faults = [] := faultless
    obtain ⟨outputs, vars, done⟩ := exists_of_faultless faultless'
    change e.attempt (.setVariable name value) (log.vars.make name) = _ at done
    -- Where it is not made ahead, the statement makes the variable and does the same.
    have alone : e.attempt (.setVariable name value) log.vars = .ok outputs vars := by
      unfold attempt at done ⊢
      split at done
      · cases done
      · next fits =>
        rw [if_neg fits]
        cases succeeded : (Instruction.setVariable name value).effect e.readings
            (log.vars.make name) with
        | error f vars =>
          rw [succeeded] at done
          cases done
        | ok outputs vars =>
          rw [succeeded] at done
          rw [Instruction.effect_of_make succeeded]
          exact done
    change e.note log (e.attempt (.setVariable name value) log.vars) =
      e.note log' (e.attempt (.setVariable name value) (log.vars.make name))
    rw [done, alone]
    rfl
  | _ => rfl

/-- Without a fault, it makes no difference whether variables are made before the statements for
them or by these. -/
theorem steps_eq_live_of_faultless (faultless : (e.live log actions).faults = []) :
    e.steps log (actions.flatMap Action.code) = e.live log actions := by
  induction actions generalizing log with
  | nil => rfl
  | cons a actions ih =>
    have first : (e.enter log a).faults = [] :=
      List.prefix_nil.mp (faultless ▸ faults_prefix_live (e.enter log a) actions)
    rw [List.flatMap_cons, steps_append, steps_eq_enter first]
    exact ih faultless

/-- Statements that are executed after all of them were compiled come to the same as statements each
of which is executed before the next is compiled, as long as the variables are not cleared or no
statement fails. -/
theorem steps_eq_live (knows : e.Knows log actions)
    (settled : (∀ a ∈ actions, a ≠ .clear) ∨ (e.live log actions).faults = []) :
    e.steps (log.ahead actions) (actions.flatMap Action.code) = e.live log actions := by
  induction actions generalizing log with
  | nil => rfl
  | cons a actions ih =>
    obtain ⟨known, later⟩ := knows
    rw [List.flatMap_cons, steps_append]
    by_cases clears : a = .clear
    · -- What was made ahead of time is gone, and from here on every statement succeeds.
      subst clears
      have faultless := settled.resolve_left fun none => none _ List.mem_cons_self rfl
      have first : (e.step log .clearVariables).faults = [] :=
        List.prefix_nil.mp (faultless ▸ faults_prefix_live (e.enter log .clear) actions)
      obtain ⟨outputs, vars, done⟩ := exists_of_faultless first
      have same : e.steps (log.ahead (.clear :: actions)) [.clearVariables] =
          e.step log .clearVariables := by
        have cleared := Action.clear_makeAll log.vars actions
        unfold attempt at done
        split at done
        · cases done
        · next fits =>
          change e.note (log.ahead actions)
            (e.attempt .clearVariables (Action.makeAll log.vars actions)) =
              e.note log (e.attempt .clearVariables log.vars)
          rw [attempt, attempt, if_neg fits, if_neg fits]
          simp only [Instruction.effect, cleared]
          rfl
      rw [show Action.clear.code = [.clearVariables] from rfl, same]
      exact steps_eq_live_of_faultless faultless
    · -- This action does not see what is made ahead for the later ones.
      have noClear : ∀ i ∈ a.code, i ≠ .clearVariables := by
        rintro i member rfl
        exact clears (Action.eq_clear_of_mem_code member)
      let log' : Log := { log with vars := a.make log.vars }
      have ahead : e.steps (log'.ahead actions) a.code = (e.steps log' a.code).ahead actions :=
        steps_ahead known noClear actions
      rw [show e.steps (log.ahead (a :: actions)) a.code = (e.enter log a).ahead actions from ahead]
      refine ih later (settled.imp_left fun none => ?_)
      exact fun b member => none b (List.mem_cons_of_mem a member)

end Setting

/-! ## Levels of diagnostics

What is shown of faults makes no difference to the variables or to the faults. -/

namespace Log

/-- Two logs that differ at most in their output. -/
structure Agrees (log other : Log) : Prop where
  vars : other.vars = log.vars
  faults : other.faults = log.faults

variable {log other : Log}

theorem Agrees.steps (agrees : Agrees log other) (e : Setting) (level : Nat)
    (code : List Instruction) :
    Agrees (e.steps log code) ({ e with level }.steps other code) := by
  induction code generalizing log other with
  | nil => exact agrees
  | cons i code ih =>
    refine ih ?_
    have same : { e with level }.attempt i other.vars = e.attempt i log.vars := by
      rw [agrees.vars]
      rfl
    unfold Setting.step
    rw [same]
    cases e.attempt i log.vars with
    | ok outputs vars => exact ⟨rfl, agrees.faults⟩
    | error f vars => exact ⟨rfl, congrArg (· ++ [f]) agrees.faults⟩

theorem Agrees.enter (agrees : Agrees log other) (e : Setting) (level : Nat) (a : Action) :
    Agrees (e.enter log a) ({ e with level }.enter other a) := by
  have made : Agrees { log with vars := a.make log.vars }
      { other with vars := a.make other.vars } :=
    ⟨congrArg a.make agrees.vars, agrees.faults⟩
  exact made.steps e level a.code

theorem Agrees.live (agrees : Agrees log other) (e : Setting) (level : Nat)
    (actions : List Action) :
    Agrees (e.live log actions) ({ e with level }.live other actions) := by
  induction actions generalizing log other with
  | nil => exact agrees
  | cons a actions ih => exact ih (agrees.enter e level a)

end Log

end ControlScript
