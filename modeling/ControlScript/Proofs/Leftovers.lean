import ControlScript.Proofs.LineChanges
import ControlScript.Proofs.Tables

/-!
# What a line leaves in the variables

An assignment makes its variable before the value is read, so that the variable may stand in its own
first value. A line that turns out to have a fault only behind the sign of its assignment has made
the variable by then, and the variable stays, without a value. Nothing else that is done to a line
makes or changes a variable.

What a line assigns to is read from it again by other work, which stops at the sign of the
assignment. Both kinds of work are gone through side by side.

## Main definitions

* `Compile.assignee` — what a line assigns to, if the work on it gets that far
* `Compile.MakesFor` — some work makes a variable for what other work finds, and no other
* `Compile.FindsNames` — what some work finds is a name

## Main results

* `Compile.makesFor_line` — a line makes a variable for its assignee, and no other
* `Compiler.vars_compileLine` — the variables after any line
-/

namespace ControlScript

open Attempt

namespace Compile

variable {α β : Type}

/-- Whatever is done to a draft, assignments apart, the variables stay as they are. -/
theorem allowsAll_vars : AllowsAll fun d e => e.scope.vars = d.scope.vars where
  refl _ := rfl
  trans first second := second.trans first
  rest _ _ := rfl
  emitted _ _ := rfl
  compiler _ _ _ := rfl

/-- Some work leaves the variables as they are. -/
abbrev KeepsVars (x : Compile α) : Prop := x.Within fun d e => e.scope.vars = d.scope.vars

/-- The name that some work finds, unless it finds none or stops with a fault. -/
def found? (finds : Compile (Option Bytes)) (d : Draft) : Option Bytes :=
  (success? (finds d)).bind Prod.fst

/-- Some work makes a variable for the name that other work finds, and no other. -/
def MakesFor (x : Compile α) (finds : Compile (Option Bytes)) : Prop :=
  ∀ d, (reached (x d)).scope.vars = (found? finds d).elim d.scope.vars d.scope.vars.make

/-- What leaves the variables as they are makes one for nothing. -/
theorem MakesFor.of_keepsVars {x : Compile α} (keeps : KeepsVars x) :
    x.MakesFor (pure none) := keeps

/-- Work in front makes no difference, if it leaves the variables as they are. -/
theorem KeepsVars.bind {x : Compile α} {next : α → Compile β}
    {finds : α → Compile (Option Bytes)} (first : KeepsVars x)
    (second : ∀ a, (next a).MakesFor (finds a)) : (x >>= next).MakesFor (x >>= finds) := by
  intro d
  have same := first d
  rw [found?, bind_apply, bind_apply]
  cases done : x d with
  | ok a e =>
    rw [done] at same
    rw [← show e.scope.vars = d.scope.vars from same]
    exact second a e
  | error f e =>
    -- What is refused in front finds nothing either.
    rw [done] at same
    exact same

/-- Neither does work behind. -/
theorem MakesFor.bind {x : Compile α} {next : α → Compile β} {finds : Compile (Option Bytes)}
    (first : x.MakesFor finds) (second : ∀ a, KeepsVars (next a)) :
    (x >>= next).MakesFor finds := by
  intro d
  rw [← first d, bind_apply]
  cases done : x d with
  | ok a e => exact second a e
  | error f e => rfl

theorem MakesFor.ite {condition : Prop} [Decidable condition] {x y : Compile α}
    {finds finds' : Compile (Option Bytes)} (first : x.MakesFor finds)
    (second : y.MakesFor finds') :
    (if condition then x else y).MakesFor (if condition then finds else finds') := by
  split
  · exact first
  · exact second

/-- Reads the name that stands in front of the sign of an assignment, with the sign. -/
def target : Compile (Option Bytes) := do
  let name ← scanning Scan.name
  let _ ← scanning Scan.skipSpaces
  if ← scanning (Scan.eat Byte.equals) then return some name
  else Attempt.failNoting .missingOperator "EXPECTED ="

/-- Reads a line up to the sign of its assignment. There is no name in a line that does not assign,
and a line that is refused before its sign is refused here. -/
def assignee : Compile (Option Bytes) := do
  let indent ← scanning Scan.skipSpaces
  let text := (← get).rest
  if text.isEmpty || text.head? == some Byte.hash then return none
  else if text.any Byte.isControl then return none
  else if ← scanning (Scan.eat Byte.star) then return none
  else
    match ← keyword with
    | none | some .set =>
      let matched ← align indent
      closeBlock matched
      target
    | _ => return none

theorem makesFor_findOrCreate (name : Bytes) :
    (onVariables (Variables.findOrCreate name)).MakesFor (pure (some name)) := by
  intro d
  unfold onVariables Attempt.on
  have made : d.scope.vars.make name = reached (Variables.findOrCreate name d.scope.vars) := rfl
  cases done : Variables.findOrCreate name d.scope.vars <;> (rw [done] at made; exact made.symm)

theorem makesFor_assignment : assignment.MakesFor target := by
  have keeps := allowsAll_vars
  refine KeepsVars.bind (keeps.scanning _) fun name => KeepsVars.bind (keeps.scanning _) fun _ =>
    KeepsVars.bind (keeps.scanning _) fun isAssignment => .ite ?_ fun _ => rfl
  exact (makesFor_findOrCreate name).bind fun _ => keeps.behind_target name

/-- A line makes a variable for its assignee, and no other. -/
theorem makesFor_line : line.MakesFor assignee := by
  have keeps := allowsAll_vars
  refine KeepsVars.bind (keeps.scanning _) fun indent => KeepsVars.bind keeps.get fun d => ?_
  refine .ite (.of_keepsVars (keeps.pure _)) (.ite (.of_keepsVars (keeps.failNoting _ _)) ?_)
  refine KeepsVars.bind (keeps.scanning _) fun isRaw => .ite (.of_keepsVars (keeps.raw indent)) ?_
  -- A keyword other than `set` stands for a statement that is no assignment, which finds nothing.
  refine KeepsVars.bind keeps.keyword fun k => ?_
  have others (noAssignment : ¬ (k = none ∨ k = some .set)) :=
    MakesFor.of_keepsVars <| keeps.behind_keyword k indent fun assigns =>
      absurd assigns noAssignment
  have assigns
      (begins : ∀ matched, statement k matched indent = do closeBlock matched; assignment) :
      MakesFor (do
        let matched ← align indent
        statement k matched indent
        let _ ← scanning Scan.skipSpaces
        endOfLine) (do
        let matched ← align indent
        closeBlock matched
        target) := by
    refine KeepsVars.bind (keeps.align indent) fun matched =>
      .bind ?_ fun _ => keeps.behind_statement
    rw [begins]
    exact KeepsVars.bind (keeps.closeBlock matched) fun _ => makesFor_assignment
  cases k with
  | none => exact assigns fun _ => rfl
  | some k =>
    cases k
    case begin => exact .of_keepsVars keeps.beginProgram
    case finish => exact .of_keepsVars (keeps.endProgram indent)
    case set => exact assigns fun _ => rfl
    all_goals exact others (by simp)

/-- Whatever some work finds is a name. -/
def FindsNames (finds : Compile (Option Bytes)) : Prop :=
  ∀ d, ∀ name ∈ found? finds d, name.IsName

theorem FindsNames.bind {x : Compile α} {finds : α → Compile (Option Bytes)}
    (names : ∀ a, FindsNames (finds a)) : FindsNames (x >>= finds) := by
  intro d
  unfold found?
  rw [success?_bind]
  cases success? (x d) with
  | none => simp
  | some done => exact names done.1 done.2

theorem FindsNames.ite {condition : Prop} [Decidable condition] {x y : Compile (Option Bytes)}
    (first : FindsNames x) (second : FindsNames y) :
    FindsNames (if condition then x else y) := by
  split
  · exact first
  · exact second

theorem findsNames_none : FindsNames (pure none) := fun _ _ found => by cases found

theorem findsNames_target : FindsNames target := by
  intro d name found
  simp only [Option.mem_def, found?, target, success?_bind, Option.bind_eq_some_iff,
    Prod.exists] at found
  obtain ⟨_, _, ⟨word, _, read, _, _, -, isAssignment, _, -, last⟩, rfl⟩ := found
  have same : name = word := by
    cases isAssignment <;> cases last
    rfl
  rw [scanning, success?_on, Option.map_eq_some_iff] at read
  obtain ⟨⟨_, rest⟩, read, same'⟩ := read
  cases same'
  exact same ▸ Scan.isName_of_name (success?_eq_some_iff.mp read)

theorem findsNames_assignee : FindsNames assignee := by
  refine .bind fun indent => .bind fun d => .ite findsNames_none (.ite findsNames_none ?_)
  refine .bind fun isRaw => .ite findsNames_none (.bind fun k => ?_)
  have assigns : FindsNames (do
      let matched ← align indent
      closeBlock matched
      target) := .bind fun _ => .bind fun _ => findsNames_target
  split
  · exact assigns
  · exact assigns
  · exact findsNames_none

end Compile

/-- What is made for a name, and not for a longer text that starts with one. -/
theorem Variables.make_of_isName {name : Bytes} (named : name.IsName) (vs : Variables) :
    vs.make name =
      if vs.slot? name = none ∧ vs.size < vs.capacity ∧ name.length ≤ vs.nameLength then
        { vs with entries := vs.entries ++ [{ name }] }
      else vs := by
  have whole : Bytes.identifier? name = some name := by
    have ends : Bytes.Ends [] := by simp [Bytes.Ends]
    simpa using Bytes.identifier?_append named ends
  have room : (vs.slot? name ≠ none ∨ vs.capacity ≤ vs.size ∨ vs.nameLength < name.length) ↔
      ¬ (vs.slot? name = none ∧ vs.size < vs.capacity ∧ name.length ≤ vs.nameLength) := by
    rw [not_and_or, not_and_or, Nat.not_lt, Nat.not_le]
  rw [make_eq, added, whole]
  simp only [room]
  split_ifs <;> simp

namespace Compiler

variable (c : Compiler) (vars : Variables) (readings : Readings) (text : String)

/-- What a line assigns to, if the work on it gets as far as the sign of its assignment. What is
behind the sign does not matter. -/
def assignee? (scope : Scope) : Option Bytes :=
  if c.lineLength < (Bytes.ofString text).length then none
  else Compile.found? Compile.assignee (c.countLine.start text scope)

/-- The variables after any line, whether it has a fault or not. A line that gets as far as the sign
of an assignment leaves a variable, unassigned and the last in the order, if there was none of its
name, if there is room for one more and if the name is not too long. Every other line, and in
particular one that is refused before, leaves the variables as they are. -/
theorem vars_compileLine :
    (c.compileLine vars readings text).vars =
      match c.assignee? text { vars, readings } with
      | none => vars
      | some name =>
        if vars.slot? name = none ∧ vars.size < vars.capacity ∧ name.length ≤ vars.nameLength then
          { vars with entries := vars.entries ++ [{ name }] }
        else vars := by
  -- A line that is too long is not even read, so it has no assignee.
  have made : (c.compileLine vars readings text).vars =
      (c.assignee? text { vars, readings }).elim vars vars.make := by
    rw [(c.exists_compileLine_eq vars readings text).1]
    unfold draft assignee?
    rw [lineLength_countLine]
    dsimp only
    split
    · rfl
    · exact Compile.makesFor_line (c.countLine.start text { vars, readings })
  rw [made]
  cases found : c.assignee? text { vars, readings } with
  | none => rfl
  | some name =>
    have named : name.IsName := by
      unfold assignee? at found
      split at found
      · cases found
      · exact Compile.findsNames_assignee _ name found
    exact Variables.make_of_isName named vars

/-- A line with text behind its assignment is refused, but the variable is there. -/
theorem vars_of_text_behind_assignment :
    let c := ofLimits {}
    let vars := Variables.ofLimits {}
    let compiled := c.compileLine vars {} "x=1 2"
    (compiled.fault.map (·.cause) = some .extraText ∧ compiled.emitted = []) ∧
      compiled.vars ≠ vars ∧ compiled.vars.entries = [{ name := Bytes.ofString "x" }] := by
  decide +kernel

end Compiler

end ControlScript
