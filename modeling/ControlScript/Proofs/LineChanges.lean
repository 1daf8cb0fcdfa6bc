import ControlScript.Compiler.Line
import ControlScript.Proofs.Names

/-!
# What the work on a line changes

The work on a line is made of a few changes of its draft: some of the line is read, instructions are
emitted, a variable is made, the compiler is renewed. A relation between a draft and what becomes of
it that allows these changes allows the work on the whole line, whether it ends with a fault or not.
So the definitions of the compiler are gone through once here, and what none of the changes touches
is seen to stay.

## Main definitions

* `Compile.Within` — some work changes a draft as a relation allows
* `Compile.Allows` — a relation that allows most work, which leaves compiler and variables alone
* `Compile.AllowsAll` — a relation that allows all that is done to a draft, assignments apart

## Main results

* `Compile.AllowsAll.line` — the work on any line
* `Compiler.draft_within` — a line from its start
* `Compiler.becomes_compileLine` — no line makes a variable with a name that is too long
* `Compiler.lineLength_compileLine` — no line changes the length that lines may have
-/

namespace ControlScript

open Attempt

namespace Compile

variable {α β : Type} {R : Draft → Draft → Prop}

/-- Some work changes a draft only as a relation allows. -/
def Within (R : Draft → Draft → Prop) (x : Compile α) : Prop := ∀ d, R d (reached (x d))

theorem Within.bind {x : Compile α} {next : α → Compile β}
    (trans : ∀ {d e f}, R d e → R e f → R d f) (first : x.Within R)
    (second : ∀ a, (next a).Within R) : (x >>= next).Within R := by
  intro d
  have before := first d
  rw [bind_apply]
  cases done : x d with
  | ok a e =>
    rw [done] at before
    exact trans before (second a e)
  | error f e =>
    rw [done] at before
    exact before

theorem Within.ite {condition : Prop} [Decidable condition] {x y : Compile α}
    (first : x.Within R) (second : y.Within R) : (if condition then x else y).Within R := by
  split
  · exact first
  · exact second

/-- A relation between drafts that allows what leaves the compiler and the variables alone. -/
structure Allows (R : Draft → Draft → Prop) : Prop where
  refl : ∀ d, R d d
  trans : ∀ {d e f}, R d e → R e f → R d f
  rest : ∀ d rest, R d { d with rest }
  emitted : ∀ d emitted, R d { d with emitted }

namespace Allows

variable (allows : Allows R)
include allows

theorem pure (a : α) : (Pure.pure a : Compile α).Within R := allows.refl

theorem get : (MonadState.get : Compile Draft).Within R := allows.refl

theorem compiler : Compile.compiler.Within R := allows.refl

theorem fail (cause : Cause) : Within R (Attempt.fail cause : Compile α) := allows.refl

theorem failNoting (cause : Cause) (note : String) :
    Within R (Attempt.failNoting cause note : Compile α) := allows.refl

theorem emitAll (code : List Instruction) : (Compile.emitAll code).Within R :=
  fun d => allows.emitted d _

theorem emit (i : Instruction) : (Compile.emit i).Within R := allows.emitAll [i]

theorem closeBlock (block : Option Block) : (Compile.closeBlock block).Within R := allows.emitAll _

theorem scanning (x : Scan α) : (Compile.scanning x).Within R := by
  intro d
  unfold Compile.scanning Attempt.on
  cases x d.rest <;> exact allows.rest d _

theorem requireProgram : Compile.requireProgram.Within R :=
  allows.compiler.bind allows.trans fun _ => .ite (allows.pure _) (allows.fail _)

theorem forbidProgram : Compile.forbidProgram.Within R :=
  allows.compiler.bind allows.trans fun _ => .ite (allows.fail _) (allows.pure _)

theorem endOfLine : Compile.endOfLine.Within R :=
  allows.get.bind allows.trans fun _ => .ite (allows.pure _) (allows.fail _)

theorem operand : Compile.operand.Within R :=
  allows.get.bind allows.trans fun _ => allows.scanning _

theorem expression : Compile.expression.Within R :=
  allows.get.bind allows.trans fun _ => allows.scanning _

theorem condition : Compile.condition.Within R :=
  allows.get.bind allows.trans fun _ => allows.scanning _

/-- What is behind the sign of an assignment makes no variable. -/
theorem behind_target (name : Bytes) : Within R (do
    let value ← Compile.expression
    Compile.emit (.setVariable name value)) :=
  allows.expression.bind allows.trans fun _ => allows.emit _

/-- An assignment is allowed with the variable that it makes. -/
theorem assignment (vars : ∀ d {vars}, d.scope.vars.Becomes vars →
    R d { d with scope := { d.scope with vars } }) : Compile.assignment.Within R := by
  have findOrCreate (name : Bytes) :
      (Compile.onVariables (Variables.findOrCreate name)).Within R := by
    intro d
    have becomes := d.scope.vars.becomes_findOrCreate name
    unfold Compile.onVariables Attempt.on
    cases done : Variables.findOrCreate name d.scope.vars <;>
      (rw [done] at becomes; exact vars d becomes)
  exact (allows.scanning _).bind allows.trans fun _ =>
    (allows.scanning _).bind allows.trans fun _ => (allows.scanning _).bind allows.trans fun _ => .ite
      ((findOrCreate _).bind allows.trans fun _ => allows.behind_target _)
      (allows.failNoting _ _)

theorem wait : Compile.wait.Within R :=
  allows.operand.bind allows.trans fun _ => allows.emit _

theorem quotedText : Compile.quotedText.Within R :=
  (allows.scanning _).bind allows.trans fun _ => (allows.scanning _).bind allows.trans fun _ =>
    (allows.scanning _).bind allows.trans fun _ => .ite (allows.emit _) (allows.fail _)

theorem print : Compile.print.Within R := by
  refine (allows.scanning _).bind allows.trans fun next => ?_
  cases next with
  | none => exact allows.fail _
  | some b =>
    exact .ite allows.quotedText (allows.expression.bind allows.trans fun _ => allows.emit _)

theorem println : Compile.println.Within R := by
  refine (allows.scanning _).bind allows.trans fun next => ?_
  cases next with
  | none => exact allows.emit _
  | some b => exact allows.print.bind allows.trans fun _ => allows.emit _

theorem closer (kinds : List BlockKind) (otherwise : Cause) (matched : Option Block) :
    (Compile.closer kinds otherwise matched).Within R := by
  refine allows.requireProgram.bind allows.trans fun _ => ?_
  split
  · exact allows.fail _
  · exact allows.closeBlock _

theorem untilTrue (matched : Option Block) : (Compile.untilTrue matched).Within R := by
  refine allows.requireProgram.bind allows.trans fun _ => ?_
  split
  · exact allows.fail _
  · exact allows.condition.bind allows.trans fun _ =>
      (allows.emit _).bind allows.trans fun _ => allows.emit _

theorem leaveLoop (otherwise : Cause) (target : Block → Nat) :
    (Compile.leaveLoop otherwise target).Within R := by
  refine allows.requireProgram.bind allows.trans fun _ =>
    allows.compiler.bind allows.trans fun c => ?_
  split
  · exact allows.fail _
  · exact allows.emit _

theorem run : Compile.run.Within R :=
  allows.forbidProgram.bind allows.trans fun _ => allows.compiler.bind allows.trans fun _ =>
    .ite (allows.fail _) (allows.emit _)

theorem stop : Compile.stop.Within R :=
  allows.forbidProgram.bind allows.trans fun _ => allows.emit _

theorem keyword : Compile.keyword.Within R := by
  refine allows.get.bind allows.trans fun d => ?_
  split
  · exact allows.pure _
  · exact (allows.scanning _).bind allows.trans fun _ =>
      (allows.scanning _).bind allows.trans fun _ => allows.pure _

/-! The rules of indentation come first in a line. What is behind them leaves the compiler alone. -/

theorem behind_raw (matched : Option Block) : Within R (do
    Compile.closeBlock matched
    let text := (← MonadState.get).rest
    if text.isEmpty then Attempt.failNoting .syntaxError "EMPTY DIRECT STATEMENT"
    else if (← Compile.compiler).compiling && text.head?.any (Byte.spells 'R') then
      Attempt.fail .immediateOnly
    else Compile.emit (.raw text)) :=
  (allows.closeBlock _).bind allows.trans fun _ => allows.get.bind allows.trans fun _ =>
    .ite (allows.failNoting _ _)
      (allows.compiler.bind allows.trans fun _ => .ite (allows.fail _) (allows.emit _))

theorem behind_lastChecks (matched : Option Block) : Within R (do
    Compile.closeBlock matched
    Compile.endOfLine
    let c ← Compile.compiler
    if c.depth ≠ 0 then Attempt.fail .blockNotClosed
    else if c.programError then Attempt.fail .programHasErrors
    else return ()) :=
  (allows.closeBlock _).bind allows.trans fun _ => allows.endOfLine.bind allows.trans fun _ =>
    allows.compiler.bind allows.trans fun _ =>
      .ite (allows.fail _) (.ite (allows.fail _) (allows.pure _))

/-- The end of a line, which comes after its statement. -/
theorem behind_statement : Within R (do
    let _ ← Compile.scanning Scan.skipSpaces
    Compile.endOfLine) :=
  (allows.scanning _).bind allows.trans fun _ => allows.endOfLine

end Allows

/-- A relation between drafts that allows whatever is done to them, variables apart. The length that
a line may have is never changed. -/
structure AllowsAll (R : Draft → Draft → Prop) : Prop extends Allows R where
  compiler : ∀ d {compiler}, compiler.lineLength = d.compiler.lineLength → R d { d with compiler }

namespace AllowsAll

variable (allows : AllowsAll R)
include allows

theorem update {f : Compiler → Compiler} (same : ∀ c, (f c).lineLength = c.lineLength) :
    (Compile.update f).Within R := fun d => allows.compiler d (same d.compiler)

theorem allocateLabels : Compile.allocateLabels.Within R :=
  allows.toAllows.compiler.bind allows.trans fun _ =>
    (allows.update fun _ => by rfl).bind allows.trans fun _ => allows.pure _

theorem openBlock (block : Block) : (Compile.openBlock block).Within R := by
  -- Pushing on a full stack fails, and the stack stays as it is.
  refine Within.bind allows.trans (fun d => ?_) fun _ => allows.update fun _ => by rfl
  unfold Compile.onBlocks Attempt.on
  cases Stack.push block d.compiler.blocks <;> exact allows.compiler d rfl

theorem align (indent : Nat) : (Compile.align indent).Within R := by
  refine allows.toAllows.compiler.bind allows.trans fun c => .ite (allows.pure _) (.ite ?_ ?_)
  · exact (allows.update fun _ => by rfl).bind allows.trans fun _ =>
      .ite (allows.fail _)
        ((allows.update fun _ => by rfl).bind allows.trans fun _ => allows.pure _)
  · exact .ite (allows.fail _) (.ite (allows.pure _) ((allows.emitAll _).bind allows.trans fun _ =>
      (allows.update fun _ => by rfl).bind allows.trans fun _ =>
        .ite (allows.pure _) (allows.fail _)))

theorem ifThen (indent : Nat) : (Compile.ifThen indent).Within R :=
  allows.requireProgram.bind allows.trans fun _ => allows.condition.bind allows.trans fun _ =>
    allows.allocateLabels.bind allows.trans fun _ => (allows.emit _).bind allows.trans fun _ =>
      allows.openBlock _

theorem whileLoop (indent : Nat) : (Compile.whileLoop indent).Within R :=
  allows.requireProgram.bind allows.trans fun _ => allows.condition.bind allows.trans fun _ =>
    allows.allocateLabels.bind allows.trans fun _ => (allows.emit _).bind allows.trans fun _ =>
      (allows.emit _).bind allows.trans fun _ => allows.openBlock _

theorem plainLoop (kind : BlockKind) (indent : Nat) : (Compile.plainLoop kind indent).Within R :=
  allows.requireProgram.bind allows.trans fun _ => allows.allocateLabels.bind allows.trans fun _ =>
    (allows.emit _).bind allows.trans fun _ => allows.openBlock _

theorem elseThen (matched : Option Block) (indent : Nat) :
    (Compile.elseThen matched indent).Within R := by
  refine allows.requireProgram.bind allows.trans fun _ => ?_
  split
  · exact allows.fail _
  · exact (allows.emit _).bind allows.trans fun _ => (allows.emit _).bind allows.trans fun _ =>
      allows.openBlock _

theorem statement (k : Option Keyword) (matched : Option Block) (indent : Nat)
    (assigns : k = none ∨ k = some .set → Compile.assignment.Within R) :
    (Compile.statement k matched indent).Within R := by
  have behind {x : Compile Unit} (within : x.Within R) :
      (Compile.closeBlock matched >>= fun _ => x).Within R :=
    (allows.closeBlock matched).bind allows.trans fun _ => within
  cases k with
  | none => exact behind (assigns (.inl rfl))
  | some k =>
    cases k
    case elseThen => exact allows.elseThen matched indent
    case untilTrue => exact allows.untilTrue matched
    case endif | endwhile => exact allows.closer _ _ matched
    case forever => exact behind (.ite (allows.pure _) (allows.plainLoop _ indent))
    case begin | finish => exact allows.fail _
    case doLoop => exact behind (allows.plainLoop _ indent)
    case whileLoop => exact behind (allows.whileLoop indent)
    case ifThen => exact behind (allows.ifThen indent)
    case breakLoop | continueLoop => exact behind (allows.leaveLoop _ _)
    case delay => exact behind (allows.expression.bind allows.trans fun _ => allows.emit _)
    case wait => exact behind allows.wait
    case print => exact behind allows.print
    case println => exact behind allows.println
    case clear => exact behind (allows.emit _)
    case run => exact behind allows.run
    case stop => exact behind allows.stop
    case set => exact behind (assigns (.inr rfl))

theorem raw (indent : Nat) : (Compile.raw indent).Within R :=
  (allows.align indent).bind allows.trans fun matched => allows.behind_raw matched

theorem beginProgram : Compile.beginProgram.Within R := by
  refine allows.endOfLine.bind allows.trans fun _ =>
    allows.toAllows.compiler.bind allows.trans fun c => ?_
  have begun {f : Compiler → Compiler} (same : ∀ c, (f c).lineLength = c.lineLength) :
      (Compile.update f >>= fun _ => Compile.emit .beginDownload).Within R :=
    (allows.update same).bind allows.trans fun _ => allows.emit _
  dsimp only
  split
  · exact (allows.emit _).bind allows.trans fun _ => begun fun _ => rfl
  · exact begun fun _ => rfl

theorem endProgram (indent : Nat) : (Compile.endProgram indent).Within R := by
  -- The result of the checks decides what is done to the compiler, so this is no plain sequence.
  have checks : (Compile.lastChecks indent).Within R :=
    (allows.align indent).bind allows.trans fun matched => allows.behind_lastChecks matched
  intro d
  have checked := checks d
  unfold Compile.endProgram
  split
  · exact allows.refl d
  · cases done : Compile.lastChecks indent d with
    | ok _ e =>
      rw [done] at checked
      exact allows.trans checked
        (allows.trans (allows.compiler e (by rfl)) (allows.emit .endDownload _))
    | error f e =>
      rw [done] at checked
      exact allows.trans checked (allows.compiler e rfl)

/-- A line behind its keyword, which is none that frames a program. -/
theorem behind_keyword (k : Option Keyword) (indent : Nat)
    (assigns : k = none ∨ k = some .set → Compile.assignment.Within R) : Within R (do
      let matched ← Compile.align indent
      Compile.statement k matched indent
      let _ ← Compile.scanning Scan.skipSpaces
      Compile.endOfLine) :=
  (allows.align indent).bind allows.trans fun matched =>
    (allows.statement k matched indent assigns).bind allows.trans fun _ => allows.behind_statement

theorem command (indent : Nat) (assigns : Compile.assignment.Within R) :
    (Compile.command indent).Within R := by
  refine allows.keyword.bind allows.trans fun k => ?_
  split
  · exact allows.beginProgram
  · exact allows.endProgram indent
  · exact allows.behind_keyword _ indent fun _ => assigns

/-- The work on any line, if the relation allows assignments. -/
theorem line (assigns : Compile.assignment.Within R) : Compile.line.Within R :=
  (allows.scanning _).bind allows.trans fun indent => allows.get.bind allows.trans fun _ =>
    .ite (allows.pure _) (.ite (allows.failNoting _ _)
      ((allows.scanning _).bind allows.trans fun _ => .ite (allows.raw indent)
        (allows.command indent assigns)))

end AllowsAll

/-- Whatever is done to a draft, no name becomes too long. -/
theorem allowsAll_becomes : AllowsAll fun d e => d.scope.vars.Becomes e.scope.vars where
  refl _ := .refl _
  trans := .trans
  rest _ _ := .refl _
  emitted _ _ := .refl _
  compiler _ _ _ := .refl _

/-- Whatever is done to a draft, the lines may have the same length. -/
theorem allowsAll_lineLength :
    AllowsAll fun d e => e.compiler.lineLength = d.compiler.lineLength where
  refl _ := rfl
  trans first second := second.trans first
  rest _ _ := rfl
  emitted _ _ := rfl
  compiler _ _ same := same

end Compile

namespace Compiler

variable (c : Compiler) (vars : Variables) (readings : Readings) (text : String)

/-- The draft that the work on a line starts with. -/
def start (scope : Scope) : Draft :=
  { rest := Bytes.ofChars (trimEnd text.toList), compiler := c, scope }

/-- A line changes its draft as far as a relation allows. -/
theorem draft_within {R : Draft → Draft → Prop} (allows : Compile.AllowsAll R)
    (assigns : Compile.assignment.Within R) (scope : Scope) :
    R (c.start text scope) (reached (c.draft scope text)) := by
  unfold draft
  dsimp only
  split
  · exact allows.refl _
  · exact allows.line assigns _

/-- What compiling a line leaves is what the work on it has come to. Only the program may be marked
in addition. -/
theorem exists_compileLine_eq :
    let d := reached (c.countLine.draft { vars, readings } text)
    (c.compileLine vars readings text).vars = d.scope.vars ∧
      ∃ mark, (c.compileLine vars readings text).compiler =
        { d.compiler with programError := mark } := by
  unfold compileLine
  dsimp only
  cases c.countLine.draft { vars, readings } text <;> exact ⟨rfl, _, rfl⟩

/-- No line makes a variable with a name that is too long, even if it has a fault. -/
theorem becomes_compileLine : vars.Becomes (c.compileLine vars readings text).vars := by
  have allows := Compile.allowsAll_becomes
  rw [(c.exists_compileLine_eq vars readings text).1]
  exact c.countLine.draft_within text allows (allows.assignment fun _ _ becomes => becomes)
    { vars, readings }

/-- No line changes the length that lines may have. -/
theorem lineLength_compileLine :
    (c.compileLine vars readings text).compiler.lineLength = c.lineLength := by
  have allows := Compile.allowsAll_lineLength
  have same := c.countLine.draft_within text allows (allows.assignment fun _ _ _ => rfl)
    { vars, readings }
  obtain ⟨-, mark, compiled⟩ := c.exists_compileLine_eq vars readings text
  rw [compiled]
  exact same.trans c.lineLength_countLine

end Compiler

end ControlScript
