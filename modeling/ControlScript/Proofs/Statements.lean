import ControlScript.Proofs.Nests

/-!
# Statements, read and obeyed

In a program, compiling a statement is reading it and then acting on what was read: the compiler
succeeds just if the reading does and the nest obeys, and it emits what the nest emits.

## Main definitions

* `Compiler.nest`, `Compiler.withNest` — the part of a compiler that deals with blocks
* `Draft.after` — the work on a line after some of it was read and acted on
* `Compile.parsing` — reading, as a part of the work on a line

## Main results

* `Compile.success?_align` — the rules of indentation
* `Compile.exists_action_eq` — the statements that stand for actions
* `Compile.success?_statement` — a statement is read and then obeyed
-/

namespace ControlScript

namespace Compiler

/-- The part of a compiler that deals with blocks. -/
def nest (c : Compiler) : Nest :=
  { limit := c.blocks.limit, blocks := c.blocks.items, indent := c.indent,
    openedBlock := c.openedBlock, nextLabel := c.nextLabel }

/-- The compiler with another such part. -/
def withNest (c : Compiler) (n : Nest) : Compiler :=
  { c with blocks := { c.blocks with limit := n.limit, items := n.blocks }, indent := n.indent,
           openedBlock := n.openedBlock, nextLabel := n.nextLabel }

@[simp] theorem nextLabel_nest (c : Compiler) : c.nest.nextLabel = c.nextLabel := rfl

@[simp] theorem withNest_nest (c : Compiler) : c.withNest c.nest = c := rfl

@[simp] theorem nest_withNest (c : Compiler) (n : Nest) : (c.withNest n).nest = n := rfl

@[simp] theorem withNest_withNest (c : Compiler) (n m : Nest) :
    (c.withNest n).withNest m = c.withNest m := rfl

@[simp] theorem compiling_withNest (c : Compiler) (n : Nest) :
    (c.withNest n).compiling = c.compiling := rfl

@[simp] theorem programError_withNest (c : Compiler) (n : Nest) :
    (c.withNest n).programError = c.programError := rfl

@[simp] theorem lineLength_withNest (c : Compiler) (n : Nest) :
    (c.withNest n).lineLength = c.lineLength := rfl

end Compiler

/-- The part of the work on a line that reading needs. -/
def Draft.passage (d : Draft) : Passage := { rest := d.rest, scope := d.scope }

/-- The work on a line after some of it was read. -/
def Draft.withPassage (d : Draft) (p : Passage) : Draft :=
  { d with rest := p.rest, scope := p.scope }

/-- The work on a line after some of it was read and acted on. -/
def Draft.after (d : Draft) (p : Passage) (n : Nest) (code : List Instruction) : Draft :=
  { rest := p.rest, scope := p.scope, compiler := d.compiler.withNest n,
    emitted := d.emitted ++ code }

namespace Draft

variable (d : Draft) (p q : Passage) (n m : Nest) (before code : List Instruction)

@[simp] theorem passage_after : (d.after p n code).passage = p := rfl

@[simp] theorem nest_after : (d.after p n code).compiler.nest = n := rfl

@[simp] theorem nextLabel_after : (d.after p n code).compiler.nextLabel = n.nextLabel := rfl

@[simp] theorem compiling_after :
    (d.after p n code).compiler.compiling = d.compiler.compiling := rfl

@[simp] theorem after_after :
    (d.after p n before).after q m code = d.after q m (before ++ code) := by
  simp [after]

@[simp] theorem withPassage_after : (d.after p n code).withPassage q = d.after q n code := rfl

theorem withPassage_eq_after : d.withPassage p = d.after p d.compiler.nest [] := by
  simp [withPassage, after]

end Draft

/-- Whether a statement with the keyword stands for an action, as one without any keyword does. -/
def Keyword.isAction : Keyword → Bool
  | .set | .delay | .wait | .print | .println | .clear => true
  | _ => false

namespace Compile

variable {α β : Type}

/-- Reading, as a part of the work on a line. -/
def parsing (x : Parse α) : Compile α := x.on Draft.passage Draft.withPassage

theorem success?_parsing (x : Parse α) (d : Draft) :
    Attempt.success? (parsing x d) =
      (Attempt.success? (x d.passage)).map fun (a, p) => (a, d.withPassage p) :=
  Attempt.success?_on _ _ _ _

theorem parsing_bind (x : Parse α) (f : α → Parse β) :
    parsing (x >>= f) = parsing x >>= fun a => parsing (f a) := by
  funext d
  simp only [parsing, Attempt.on, Attempt.bind_apply]
  cases x d.passage <;> rfl

theorem parsing_pure (a : α) : parsing (pure a) = pure a := rfl

theorem parsing_fail (cause : Cause) :
    parsing (Attempt.fail cause : Parse α) = Attempt.fail cause := rfl

theorem parsing_failNoting (cause : Cause) (note : String) :
    parsing (Attempt.failNoting cause note : Parse α) = Attempt.failNoting cause note := rfl

theorem parsing_scanning (x : Scan α) : parsing (Parse.scanning x) = scanning x := by
  funext d
  simp only [parsing, Parse.scanning, scanning, Attempt.on, Draft.passage]
  cases x d.rest <;> rfl

theorem parsing_onVariables (x : Attempt Variables α) :
    parsing (Parse.onVariables x) = onVariables x := by
  funext d
  simp only [parsing, Parse.onVariables, onVariables, Attempt.on, Draft.passage]
  cases x d.scope.vars <;> rfl

theorem parsing_operand : parsing Parse.operand = operand := by
  funext d
  simp only [parsing, Parse.operand, operand, Parse.scanning, scanning, Attempt.on,
    Attempt.bind_apply, Attempt.get_apply, Draft.passage]
  cases Operand.scan d.scope d.rest <;> rfl

theorem parsing_expression : parsing Parse.expression = expression := by
  funext d
  simp only [parsing, Parse.expression, expression, Parse.scanning, scanning, Attempt.on,
    Attempt.bind_apply, Attempt.get_apply, Draft.passage]
  cases Expression.scan d.scope d.rest <;> rfl

theorem parsing_condition : parsing Parse.condition = condition := by
  funext d
  simp only [parsing, Parse.condition, condition, Parse.scanning, scanning, Attempt.on,
    Attempt.bind_apply, Attempt.get_apply, Draft.passage]
  cases Condition.scan d.scope d.rest <;> rfl

theorem parsing_ite (c : Prop) [Decidable c] (x y : Parse α) :
    parsing (if c then x else y) = if c then parsing x else parsing y := by
  split <;> rfl

/-- An assignment is read and then emitted. -/
theorem assignment_eq : assignment = parsing Parse.assignment >>= fun target =>
    emitAll (Action.assign target.1 target.2).code := by
  simp only [assignment, Parse.assignment, parsing_bind, parsing_scanning, parsing_ite,
    parsing_onVariables, parsing_expression, parsing_pure, parsing_failNoting, bind_assoc]
  refine bind_congr fun name => bind_congr fun _ => bind_congr fun isAssignment => ?_
  cases isAssignment
  · rfl
  · simp only [if_true, bind_assoc, pure_bind]
    rfl

theorem wait_eq :
    wait = parsing Parse.operand >>= fun seconds => emitAll (Action.wait seconds).code := by
  rw [parsing_operand]
  rfl

theorem quotedText_eq :
    quotedText = parsing Parse.quotedText >>= fun what => emit what.instruction := by
  simp only [quotedText, Parse.quotedText, parsing_bind, parsing_scanning, parsing_ite,
    parsing_pure, parsing_fail, bind_assoc]
  refine bind_congr fun _ => bind_congr fun text => bind_congr fun isClosed => ?_
  cases isClosed <;> rfl

theorem print_eq : print = parsing Parse.printed >>= fun what => emit what.instruction := by
  simp only [print, Parse.printed, parsing_bind, parsing_scanning, bind_assoc]
  refine bind_congr fun first => ?_
  cases first with
  | none => rfl
  | some b =>
    simp only [quotedText_eq, parsing_ite, parsing_bind, parsing_expression, parsing_pure]
    split
    · rfl
    · simp only [bind_assoc, pure_bind]
      rfl

theorem println_eq :
    println = parsing Parse.printed? >>= fun what => emitAll (Action.println what).code := by
  simp only [println, Parse.printed?, parsing_bind, parsing_scanning, bind_assoc]
  refine bind_congr fun first => ?_
  cases first with
  | none => rfl
  | some b =>
    simp only [print_eq, parsing_bind, parsing_pure, bind_assoc, pure_bind]
    refine bind_congr fun what => ?_
    funext d
    simp [emit, emitAll, Action.code, Attempt.bind_apply]

theorem success?_parsing_bind (x : Parse α) (f : α → Compile β) (d : Draft) :
    Attempt.success? ((parsing x >>= f) d) =
      (Attempt.success? (x d.passage)).bind fun (a, p) =>
        Attempt.success? (f a (d.withPassage p)) := by
  rw [Attempt.success?_bind, success?_parsing, Option.bind_map]
  rfl

theorem success?_emitAll (code : List Instruction) (d : Draft) :
    Attempt.success? (emitAll code d) = some ((), d.after d.passage d.compiler.nest code) := rfl

theorem success?_compiler (d : Draft) :
    Attempt.success? (compiler d) = some (d.compiler, d) := rfl

theorem success?_update (f : Compiler → Compiler) (d : Draft) :
    Attempt.success? (update f d) = some ((), { d with compiler := f d.compiler }) := rfl

/-- The rules of indentation in a program. -/
theorem success?_align (indent : Nat) {d : Draft} (inProgram : d.compiler.compiling = true) :
    Attempt.success? (align indent d) =
      (d.compiler.nest.align indent).map fun (n, matched, code) =>
        (matched, d.after d.passage n code) := by
  have nothing : d.after d.passage d.compiler.nest [] = d := by
    simp [Draft.after, Draft.passage]
  simp only [align, Attempt.success?_bind, success?_compiler, Option.bind_some, inProgram,
    Bool.not_true, Bool.false_eq_true, if_false]
  unfold Nest.align
  rw [show d.compiler.nest.openedBlock = d.compiler.openedBlock from rfl,
    show d.compiler.nest.indent = d.compiler.indent from rfl,
    show d.compiler.nest.blocks = d.compiler.blocks.items from rfl]
  by_cases opened : d.compiler.openedBlock = true
  · by_cases shallow : indent ≤ d.compiler.indent
    · simp [opened, shallow, Attempt.success?_bind, success?_update]
    · simp [opened, shallow, Attempt.success?_bind, Attempt.success?_map, success?_update,
        Draft.after, Draft.passage, Compiler.withNest, Compiler.nest]
  by_cases deeper : d.compiler.indent < indent
  · simp [opened, deeper]
  by_cases level : d.compiler.indent = indent
  · simp [opened, level, nothing]
  simp only [opened, deeper, level, if_false]
  cases d.compiler.blocks.items.dropWhile fun b => decide (indent < b.indent) with
  | nil => simp [Attempt.success?_bind, success?_update]
  | cons opener others =>
    by_cases same : opener.indent = indent
    · simpa [same, Attempt.success?_bind, Attempt.success?_map, success?_emitAll, success?_update,
        Draft.after, Draft.passage, Compiler.withNest, Compiler.nest] using opened
    · simp [same, Attempt.success?_bind, success?_update]

theorem success?_requireProgram {d : Draft} (inProgram : d.compiler.compiling = true) :
    Attempt.success? (requireProgram d) = some ((), d) := by
  simp [requireProgram, Attempt.success?_bind, success?_compiler, inProgram]

theorem success?_allocateLabels (d : Draft) :
    Attempt.success? (allocateLabels d) = some (d.compiler.nextLabel, d.after d.passage
      { d.compiler.nest with nextLabel := d.compiler.nextLabel + 2 } []) := by
  simp [allocateLabels, Attempt.success?_map, Attempt.success?_bind, success?_compiler,
    success?_update, Draft.after, Draft.passage, Compiler.withNest, Compiler.nest]

theorem success?_openBlock (block : Block) (d : Draft) :
    Attempt.success? (openBlock block d) =
      (d.compiler.nest.push block).map fun n => ((), d.after d.passage n []) := by
  simp only [openBlock, Attempt.success?_bind, onBlocks, Attempt.success?_on, Stack.push,
    Stack.depth, Nest.push, Compiler.nest]
  by_cases room : d.compiler.blocks.items.length < d.compiler.blocks.limit
  · simp [room, success?_update, Draft.after, Draft.passage, Compiler.withNest]
  · simp [room]

theorem success?_closeBlock (block : Option Block) (d : Draft) :
    Attempt.success? (closeBlock block d) =
      some ((), d.after d.passage d.compiler.nest (Nest.closing block)) := rfl

/-- What is read and then emitted. -/
theorem success?_parsing_emitAll (x : Parse α) (code : α → List Instruction) (d : Draft) :
    Attempt.success? ((parsing x >>= fun a => emitAll (code a)) d) =
      (Attempt.success? (x d.passage)).map fun (a, p) =>
        ((), d.after p d.compiler.nest (code a)) := by
  rw [success?_parsing_bind, Option.map_eq_bind]
  rfl

/-- An action is read and then obeyed. -/
theorem success?_action (x : Parse α) (action : α → Action)
    (stored : ∀ a, (action a).isRemote = false) (matched : Option Block) (indent : Nat)
    (d : Draft) :
    Attempt.success? ((closeBlock matched >>= fun _ =>
        parsing x >>= fun a => emitAll (action a).code) d) =
      (Attempt.success? ((do return Sentence.action (action (← x)) : Parse _) d.passage)).bind
        fun (s, p) => (d.compiler.nest.obey matched indent s).map
          fun (n, code) => ((), d.after p n code) := by
  rw [Attempt.success?_bind]
  simp only [success?_closeBlock, Option.bind_some, success?_parsing_emitAll, bind_pure_comp,
    Attempt.success?_map, Draft.passage_after, Draft.nest_after]
  cases Attempt.success? (x d.passage) with
  | none => rfl
  | some result => simp [Nest.obey, stored]

/-- The statement of an action closes a block, if there is one to be closed. Then the action is read
and emitted. -/
theorem exists_action_eq {k : Option Keyword} (acts : k.all Keyword.isAction = true) :
    ∃ (α : Type) (x : Parse α) (action : α → Action), (∀ a, (action a).isRemote = false) ∧
      Parse.sentence k = (do return Sentence.action (action (← x))) ∧
      ∀ matched indent, statement k matched indent = closeBlock matched >>= fun _ =>
        parsing x >>= fun a => emitAll (action a).code := by
  cases k with
  | none =>
    refine ⟨_, Parse.assignment, fun a => .assign a.1 a.2, fun _ => rfl, rfl, fun matched _ => ?_⟩
    rw [← assignment_eq]
    rfl
  | some k =>
    cases k with
    | set =>
      refine ⟨_, Parse.assignment, fun a => .assign a.1 a.2, fun _ => rfl, rfl, fun matched _ => ?_⟩
      rw [← assignment_eq]
      rfl
    | delay =>
      refine ⟨_, Parse.expression, .delay, fun _ => rfl, rfl, fun matched _ => ?_⟩
      rw [parsing_expression]
      rfl
    | wait =>
      refine ⟨_, Parse.operand, .wait, fun _ => rfl, rfl, fun matched _ => ?_⟩
      rw [← wait_eq]
      rfl
    | print =>
      refine ⟨_, Parse.printed, .print, fun _ => rfl, rfl, fun matched _ => ?_⟩
      rw [show (parsing Parse.printed >>= fun a => emitAll (Action.print a).code) = print from
        print_eq.symm]
      rfl
    | println =>
      refine ⟨_, Parse.printed?, .println, fun _ => rfl, rfl, fun matched _ => ?_⟩
      rw [← println_eq]
      rfl
    | clear => exact ⟨Unit, pure (), fun _ => .clear, fun _ => rfl, rfl, fun _ _ => rfl⟩
    | _ => cases acts

section

variable {d : Draft} (inProgram : d.compiler.compiling = true)
include inProgram

theorem success?_ifThen (indent : Nat) :
    Attempt.success? (ifThen indent d) =
      (Attempt.success? (Parse.condition d.passage)).bind fun (holds, p) =>
        (d.compiler.nest.enter .conditional indent).map fun n =>
          ((), d.after p n [.jumpUnless holds d.compiler.nextLabel]) := by
  simp only [ifThen, Attempt.success?_bind, success?_requireProgram inProgram, Option.bind_some,
    ← parsing_condition, success?_parsing, Option.bind_map]
  refine Option.bind_congr fun (holds, p) _ => ?_
  simp [success?_allocateLabels, success?_openBlock, success?_emitAll, emit, Nest.enter,
    Draft.withPassage_eq_after]

theorem success?_whileLoop (indent : Nat) :
    Attempt.success? (whileLoop indent d) =
      (Attempt.success? (Parse.condition d.passage)).bind fun (holds, p) =>
        (d.compiler.nest.enter .whileLoop indent).map fun n =>
          ((), d.after p n [.declare d.compiler.nextLabel,
            .jumpUnless holds (d.compiler.nextLabel + 1)]) := by
  simp only [whileLoop, Attempt.success?_bind, success?_requireProgram inProgram,
    Option.bind_some, ← parsing_condition, success?_parsing, Option.bind_map]
  refine Option.bind_congr fun (holds, p) _ => ?_
  simp [success?_allocateLabels, success?_openBlock, success?_emitAll, emit, Nest.enter,
    Draft.withPassage_eq_after]

theorem success?_plainLoop (kind : BlockKind) (indent : Nat) :
    Attempt.success? (plainLoop kind indent d) =
      (d.compiler.nest.enter kind indent).map fun n =>
        ((), d.after d.passage n [.declare d.compiler.nextLabel]) := by
  simp [plainLoop, Attempt.success?_bind, success?_requireProgram inProgram,
    success?_allocateLabels, success?_openBlock, success?_emitAll, emit, Nest.enter]

theorem success?_elseThen (matched : Option Block) (indent : Nat) :
    Attempt.success? (elseThen matched indent d) =
      (d.compiler.nest.obey matched indent .elseThen).map fun (n, code) =>
        ((), d.after d.passage n code) := by
  simp only [elseThen, Attempt.success?_bind, success?_requireProgram inProgram,
    Option.bind_some, Nest.obey]
  cases matched.filter fun b => b.kind = .conditional ∧ !b.elseSeen with
  | none => rfl
  | some b =>
    simp [Attempt.success?_bind, success?_openBlock, success?_emitAll, emit, Function.comp_def]

theorem success?_untilTrue (matched : Option Block) (indent : Nat) :
    Attempt.success? (untilTrue matched d) =
      (Attempt.success? (Parse.condition d.passage)).bind fun (holds, p) =>
        (d.compiler.nest.obey matched indent (.untilTrue holds)).map fun (n, code) =>
          ((), d.after p n code) := by
  simp only [untilTrue, Attempt.success?_bind, success?_requireProgram inProgram,
    Option.bind_some, Nest.obey]
  cases matched.filter (·.kind = .doLoop) with
  | none => cases Attempt.success? (Parse.condition d.passage) <;> rfl
  | some b =>
    simp [Attempt.success?_bind, ← parsing_condition, success?_parsing, success?_emitAll, emit,
      Draft.withPassage_eq_after, Option.map_eq_bind, Option.bind_assoc]

theorem success?_closer (kinds : List BlockKind) (otherwise : Cause) (matched : Option Block) :
    Attempt.success? (closer kinds otherwise matched d) =
      (d.compiler.nest.close kinds matched).map fun (n, code) =>
        ((), d.after d.passage n code) := by
  simp only [closer, Attempt.success?_bind, success?_requireProgram inProgram,
    Option.bind_some, Nest.close]
  cases matched.filter (·.kind ∈ kinds) with
  | none => rfl
  | some b => simp [success?_closeBlock, Nest.closing]

theorem success?_leaveLoop (otherwise : Cause) (target : Block → Nat) :
    Attempt.success? (leaveLoop otherwise target d) =
      d.compiler.nest.innermostLoop?.map fun loop =>
        ((), d.after d.passage d.compiler.nest [.jump (target loop)]) := by
  simp only [leaveLoop, Attempt.success?_bind, success?_requireProgram inProgram,
    Option.bind_some, success?_compiler]
  rw [show d.compiler.blocks.items.find? (·.kind.isLoop) = d.compiler.nest.innermostLoop? from rfl]
  cases d.compiler.nest.innermostLoop? with
  | none => rfl
  | some loop => rfl

/-- The one word that closes a block of one kind and opens another where there is none to close. -/
theorem success?_forever (matched : Option Block) (indent : Nat) :
    Attempt.success? (statement (some .forever) matched indent d) =
      (d.compiler.nest.obey matched indent .forever).map fun (n, code) =>
        ((), d.after d.passage n code) := by
  let closed : Draft := d.after d.passage d.compiler.nest (Nest.closing matched)
  by_cases isDo : matched.any (·.kind = .doLoop) = true
  · simp [statement, success?_closeBlock, isDo, Nest.obey]
  · have opens : statement (some .forever) matched indent = closeBlock matched >>= fun _ =>
        plainLoop .foreverLoop indent := by
      simp [statement, isDo]
    rw [opens]
    change Attempt.success? (plainLoop .foreverLoop indent closed) = _
    rw [success?_plainLoop (d := closed) inProgram]
    simp [closed, Nest.obey, isDo, Function.comp_def]

/-- In a program, a statement is read and then obeyed. -/
theorem success?_statement (k : Option Keyword) (matched : Option Block) (indent : Nat) :
    Attempt.success? (statement k matched indent d) =
      (Attempt.success? (Parse.sentence k d.passage)).bind fun (s, p) =>
        (d.compiler.nest.obey matched indent s).map fun (n, code) => ((), d.after p n code) := by
  let closed : Draft := d.after d.passage d.compiler.nest (Nest.closing matched)
  have inProgram' : closed.compiler.compiling = true := inProgram
  by_cases acts : k.all Keyword.isAction = true
  · obtain ⟨α, x, action, stored, said, form⟩ := exists_action_eq acts
    rw [form, said]
    exact success?_action x action stored matched indent d
  -- What is left opens, closes or leaves a block, or it is refused.
  cases k with
  | none => exact absurd rfl acts
  | some k =>
    cases k
    case set | delay | wait | print | println | clear => exact absurd rfl acts
    case ifThen =>
      change Attempt.success? (ifThen indent closed) = _
      rw [success?_ifThen inProgram']
      simp [closed, Parse.sentence, Attempt.success?_map, Nest.obey, Option.bind_map,
        Function.comp_def]
    case whileLoop =>
      change Attempt.success? (whileLoop indent closed) = _
      rw [success?_whileLoop inProgram']
      simp [closed, Parse.sentence, Attempt.success?_map, Nest.obey, Option.bind_map,
        Function.comp_def]
    case doLoop =>
      change Attempt.success? (plainLoop .doLoop indent closed) = _
      rw [success?_plainLoop inProgram']
      simp [closed, Parse.sentence, Nest.obey, Function.comp_def]
    case forever =>
      rw [success?_forever inProgram]
      simp [Parse.sentence]
    case elseThen =>
      rw [show statement (some .elseThen) matched indent = elseThen matched indent from rfl,
        success?_elseThen inProgram]
      simp [Parse.sentence]
    case untilTrue =>
      rw [show statement (some .untilTrue) matched indent = untilTrue matched from rfl,
        success?_untilTrue inProgram matched indent]
      simp only [Parse.sentence, bind_pure_comp, Attempt.success?_map, Option.bind_map,
        Function.comp_def]
    case endif =>
      rw [show statement (some .endif) matched indent =
        closer [.conditional] .endifWithoutIf matched from rfl, success?_closer inProgram]
      simp [Parse.sentence, Nest.obey]
    case endwhile =>
      rw [show statement (some .endwhile) matched indent =
        closer [.whileLoop, .foreverLoop] .endwhileWithoutWhile matched from rfl,
        success?_closer inProgram]
      simp [Parse.sentence, Nest.obey]
    case breakLoop =>
      change Attempt.success? (leaveLoop .breakOutsideLoop (·.label + 1) closed) = _
      rw [success?_leaveLoop inProgram']
      simp [closed, Parse.sentence, Nest.obey, Function.comp_def]
    case continueLoop =>
      change Attempt.success? (leaveLoop .continueOutsideLoop (·.label) closed) = _
      rw [success?_leaveLoop inProgram']
      simp [closed, Parse.sentence, Nest.obey, Function.comp_def]
    case run | stop =>
      simp [statement, run, stop, Parse.sentence, Attempt.success?_bind, success?_closeBlock,
        forbidProgram, success?_compiler, inProgram, Nest.obey]
    case begin | finish =>
      simp [statement, Parse.sentence, Nest.obey]

end

end Compile

end ControlScript
