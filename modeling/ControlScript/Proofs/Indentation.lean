import ControlScript.Compiler.Line
import Mathlib.Order.Monotone.Basic

/-!
# Indentation

A compiler remembers how far the current block is indented, and the lines that have opened blocks,
only to compare this with the next line. The work on a line is made of the rules of indentation,
which compare, and of pieces that do not look at indentation at all. So it is the same work when the
indentation is changed in a way that keeps its order. Outside of programs nothing is indented, and a
program starts there, so that no indentation must stay none.

This is shown for one piece after the other, up to the work on a whole line. What is changed of a
draft is only what its compiler remembers.

## Main definitions

* `Compiler.reindented` — a compiler that remembers changed indentation
* `Compile.Mirrors`, `Compile.Indifferent` — work that does the same when indentation is changed

## Main results

* `Compile.mirrors_align` — the rules of indentation
* `Compile.mirrors_statement`, `Compile.mirrors_command` — what is behind the indentation of a line
* `Compile.line_reindented` — the work on a line
-/

namespace ControlScript

open Attempt

/-- A block that was opened at another indentation. -/
def Block.reindented (f : Nat → Nat) (b : Block) : Block := { b with indent := f b.indent }

/-- A compiler that remembers other indentation. -/
def Compiler.reindented (f : Nat → Nat) (c : Compiler) : Compiler :=
  { c with
    indent := f c.indent
    blocks := { c.blocks with items := c.blocks.items.map (Block.reindented f) } }

/-- A draft of such a compiler. -/
def Draft.reindented (f : Nat → Nat) (d : Draft) : Draft :=
  { d with compiler := d.compiler.reindented f }

namespace Compiler

variable {f : Nat → Nat}

@[simp] theorem depth_reindented (f : Nat → Nat) (c : Compiler) :
    (c.reindented f).depth = c.depth := List.length_map _

/-- Outside of programs nothing is indented. -/
theorem leave_reindented (zero : f 0 = 0) (c : Compiler) :
    (c.reindented f).leave = c.leave.reindented f := by
  simp [leave, reindented, Stack.clear, zero]

theorem countLine_reindented (c : Compiler) :
    (c.reindented f).countLine = c.countLine.reindented f := by
  unfold countLine
  split
  · next inProgram =>
    rw [if_pos (show c.compiling = true from inProgram)]
    rfl
  · next outside =>
    rw [if_neg (show ¬c.compiling = true from outside)]

end Compiler

namespace Compile

variable {α β γ δ : Type} {f : Nat → Nat}

/-- What some work comes to, when indentation is changed and results are as `g` shows them. -/
def outcome (f : Nat → Nat) (g : α → β) : EStateM.Result Fault Draft α →
    EStateM.Result Fault Draft β
  | .ok a d => .ok (g a) (d.reindented f)
  | .error fault d => .error fault (d.reindented f)

/-- On drafts with changed indentation, the second piece of work does what the first does on drafts
as they were. -/
def Mirrors (f : Nat → Nat) (g : α → β) (x : Compile α) (y : Compile β) : Prop :=
  ∀ d, y (d.reindented f) = outcome f g (x d)

/-- Work that does not look at indentation. -/
def Indifferent (f : Nat → Nat) (x : Compile α) : Prop := Mirrors f id x x

theorem Mirrors.bind {g : α → β} {h : γ → δ} {x : Compile α} {y : Compile β}
    {next : α → Compile γ} {next' : β → Compile δ} (first : Mirrors f g x y)
    (second : ∀ a, Mirrors f h (next a) (next' (g a))) :
    Mirrors f h (x >>= next) (y >>= next') := by
  intro d
  rw [bind_apply, bind_apply, first d]
  cases x d with
  | ok a e => exact second a e
  | error fault e => rfl

theorem Indifferent.bind {h : γ → δ} {x : Compile α} {next : α → Compile γ}
    {next' : α → Compile δ} (first : Indifferent f x)
    (second : ∀ a, Mirrors f h (next a) (next' a)) :
    Mirrors f h (x >>= next) (x >>= next') := Mirrors.bind first second

theorem Mirrors.ite {g : α → β} {p q : Prop} [Decidable p] [Decidable q] {x x' : Compile α}
    {y y' : Compile β} (same : q ↔ p) (first : Mirrors f g x y) (second : Mirrors f g x' y') :
    Mirrors f g (if p then x else x') (if q then y else y') := by
  by_cases holds : p
  · rwa [if_pos holds, if_pos (same.mpr holds)]
  · rwa [if_neg holds, if_neg (mt same.mp holds)]

/-! ### Work that does not look at indentation -/

theorem mirrors_pure (g : α → β) (a : α) : Mirrors f g (pure a) (pure (g a)) := fun _ => rfl

theorem mirrors_fail (g : α → β) (cause : Cause) :
    Mirrors f g (Attempt.fail cause) (Attempt.fail cause) := fun _ => rfl

theorem mirrors_failNoting (g : α → β) (cause : Cause) (note : String) :
    Mirrors f g (Attempt.failNoting cause note) (Attempt.failNoting cause note) := fun _ => rfl

theorem mirrors_get : Mirrors f (Draft.reindented f) get get := fun _ => rfl

theorem mirrors_compiler : Mirrors f (Compiler.reindented f) compiler compiler := fun _ => rfl

theorem mirrors_update {u v : Compiler → Compiler}
    (same : ∀ c, v (c.reindented f) = (u c).reindented f) : Mirrors f id (update u) (update v) := by
  intro d
  change EStateM.Result.ok () { d with compiler := v (d.compiler.reindented f) } = _
  rw [same]
  rfl

theorem indifferent_emitAll (code : List Instruction) : Indifferent f (emitAll code) :=
  fun _ => rfl

theorem indifferent_emit (i : Instruction) : Indifferent f (emit i) := indifferent_emitAll [i]

/-- Work on a part of a draft that indentation has no bearing on. -/
theorem indifferent_on {σ : Type} {part : Draft → σ} {replace : Draft → σ → Draft}
    (x : Attempt σ α) (shows : ∀ d, part (d.reindented f) = part d)
    (renews : ∀ d s, replace (d.reindented f) s = (replace d s).reindented f) :
    Indifferent f (x.on part replace) := by
  intro d
  unfold Attempt.on
  rw [shows]
  cases x (part d) with
  | ok a s => exact congrArg (EStateM.Result.ok a) (renews d s)
  | error fault s => exact congrArg (EStateM.Result.error fault) (renews d s)

theorem indifferent_scanning (x : Scan α) : Indifferent f (scanning x) :=
  indifferent_on x (fun _ => rfl) fun _ _ => rfl

theorem indifferent_onVariables (x : Attempt Variables α) : Indifferent f (onVariables x) :=
  indifferent_on x (fun _ => rfl) fun _ _ => rfl

theorem indifferent_operand : Indifferent f operand :=
  mirrors_get.bind fun _ => indifferent_scanning _

theorem indifferent_expression : Indifferent f expression :=
  mirrors_get.bind fun _ => indifferent_scanning _

theorem indifferent_condition : Indifferent f condition :=
  mirrors_get.bind fun _ => indifferent_scanning _

theorem indifferent_requireProgram : Indifferent f requireProgram :=
  mirrors_compiler.bind fun _ => .ite Iff.rfl (mirrors_pure _ _) (mirrors_fail _ _)

theorem indifferent_forbidProgram : Indifferent f forbidProgram :=
  mirrors_compiler.bind fun _ => .ite Iff.rfl (mirrors_fail _ _) (mirrors_pure _ _)

theorem indifferent_endOfLine : Indifferent f endOfLine :=
  mirrors_get.bind fun _ => .ite Iff.rfl (mirrors_pure _ _) (mirrors_fail _ _)

theorem indifferent_allocateLabels : Indifferent f allocateLabels := by
  refine mirrors_compiler.bind fun c => Mirrors.bind (g := id) (mirrors_update fun _ => rfl) ?_
  exact fun _ => mirrors_pure id c.nextLabel

theorem indifferent_assignment : Indifferent f assignment :=
  (indifferent_scanning _).bind fun _ => (indifferent_scanning _).bind fun _ =>
    (indifferent_scanning _).bind fun _ => .ite Iff.rfl
      ((indifferent_onVariables _).bind fun _ =>
        indifferent_expression.bind fun _ => indifferent_emit _)
      (mirrors_failNoting _ _ _)

theorem indifferent_wait : Indifferent f wait :=
  indifferent_operand.bind fun _ => indifferent_emit _

theorem indifferent_quotedText : Indifferent f quotedText :=
  (indifferent_scanning _).bind fun _ => (indifferent_scanning _).bind fun _ =>
    (indifferent_scanning _).bind fun _ => .ite Iff.rfl (indifferent_emit _) (mirrors_fail _ _)

theorem indifferent_print : Indifferent f print := by
  refine (indifferent_scanning _).bind fun next => ?_
  cases next with
  | none => exact mirrors_fail _ _
  | some b =>
    exact .ite Iff.rfl indifferent_quotedText
      (indifferent_expression.bind fun _ => indifferent_emit _)

theorem indifferent_println : Indifferent f println := by
  refine (indifferent_scanning _).bind fun next => ?_
  cases next with
  | none => exact indifferent_emit _
  | some b => exact indifferent_print.bind fun _ => indifferent_emit _

theorem indifferent_run : Indifferent f run :=
  indifferent_forbidProgram.bind fun _ => mirrors_compiler.bind fun _ =>
    .ite Iff.rfl (mirrors_fail _ _) (indifferent_emit _)

theorem indifferent_stop : Indifferent f stop :=
  indifferent_forbidProgram.bind fun _ => indifferent_emit _

theorem indifferent_keyword : Indifferent f keyword := by
  refine mirrors_get.bind fun d => ?_
  rw [show (d.reindented f).rest = d.rest from rfl]
  cases Keyword.ofLine? d.rest with
  | none => exact mirrors_pure _ _
  | some k =>
    exact (indifferent_scanning _).bind fun _ => (indifferent_scanning _).bind fun _ =>
      mirrors_pure _ _

/-- The innermost loop is the same one, wherever it was opened. -/
theorem indifferent_leaveLoop (otherwise : Cause) {target : Block → Nat}
    (same : ∀ b : Block, target (b.reindented f) = target b) :
    Indifferent f (leaveLoop otherwise target) := by
  refine indifferent_requireProgram.bind fun _ => mirrors_compiler.bind fun c => ?_
  have found : (c.reindented f).blocks.items.find? (·.kind.isLoop) =
      (c.blocks.items.find? (·.kind.isLoop)).map (Block.reindented f) := List.find?_map ..
  rw [found]
  cases c.blocks.items.find? (·.kind.isLoop) with
  | none => exact mirrors_fail _ _
  | some loop =>
    change Mirrors f id (emit _) (emit (.jump (target (loop.reindented f))))
    rw [same]
    exact indifferent_emit _

/-! ### Work on open blocks -/

theorem mirrors_openBlock (b : Block) :
    Mirrors f id (openBlock b) (openBlock (b.reindented f)) := by
  refine Mirrors.bind (g := id) (fun d => ?_) fun _ => mirrors_update fun _ => rfl
  have depth : (d.reindented f).compiler.blocks.depth = d.compiler.blocks.depth :=
    List.length_map _
  unfold onBlocks Attempt.on Stack.push
  rw [depth]
  by_cases room : d.compiler.blocks.depth < d.compiler.blocks.limit
  · rw [if_pos room, if_pos (show _ < (d.reindented f).compiler.blocks.limit from room)]
    rfl
  · rw [if_neg room, if_neg (show ¬_ < (d.reindented f).compiler.blocks.limit from room)]
    rfl

theorem mirrors_closeBlock (matched : Option Block) :
    Mirrors f id (closeBlock matched) (closeBlock (matched.map (Block.reindented f))) := by
  cases matched <;> exact indifferent_emitAll _

/-- Whether a block is of the right sort does not depend on where it was opened. -/
theorem filter_reindented {p : Block → Bool} (same : ∀ b : Block, p (b.reindented f) = p b)
    (matched : Option Block) :
    (matched.map (Block.reindented f)).filter p = (matched.filter p).map (Block.reindented f) := by
  cases matched with
  | none => rfl
  | some b =>
    rw [Option.map_some, Option.filter_some, Option.filter_some, same]
    split <;> rfl

theorem mirrors_ifThen (indent : Nat) : Mirrors f id (ifThen indent) (ifThen (f indent)) :=
  indifferent_requireProgram.bind fun _ => indifferent_condition.bind fun _ =>
    indifferent_allocateLabels.bind fun _ => (indifferent_emit _).bind fun _ => mirrors_openBlock _

theorem mirrors_whileLoop (indent : Nat) :
    Mirrors f id (whileLoop indent) (whileLoop (f indent)) :=
  indifferent_requireProgram.bind fun _ => indifferent_condition.bind fun _ =>
    indifferent_allocateLabels.bind fun _ => (indifferent_emit _).bind fun _ =>
      (indifferent_emit _).bind fun _ => mirrors_openBlock _

theorem mirrors_plainLoop (kind : BlockKind) (indent : Nat) :
    Mirrors f id (plainLoop kind indent) (plainLoop kind (f indent)) :=
  indifferent_requireProgram.bind fun _ => indifferent_allocateLabels.bind fun _ =>
    (indifferent_emit _).bind fun _ => mirrors_openBlock _

theorem mirrors_elseThen (matched : Option Block) (indent : Nat) :
    Mirrors f id (elseThen matched indent)
      (elseThen (matched.map (Block.reindented f)) (f indent)) := by
  refine indifferent_requireProgram.bind fun _ => ?_
  rw [filter_reindented fun _ => rfl]
  cases matched.filter _ with
  | none => exact mirrors_fail _ _
  | some b =>
    exact (indifferent_emit _).bind fun _ => (indifferent_emit _).bind fun _ =>
      mirrors_openBlock { kind := .conditional, label := b.label + 1, indent, elseSeen := true }

theorem mirrors_untilTrue (matched : Option Block) :
    Mirrors f id (untilTrue matched) (untilTrue (matched.map (Block.reindented f))) := by
  refine indifferent_requireProgram.bind fun _ => ?_
  rw [filter_reindented fun _ => rfl]
  cases matched.filter _ with
  | none => exact mirrors_fail _ _
  | some b =>
    exact indifferent_condition.bind fun _ => (indifferent_emit _).bind fun _ => indifferent_emit _

theorem mirrors_closer (kinds : List BlockKind) (otherwise : Cause) (matched : Option Block) :
    Mirrors f id (closer kinds otherwise matched)
      (closer kinds otherwise (matched.map (Block.reindented f))) := by
  refine indifferent_requireProgram.bind fun _ => ?_
  rw [filter_reindented fun _ => rfl]
  cases matched.filter _ with
  | none => exact mirrors_fail _ _
  | some b => exact mirrors_closeBlock (some b)

/-- A statement looks at its own indentation only where it opens a block, and at that of the block
that the line closes not at all. -/
theorem mirrors_statement (k : Option Keyword) (matched : Option Block) (indent : Nat) :
    Mirrors f id (statement k matched indent)
      (statement k (matched.map (Block.reindented f)) (f indent)) := by
  have behind {x y : Compile Unit} (mirrors : Mirrors f id x y) :
      Mirrors f id (closeBlock matched >>= fun _ => x)
        (closeBlock (matched.map (Block.reindented f)) >>= fun _ => y) :=
    (mirrors_closeBlock matched).bind fun _ => mirrors
  cases k with
  | none => exact behind indifferent_assignment
  | some k =>
    cases k
    case elseThen => exact mirrors_elseThen matched indent
    case untilTrue => exact mirrors_untilTrue matched
    case endif | endwhile => exact mirrors_closer _ _ matched
    case forever =>
      refine behind (.ite ?_ (mirrors_pure _ _) (mirrors_plainLoop _ indent))
      cases matched <;> exact Iff.rfl
    case begin | finish => exact mirrors_fail _ _
    case doLoop => exact behind (mirrors_plainLoop _ indent)
    case whileLoop => exact behind (mirrors_whileLoop indent)
    case ifThen => exact behind (mirrors_ifThen indent)
    case breakLoop | continueLoop => exact behind (indifferent_leaveLoop _ fun _ => rfl)
    case delay => exact behind (indifferent_expression.bind fun _ => indifferent_emit _)
    case wait => exact behind indifferent_wait
    case print => exact behind indifferent_print
    case println => exact behind indifferent_println
    case clear => exact behind (indifferent_emit _)
    case run => exact behind indifferent_run
    case stop => exact behind indifferent_stop
    case set => exact behind indifferent_assignment

/-! ### The rules of indentation -/

section

variable (strict : StrictMono f) (indent : Nat)
include strict

theorem deeper_reindented :
    (fun b : Block => decide (f indent < b.indent)) ∘ Block.reindented f =
      fun b => decide (indent < b.indent) :=
  funext fun _ => decide_eq_decide.mpr strict.lt_iff_lt

/-- The block that a line closes, if the first of those that were not opened deeper is it. -/
theorem opener_reindented (others : List Block) :
    (others.map (Block.reindented f)).head?.filter (·.indent == f indent) =
      (others.head?.filter (·.indent == indent)).map (Block.reindented f) := by
  cases others with
  | nil => rfl
  | cons b others =>
    have here : (b.reindented f).indent = f indent ↔ b.indent = indent := strict.injective.eq_iff
    by_cases same : b.indent = indent <;> simp [Option.filter_some, here, same]

/-- The rules of indentation only compare, so they are the same where the order is. -/
theorem mirrors_align :
    Mirrors f (Option.map (Block.reindented f)) (align indent) (align (f indent)) := by
  refine mirrors_compiler.bind fun c => .ite Iff.rfl (mirrors_pure _ none) (.ite Iff.rfl ?_ ?_)
  -- Behind a line that opens a block.
  · refine Mirrors.bind (g := id) (mirrors_update fun _ => rfl) fun _ => ?_
    refine .ite strict.le_iff_le (mirrors_fail _ _) ?_
    exact Mirrors.bind (g := id) (mirrors_update fun _ => rfl) fun _ => mirrors_pure _ none
  · refine .ite strict.lt_iff_lt (mirrors_fail _ _) ?_
    refine .ite strict.injective.eq_iff (mirrors_pure _ none) ?_
    -- The line is indented less, and closes what was opened deeper.
    have items : (c.reindented f).blocks.items = c.blocks.items.map (Block.reindented f) := rfl
    dsimp only
    rw [items, List.takeWhile_map, List.dropWhile_map, deeper_reindented strict]
    generalize c.blocks.items.takeWhile _ = deeper, c.blocks.items.dropWhile _ = others
    rw [opener_reindented strict, List.flatMap_map]
    refine (indifferent_emitAll _).bind fun _ => ?_
    cases others.head?.filter (·.indent == indent) with
    | none =>
      exact Mirrors.bind (g := id) (mirrors_update fun _ => rfl) fun _ => mirrors_fail _ _
    | some b =>
      refine Mirrors.bind (g := id) (mirrors_update fun _ => ?_) fun _ => mirrors_pure _ (some b)
      simp [Compiler.reindented]

end

/-! ### Lines -/

/-- Where a program begins, indentation starts afresh. -/
theorem indifferent_beginProgram (zero : f 0 = 0) : Indifferent f beginProgram := by
  refine indifferent_endOfLine.bind fun _ => mirrors_compiler.bind fun c => ?_
  have begun : Indifferent f (do
      update fun c =>
        { c.leave with compiling := true, programError := false, lineNumber := 0, nextLabel := 0 }
      emit .beginDownload) := by
    refine Mirrors.bind (g := id) (mirrors_update fun c => ?_) fun _ => indifferent_emit _
    rw [Compiler.leave_reindented zero]
    rfl
  exact .ite Iff.rfl ((indifferent_emit _).bind fun _ => begun) begun

section

variable (strict : StrictMono f)
include strict

theorem mirrors_raw (indent : Nat) : Mirrors f id (raw indent) (raw (f indent)) :=
  (mirrors_align strict indent).bind fun matched => (mirrors_closeBlock matched).bind fun _ =>
    mirrors_get.bind fun _ => .ite Iff.rfl (mirrors_failNoting _ _ _)
      (mirrors_compiler.bind fun _ => .ite Iff.rfl (mirrors_fail _ _) (indifferent_emit _))

theorem mirrors_lastChecks (indent : Nat) :
    Mirrors f id (lastChecks indent) (lastChecks (f indent)) := by
  refine (mirrors_align strict indent).bind fun matched => (mirrors_closeBlock matched).bind
    fun _ => indifferent_endOfLine.bind fun _ => mirrors_compiler.bind fun c => ?_
  refine .ite ?_ (mirrors_fail _ _) (.ite Iff.rfl (mirrors_fail _ _) (mirrors_pure _ _))
  rw [Compiler.depth_reindented]

variable (zero : f 0 = 0)
include zero

/-- Where a program ends, indentation is forgotten, whether the program is complete or not. -/
theorem mirrors_endProgram (indent : Nat) :
    Mirrors f id (endProgram indent) (endProgram (f indent)) := by
  intro d
  have checked := mirrors_lastChecks strict indent d
  unfold endProgram
  rw [show (d.reindented f).compiler.compiling = d.compiler.compiling from rfl, checked]
  cases d.compiler.compiling with
  | false => rfl
  | true =>
    cases lastChecks indent d with
    | ok _ e =>
      have left := Compiler.leave_reindented zero e.compiler
      exact congrArg (fun c => emit .endDownload { e with compiler := c }) left
    | error fault e =>
      have left := Compiler.leave_reindented zero e.compiler
      exact congrArg (fun c : Compiler => EStateM.Result.error fault
        { e with compiler := { c with programError := true } }) left

theorem mirrors_command (indent : Nat) : Mirrors f id (command indent) (command (f indent)) := by
  refine indifferent_keyword.bind fun k => ?_
  have behind : Mirrors f id (do
      let matched ← align indent
      statement k matched indent
      let _ ← scanning Scan.skipSpaces
      endOfLine) (do
      let matched ← align (f indent)
      statement k matched (f indent)
      let _ ← scanning Scan.skipSpaces
      endOfLine) :=
    (mirrors_align strict indent).bind fun matched => (mirrors_statement k matched indent).bind
      fun _ => (indifferent_scanning _).bind fun _ => indifferent_endOfLine
  cases k with
  | none => exact behind
  | some k =>
    cases k
    case begin => exact indifferent_beginProgram zero
    case finish => exact mirrors_endProgram strict zero indent
    all_goals exact behind

end

/-- A line behind its indentation. -/
def indented (indent : Nat) : Compile Unit := do
  let text := (← get).rest
  if text.isEmpty || text.head? == some Byte.hash then return ()
  else if text.any Byte.isControl then Attempt.failNoting .syntaxError "CONTROL CHARACTER"
  else if ← scanning (Scan.eat Byte.star) then raw indent
  else command indent

theorem line_eq : line = scanning Scan.skipSpaces >>= indented := rfl

theorem mirrors_indented (strict : StrictMono f) (zero : f 0 = 0) (indent : Nat) :
    Mirrors f id (indented indent) (indented (f indent)) := by
  refine mirrors_get.bind fun d => .ite Iff.rfl (mirrors_pure _ _) ?_
  refine .ite Iff.rfl (mirrors_failNoting _ _ _) ?_
  exact (indifferent_scanning _).bind fun _ => .ite Iff.rfl (mirrors_raw strict indent)
    (mirrors_command strict zero indent)

/-- A line with changed indentation. -/
theorem line_reindented (strict : StrictMono f) (zero : f 0 = 0) (d : Draft) {indent : Nat}
    {text : Bytes} (solid : text.head? ≠ some Byte.space) :
    line { d.reindented f with rest := List.replicate (f indent) Byte.space ++ text } =
      outcome f id (line { d with rest := List.replicate indent Byte.space ++ text }) := by
  have skipped (k : Nat) (d : Draft) : scanning Scan.skipSpaces
      { d with rest := List.replicate k Byte.space ++ text } = .ok k { d with rest := text } := by
    have spaces : ∀ b ∈ List.replicate k Byte.space, (b == Byte.space) = true := by simp
    have rest : text.takeWhile (· == Byte.space) = [] ∧
        text.dropWhile (· == Byte.space) = text := by
      cases text <;> simp_all
    simp [scanning, Attempt.on, Scan.skipSpaces_apply, List.takeWhile_append_of_pos spaces,
      List.dropWhile_append_of_pos spaces, rest]
  rw [line_eq, bind_apply, bind_apply, skipped, skipped]
  exact mirrors_indented strict zero indent { d with rest := text }

end Compile

end ControlScript
