import ControlScript.Proofs.LineChanges
import ControlScript.Proofs.Lines

/-!
# What a line does to the compiler

Most of the work on a line leaves the compiler alone. The rules of indentation change it, also where
they refuse the line; a statement may set labels apart and open a block; and the words that frame a
program start afresh. What of this is done is not undone if the line has a fault further on.

## Main definitions

* `Compile.Spared` — the compiler is left alone
* `Compile.Aligned`, `Compile.Stated` — what the rules of indentation and a statement do to it
* `Compile.Worked` — what a line does to it

## Main results

* `Compile.aligned_align`, `Compile.stated_statement`, `Compile.works_line` — with or without fault
* `Compiler.exists_worked` — compiling a line
-/

namespace ControlScript

open Attempt

namespace Compiler

/-- The compiler with a block opened that takes some new labels. -/
def opening (c : Compiler) (b : Block) (labels : Nat) : Compiler :=
  { c with
    blocks := { c.blocks with items := b :: c.blocks.items }
    openedBlock := true
    nextLabel := c.nextLabel + labels }

/-- The compiler with other open blocks, at some indentation. -/
def closedTo (c : Compiler) (items : List Block) (indent : Nat) : Compiler :=
  { c with indent, blocks := { c.blocks with items } }

end Compiler

/-- The draft with the blocks closed that were opened deeper than some indentation. -/
def Draft.closedTo (d : Draft) (items : List Block) (indent : Nat) : Draft :=
  { d with
    compiler := d.compiler.closedTo items indent
    emitted := d.emitted ++
      (d.compiler.blocks.items.takeWhile (indent < ·.indent)).flatMap Block.closing }

namespace Compile

variable {α β : Type} {c : Compiler} {d : Draft}

/-- The compiler of a draft is left alone. -/
def Spared (d e : Draft) : Prop := e.compiler = d.compiler

/-- Most work leaves the compiler alone. -/
theorem allows_spared : Allows Spared where
  refl _ := rfl
  trans first second := second.trans first
  rest _ _ := rfl
  emitted _ _ := rfl

theorem Within.compiler_eq {x : Compile α} (spares : x.Within Spared) (d : Draft) :
    (reached (x d)).compiler = d.compiler := spares d

/-! ## Indentation -/

/-- What the rules of indentation do to a compiler. The result is the block that is handed on, if
the line is not refused. -/
inductive Aligned (indent : Nat) (c : Compiler) : Option (Option Block) → Compiler → Prop
  | outside (outside : c.compiling = false) : Aligned indent c (some none) c
  /-- The demand for a deeper line is missed. -/
  | missed (program : c.compiling = true) (opened : c.openedBlock = true) :
    Aligned indent c none { c with openedBlock := false }
  | deeper (program : c.compiling = true) (opened : c.openedBlock = true)
    (further : c.indent < indent) :
    Aligned indent c (some none) { c with indent, openedBlock := false }
  | refused (program : c.compiling = true) (closed : c.openedBlock = false)
    (further : c.indent < indent) : Aligned indent c none c
  | level (program : c.compiling = true) (closed : c.openedBlock = false)
    (same : c.indent = indent) : Aligned indent c (some none) c
  | closes (program : c.compiling = true) (closed : c.openedBlock = false)
    {deeper others : List Block} {opener : Block}
    (items : c.blocks.items = deeper ++ opener :: others) (same : opener.indent = indent) :
    Aligned indent c (some (some opener)) (c.closedTo others indent)
  /-- The line fits no block. -/
  | mismatched (program : c.compiling = true) (closed : c.openedBlock = false)
    {deeper others : List Block} (items : c.blocks.items = deeper ++ others)
    (within : ∀ b ∈ others.head?, b.indent ≤ indent) :
    Aligned indent c none (c.closedTo others indent)

/-- The result of some work, and the compiler that it leaves. -/
def Leaves (P : Option α → Compiler → Prop) (x : Compile α) (d : Draft) : Prop :=
  P ((success? (x d)).map Prod.fst) (reached (x d)).compiler

/-- The first line of a block must lie deeper. -/
theorem aligned_align_of_opened (indent : Nat) (program : d.compiler.compiling = true)
    (opened : d.compiler.openedBlock = true) :
    Leaves (Aligned indent d.compiler) (align indent) d := by
  unfold Leaves
  by_cases less : indent ≤ d.compiler.indent
  · have done : align indent d = .error (.of .indentExpected)
        { d with compiler := { d.compiler with openedBlock := false } } := by
      simp [align, bind_apply, compiler, update, program, opened, less]
    rw [done]
    exact .missed program opened
  · have done : align indent d = .ok none
        { d with compiler := { d.compiler with indent, openedBlock := false } } := by
      simp [align, bind_apply, map_apply, compiler, update, program, opened, less]
    rw [done]
    exact .deeper program opened (Nat.lt_of_not_le less)

/-- A line that lies less deep closes the blocks that were opened deeper than it. The first block
that is left is handed on, or the line fits none. -/
theorem aligned_align_of_less {indent : Nat} (program : d.compiler.compiling = true)
    (closed : d.compiler.openedBlock = false) (less : indent < d.compiler.indent) :
    Leaves (Aligned indent d.compiler) (align indent) d := by
  unfold Leaves
  let isDeeper : Block → Bool := fun b => indent < b.indent
  have items : d.compiler.blocks.items = d.compiler.blocks.items.takeWhile isDeeper ++
      d.compiler.blocks.items.dropWhile isDeeper := List.takeWhile_append_dropWhile.symm
  cases others : d.compiler.blocks.items.dropWhile isDeeper with
  | nil =>
    have done : align indent d = .error (.of .indentMismatch) (d.closedTo [] indent) := by
      simp [align, bind_apply, compiler, update, emitAll, program, closed, less.not_gt, less.ne',
        others, isDeeper, Compiler.closedTo, Draft.closedTo]
    rw [done]
    rw [others] at items
    exact .mismatched program closed items (by simp)
  | cons opener rest =>
    rw [others] at items
    have within : opener.indent ≤ indent := by
      have stops := List.head?_dropWhile_not isDeeper d.compiler.blocks.items
      simpa [others, isDeeper] using stops
    by_cases same : opener.indent = indent
    · have done : align indent d = .ok (some opener) (d.closedTo rest indent) := by
        simp [align, bind_apply, map_apply, compiler, update, emitAll, program, closed,
          less.not_gt, less.ne', others, isDeeper, same, Compiler.closedTo, Draft.closedTo]
      rw [done]
      exact .closes program closed items same
    · have done : align indent d = .error (.of .indentMismatch)
          (d.closedTo (opener :: rest) indent) := by
        simp [align, bind_apply, compiler, update, emitAll, program, closed, less.not_gt,
          less.ne', others, isDeeper, same, Compiler.closedTo, Draft.closedTo]
      rw [done]
      exact .mismatched program closed items (by simpa using within)

theorem aligned_align (indent : Nat) (d : Draft) :
    Leaves (Aligned indent d.compiler) (align indent) d := by
  cases program : d.compiler.compiling with
  | false =>
    have done : align indent d = .ok none d := by simp [align, bind_apply, compiler, program]
    rw [Leaves, done]
    exact .outside program
  | true =>
    cases opened : d.compiler.openedBlock with
    | true => exact aligned_align_of_opened indent program opened
    | false =>
      rcases Nat.lt_trichotomy d.compiler.indent indent with further | same | less
      · have done : align indent d = .error (.of .indentNotAllowed) d := by
          simp [align, bind_apply, compiler, program, opened, further]
        rw [Leaves, done]
        exact .refused program opened further
      · have done : align indent d = .ok none d := by
          simp [align, bind_apply, compiler, program, opened, same]
        rw [Leaves, done]
        exact .level program opened same
      · exact aligned_align_of_less program opened less

/-! ## Statements -/

/-- What a statement does to a compiler: nothing, or it opens a block. The second branch of a
conditional takes the label that is left of it, any other block two new ones. -/
inductive Stated (matched : Option Block) (indent : Nat) (c : Compiler) : Compiler → Prop
  | spared : Stated matched indent c c
  /-- There is no room for another block, but labels have been set apart. -/
  | refused (program : c.compiling = true) :
    Stated matched indent c { c with nextLabel := c.nextLabel + 2 }
  | opened (program : c.compiling = true) (room : c.depth < c.blocks.limit) (kind : BlockKind) :
    Stated matched indent c (c.opening { kind, label := c.nextLabel, indent } 2)
  | branched (program : c.compiling = true) (room : c.depth < c.blocks.limit) {b : Block}
    (member : b ∈ matched) (first : b.elseSeen = false) (conditional : b.kind = .conditional) :
    Stated matched indent c
      (c.opening { kind := .conditional, label := b.label + 1, indent, elseSeen := true } 0)

/-- Work that opens a block, if there is room and nothing goes wrong before. -/
def Opens (b : Block) (x : Compile α) : Prop :=
  ∀ d, (reached (x d)).compiler = d.compiler ∨
    d.compiler.depth < d.compiler.blocks.limit ∧
      (reached (x d)).compiler = d.compiler.opening b 0

theorem opens_openBlock (b : Block) : (openBlock b).Opens b := by
  intro d
  by_cases room : d.compiler.depth < d.compiler.blocks.limit
  · refine .inr ⟨room, ?_⟩
    have pushed : Stack.push b d.compiler.blocks =
        .ok () { d.compiler.blocks with items := b :: d.compiler.blocks.items } := if_pos room
    simp [openBlock, bind_apply, onBlocks, Attempt.on, pushed, update, Compiler.opening]
  · have refused : Stack.push b d.compiler.blocks =
        .error (.noted .nestingTooDeep d.compiler.blocks.note) d.compiler.blocks := if_neg room
    simp [openBlock, bind_apply, onBlocks, Attempt.on, refused]

theorem Within.opens {b : Block} {x : Compile α} {next : α → Compile β}
    (first : x.Within Spared)
    (second : ∀ a, (next a).Opens b) : (x >>= next).Opens b := by
  intro d
  have before := first d
  rw [bind_apply]
  cases done : x d with
  | ok a e =>
    rw [done] at before
    have after := second a e
    rwa [show e.compiler = d.compiler from before] at after
  | error f e =>
    rw [done] at before
    exact .inl before

/-- What a statement does if some work that leaves the compiler alone comes first. -/
theorem Within.stated {matched : Option Block} {indent : Nat} {x : Compile α}
    {next : α → Compile β} (first : x.Within Spared)
    (second : ∀ a e, e.compiler = d.compiler →
      Stated matched indent e.compiler (reached (next a e)).compiler) :
    Stated matched indent d.compiler (reached ((x >>= next) d)).compiler := by
  have before := first d
  rw [bind_apply]
  cases done : x d with
  | ok a e =>
    rw [done] at before
    have same : e.compiler = d.compiler := before
    have after := second a e same
    rwa [same] at after
  | error f e =>
    rw [done] at before
    rw [reached_error, show e.compiler = d.compiler from before]
    exact .spared

section

variable {matched : Option Block} {indent : Nat}

/-- Outside of a program nothing is done that needs one. -/
theorem stated_of_program {next : Unit → Compile Unit}
    (second : ∀ d, d.compiler.compiling = true →
      Stated matched indent d.compiler (reached (next () d)).compiler) (d : Draft) :
    Stated matched indent d.compiler (reached ((requireProgram >>= next) d)).compiler := by
  cases program : d.compiler.compiling with
  | true =>
    have done : requireProgram d = .ok () d := by
      simp [requireProgram, bind_apply, compiler, program]
    rw [bind_apply, done]
    exact second d program
  | false =>
    have done : requireProgram d = .error (.of .notInProgram) d := by
      simp [requireProgram, bind_apply, compiler, program]
    rw [bind_apply, done]
    exact .spared

/-- A block that takes two new labels. -/
theorem stated_of_labels {kind : BlockKind} {next : Nat → Compile Unit}
    (second : ∀ label, (next label).Opens { kind, label, indent }) (d : Draft)
    (program : d.compiler.compiling = true) :
    Stated matched indent d.compiler (reached ((allocateLabels >>= next) d)).compiler := by
  have done : allocateLabels d = .ok d.compiler.nextLabel
      { d with compiler := { d.compiler with nextLabel := d.compiler.nextLabel + 2 } } := by
    simp [allocateLabels, bind_apply, map_apply, compiler, update]
  rw [bind_apply, done]
  -- The labels stay set apart even if there is no room for the block.
  rcases second d.compiler.nextLabel
      { d with compiler := { d.compiler with nextLabel := d.compiler.nextLabel + 2 } } with
    same | ⟨room, opened⟩
  · rw [same]
    exact .refused program
  · rw [opened]
    exact .opened program room kind

/-- A statement that leaves the compiler alone. -/
theorem Within.stated_of_spared {x : Compile Unit} (spares : x.Within Spared) (d : Draft) :
    Stated matched indent d.compiler (reached (x d)).compiler := by
  rw [spares.compiler_eq d]
  exact .spared

theorem stated_plainLoop (kind : BlockKind) (indent : Nat) (d : Draft) :
    Stated matched indent d.compiler (reached (plainLoop kind indent d)).compiler :=
  stated_of_program (stated_of_labels fun _ => (allows_spared.emit _).opens fun _ =>
    opens_openBlock _) d

/-- The second branch is the one statement that takes a label over from the block it closes. -/
theorem stated_elseThen (matched : Option Block) (indent : Nat) (d : Draft) :
    Stated matched indent d.compiler (reached (elseThen matched indent d)).compiler := by
  refine stated_of_program (fun d program => ?_) d
  cases found : matched.filter fun b => b.kind = .conditional ∧ !b.elseSeen with
  | none => exact (allows_spared.fail _).stated_of_spared d
  | some b =>
    obtain ⟨member, first⟩ := Option.filter_eq_some_iff.mp found
    simp only [Bool.not_eq_true', decide_eq_true_eq] at first
    have opens := (allows_spared.emit (.jump (b.label + 1))).opens fun _ =>
      (allows_spared.emit (.declare b.label)).opens fun _ => opens_openBlock
        { kind := .conditional, label := b.label + 1, indent, elseSeen := true }
    rcases opens d with same | ⟨room, opened⟩
    · exact same ▸ .spared
    · exact opened ▸ .branched program room member first.2 first.1

/-- What any statement does. -/
theorem stated_statement (k : Option Keyword) (matched : Option Block) (indent : Nat) (d : Draft) :
    Stated matched indent d.compiler (reached (statement k matched indent d)).compiler := by
  have behind {x : Compile Unit}
      (stated : ∀ d, Stated matched indent d.compiler (reached (x d)).compiler) (d : Draft) :
      Stated matched indent d.compiler (reached ((closeBlock matched >>= fun _ => x) d)).compiler :=
    (allows_spared.closeBlock matched).stated fun _ e _ => stated e
  cases k with
  | none => exact behind (allows_spared.assignment fun _ _ _ => rfl).stated_of_spared d
  | some k =>
    cases k
    case elseThen => exact stated_elseThen matched indent d
    case untilTrue => exact (allows_spared.untilTrue matched).stated_of_spared d
    case endif | endwhile => exact (allows_spared.closer _ _ matched).stated_of_spared d
    case forever =>
      refine behind (fun d => ?_) d
      split
      · exact .spared
      · exact stated_plainLoop .foreverLoop indent d
    case begin | finish => exact .spared
    case doLoop => exact behind (stated_plainLoop .doLoop indent) d
    case whileLoop =>
      refine behind (stated_of_program fun d program => ?_) d
      exact allows_spared.condition.stated fun _ e same =>
        stated_of_labels (fun _ => (allows_spared.emit _).opens fun _ =>
          (allows_spared.emit _).opens fun _ => opens_openBlock _) e (same ▸ program)
    case ifThen =>
      refine behind (stated_of_program fun d program => ?_) d
      exact allows_spared.condition.stated fun _ e same =>
        stated_of_labels (fun _ => (allows_spared.emit _).opens fun _ => opens_openBlock _) e
          (same ▸ program)
    case breakLoop | continueLoop => exact behind (allows_spared.leaveLoop _ _).stated_of_spared d
    case delay =>
      refine behind (Within.stated_of_spared ?_) d
      exact allows_spared.expression.bind allows_spared.trans fun _ => allows_spared.emit _
    case wait => exact behind allows_spared.wait.stated_of_spared d
    case print => exact behind allows_spared.print.stated_of_spared d
    case println => exact behind allows_spared.println.stated_of_spared d
    case clear => exact behind (allows_spared.emit _).stated_of_spared d
    case run => exact behind allows_spared.run.stated_of_spared d
    case stop => exact behind allows_spared.stop.stated_of_spared d
    case set => exact behind (allows_spared.assignment fun _ _ _ => rfl).stated_of_spared d

/-- What is read behind a statement makes no difference. -/
theorem stated_bind {x : Compile α} {next : α → Compile β} {d : Draft}
    (first : Stated matched indent d.compiler (reached (x d)).compiler)
    (second : ∀ a, (next a).Within Spared) :
    Stated matched indent d.compiler (reached ((x >>= next) d)).compiler := by
  rw [bind_apply]
  cases done : x d with
  | ok a e =>
    rw [done] at first
    exact (second a e).symm ▸ first
  | error f e =>
    rw [done] at first
    exact first

end

/-! ## Lines -/

/-- What a line does to a compiler, which may have refused it. -/
inductive Worked (c : Compiler) : (refused : Bool) → Compiler → Prop
  | spared {refused : Bool} : Worked c refused c
  | begun {refused : Bool} : Worked c refused c.begun
  /-- A program that ends is left behind, whatever the last line has closed. -/
  | ended {refused : Bool} {last : Compiler} (limit : last.blocks.limit = c.blocks.limit) :
    Worked c refused last.leave
  | misaligned {indent : Nat} {next : Compiler} (aligned : Aligned indent c none next) :
    Worked c true next
  | stated {refused : Bool} {indent : Nat} {matched : Option Block} {next last : Compiler}
    (aligned : Aligned indent c (some matched) next) (stated : Stated matched indent next last) :
    Worked c refused last

/-- The rules of indentation do not touch the number of blocks that may be open. -/
theorem Aligned.limit {indent : Nat} {result : Option (Option Block)} {next : Compiler}
    (aligned : Aligned indent c result next) : next.blocks.limit = c.blocks.limit := by
  cases aligned <;> rfl

theorem Worked.limit {refused : Bool} {last : Compiler} (worked : Worked c refused last) :
    last.blocks.limit = c.blocks.limit := by
  cases worked with
  | spared | begun => rfl
  | ended limit => exact limit
  | misaligned aligned => exact aligned.limit
  | stated aligned stated =>
    refine Eq.trans ?_ aligned.limit
    cases stated <;> rfl

/-- The work on a line is as told. -/
def Works (x : Compile α) (d : Draft) : Prop :=
  Worked d.compiler (fault? (x d)).isSome (reached (x d)).compiler

/-- A line that is aligned first. -/
theorem works_of_align {indent : Nat} {next : Option Block → Compile Unit}
    (second : ∀ matched e, Stated matched indent e.compiler (reached (next matched e)).compiler)
    (d : Draft) : Works (align indent >>= next) d := by
  have aligned := aligned_align indent d
  unfold Leaves at aligned
  unfold Works
  rw [bind_apply]
  cases done : align indent d with
  | ok matched e =>
    rw [done] at aligned
    exact .stated aligned (second matched e)
  | error f e =>
    rw [done] at aligned
    exact .misaligned aligned

theorem works_raw (indent : Nat) (d : Draft) : Works (raw indent) d := by
  refine works_of_align (fun matched e => ?_) d
  rw [(allows_spared.behind_raw matched).compiler_eq e]
  exact .spared

theorem works_beginProgram (d : Draft) : Works beginProgram d := by
  unfold Works beginProgram endOfLine
  rw [bind_apply, bind_apply, get_apply]
  by_cases ended : d.rest.isEmpty = true
  · simp only [ended, if_true, pure_apply, bind_apply, compiler]
    split <;> exact .begun
  · simp only [ended, Bool.false_eq_true, if_false, fail_apply]
    exact .spared

theorem works_endProgram (indent : Nat) (d : Draft) : Works (endProgram indent) d := by
  have limit : (reached (lastChecks indent d)).compiler.blocks.limit = d.compiler.blocks.limit := by
    have aligned := aligned_align indent d
    unfold Leaves at aligned
    unfold lastChecks
    rw [bind_apply]
    cases done : align indent d with
    | ok matched e =>
      rw [done] at aligned
      dsimp only
      rw [(allows_spared.behind_lastChecks matched).compiler_eq e]
      exact aligned.limit
    | error f e =>
      rw [done] at aligned
      exact aligned.limit
  unfold Works endProgram
  split
  · exact .spared
  -- The program is left whether the last checks have found a fault or not.
  · cases done : lastChecks indent d with
    | ok _ e =>
      rw [done] at limit
      exact .ended limit
    | error f e =>
      rw [done] at limit
      let marked : Compiler := { e.compiler with programError := true }
      have ended : Worked d.compiler true marked.leave := .ended limit
      exact ended

/-- Reading the keyword of a line does not fail. -/
theorem exists_keyword_eq (d : Draft) :
    ∃ rest, keyword d = .ok (Keyword.ofLine? d.rest) { d with rest } := by
  unfold keyword
  rw [bind_apply, get_apply]
  dsimp only
  cases Keyword.ofLine? d.rest <;> exact ⟨_, rfl⟩

theorem works_command (indent : Nat) (d : Draft) : Works (command indent) d := by
  obtain ⟨rest, read⟩ := exists_keyword_eq d
  have works (k : Option Keyword) (e : Draft) : Works (do
      let matched ← align indent
      statement k matched indent
      let _ ← scanning Scan.skipSpaces
      endOfLine) e :=
    works_of_align (fun matched e => stated_bind (stated_statement k matched indent e) fun _ =>
      allows_spared.behind_statement) e
  unfold Works command
  rw [bind_apply, read]
  cases Keyword.ofLine? d.rest with
  | none => exact works none { d with rest }
  | some k =>
    cases k
    case begin => exact works_beginProgram { d with rest }
    case finish => exact works_endProgram indent { d with rest }
    all_goals exact works _ { d with rest }

/-- What a line does to the compiler. -/
theorem works_line (d : Draft) : Works line d := by
  unfold Works
  rw [line_apply]
  dsimp only
  split
  · exact .spared
  split
  · exact .spared
  split
  · exact works_raw _ { d with rest := (d.rest.dropWhile (· == Byte.space)).tail }
  · exact works_command _ { d with rest := d.rest.dropWhile (· == Byte.space) }

end Compile

namespace Compiler

open Compile

/-- What compiling a line does to the compiler: the line is counted and worked on, and if it has a
fault the program may be marked. -/
theorem exists_worked (c : Compiler) (vars : Variables) (readings : Readings) (text : String) :
    let compiled := c.compileLine vars readings text
    ∃ last mark, Worked c.countLine compiled.fault.isSome last ∧
      compiled.compiler = { last with programError := mark } := by
  have worked : Worked c.countLine (fault? (c.countLine.draft { vars, readings } text)).isSome
      (reached (c.countLine.draft { vars, readings } text)).compiler := by
    unfold draft
    dsimp only
    split
    · exact .spared
    · exact works_line { rest := _, compiler := c.countLine, scope := _ }
  unfold compileLine
  dsimp only
  cases done : c.countLine.draft { vars, readings } text with
  | ok u d =>
    rw [done] at worked
    exact ⟨d.compiler, _, worked, rfl⟩
  | error f d =>
    rw [done] at worked
    exact ⟨d.compiler, _, worked, rfl⟩

/-- No line changes the number of blocks that may be open. -/
theorem limit_compileLine (c : Compiler) (vars : Variables) (readings : Readings) (text : String) :
    (c.compileLine vars readings text).compiler.blocks.limit = c.blocks.limit := by
  obtain ⟨last, mark, worked, compiled⟩ := exists_worked c vars readings text
  have counted : c.countLine.blocks = c.blocks := by
    unfold countLine
    split <;> rfl
  rw [compiled, ← counted]
  exact worked.limit

end Compiler

end ControlScript
