import ControlScript.Proofs.Scripts

/-!
# Nests accept scripts

A nest takes line after line and keeps nothing but the blocks that are open. It accepts the lines
that form a script, and what it emits is the code for the script.

After the lines of a script a nest is settled: it stands at the indentation of the script, or it
stands deeper and owes the instructions that close the blocks opened since. A line of the script
around pays for them.

## Main definitions

* `Nest.Level` — a nest at the beginning of a script
* `Nest.Owes`, `Nest.Settled` — a nest behind a block, and behind a script
* `Nest.Completes` — lines that are accepted and leave a nest settled
* `Nest.Compiles` — lines that are compiled to a script wherever they may stand

## Main results

* `Forms.completes` — lines that form a script are accepted and compiled to its code
-/

namespace ControlScript

/-- Whether a sentence needs a block that its line closes. -/
def Sentence.isCloser : Sentence → Bool
  | .elseThen | .endif | .endwhile | .untilTrue _ => true
  | _ => false

/-- The lines of a script stand at its indentation, and none of them starts with a word that
closes a block. -/
theorem Forms.head {limit depth indent : Nat} {inLoop : Bool} {l : Line} {lines : List Line}
    {script : Script} (formed : Forms limit depth inLoop indent (l :: lines) script) :
    l.indent = indent ∧ l.sentence.isCloser = false := by
  cases formed <;> exact ⟨rfl, rfl⟩

namespace Nest

/-- A nest at the beginning of a script. The label `next` is the first that may be used, and the
innermost loop, if there is one, has the label `top`. -/
structure Level (n : Nest) (limit depth : Nat) (inLoop : Bool) (indent next top : Nat) : Prop where
  limit_eq : n.limit = limit
  indent_eq : n.indent = indent
  closed : n.openedBlock = false
  next_eq : n.nextLabel = next
  depth_eq : n.blocks.length = depth
  loop_eq : n.innermostLoop?.map (·.label) = if inLoop then some top else none

/-- A nest behind the lines of a block. The blocks inside it are still to be closed by `owed`. -/
structure Owes (n : Nest) (opener : Block) (base : List Block) (owed : List Instruction) :
    Prop where
  closed : n.openedBlock = false
  deeper : opener.indent < n.indent
  exists_inside : ∃ inside, n.blocks = inside ++ opener :: base ∧
    (∀ b ∈ inside, opener.indent < b.indent) ∧ owed = inside.flatMap Block.closing

/-- A nest behind a script at an indentation, which is to be closed by the instructions. -/
inductive Settled (n : Nest) (indent : Nat) (base : List Block) : List Instruction → Prop where
  | level (indent_eq : n.indent = indent) (closed : n.openedBlock = false)
      (blocks : n.blocks = base) : Settled n indent base []
  | owing {opener : Block} {owed : List Instruction} (same : opener.indent = indent)
      (owes : n.Owes opener base owed) : Settled n indent base (owed ++ opener.closing)

/-- The nest back at an indentation, with the blocks that are open there. -/
def backAt (n : Nest) (indent : Nat) (base : List Block) : Nest :=
  { n with indent, blocks := base }

@[simp] theorem blocks_backAt (n : Nest) (indent : Nat) (base : List Block) :
    (n.backAt indent base).blocks = base := rfl

/-- The lines are accepted, and the nest is settled behind them. The code is what was emitted
and what is owed. -/
def Completes (n : Nest) (indent : Nat) (base : List Block) (lines : List Line)
    (limit next : Nat) (code : List Instruction) : Prop :=
  ∃ last emitted owed, n.acceptAll lines = some (last, emitted) ∧
    last.Settled indent base owed ∧ last.limit = limit ∧ last.nextLabel = next ∧
    emitted ++ owed = code

variable {n m : Nest} {opener : Block} {base : List Block} {owed : List Instruction}

theorem Level.align {limit depth indent next top : Nat} {inLoop : Bool}
    (level : n.Level limit depth inLoop indent next top) : n.align indent = some (n, none, []) := by
  simp [Nest.align, level.closed, level.indent_eq]

/-- Behind a script that a block consists of, the blocks inside it are opened at the indentation
of the script or deeper. -/
theorem Settled.exists_inside {inner : Nat} (settled : n.Settled inner (opener :: base) owed) :
    n.openedBlock = false ∧ inner ≤ n.indent ∧ ∃ inside, n.blocks = inside ++ opener :: base ∧
      (∀ b ∈ inside, inner ≤ b.indent) ∧ owed = inside.flatMap Block.closing := by
  cases settled with
  | level indent_eq closed blocks =>
    exact ⟨closed, indent_eq.ge, [], by simpa using blocks, by simp, rfl⟩
  | owing same owes =>
    next last owed =>
    obtain ⟨inside, blocks, further, rfl⟩ := owes.exists_inside
    refine ⟨owes.closed, same ▸ owes.deeper.le, inside ++ [last], by simp [blocks],
      fun b member => ?_, by simp⟩
    rcases List.mem_append.mp member with inInside | isLast
    · exact same ▸ (further b inInside).le
    · rw [List.mem_singleton.mp isLast, same]

/-- Behind a script that a block consists of, the nest owes for the blocks in the script. -/
theorem Settled.owes {inner : Nat} (settled : n.Settled inner (opener :: base) owed)
    (deeper : opener.indent < inner) : n.Owes opener base owed := by
  obtain ⟨closed, indent_le, inside, blocks, further, rfl⟩ := settled.exists_inside
  exact ⟨closed, deeper.trans_le indent_le, inside, blocks,
    fun b member => deeper.trans_le (further b member), rfl⟩

/-- A line at the indentation of the block closes what is inside it and gets the block. -/
theorem Owes.align (owes : n.Owes opener base owed) :
    n.align opener.indent = some (n.backAt opener.indent base, some opener, owed) := by
  obtain ⟨inside, blocks, further, rfl⟩ := owes.exists_inside
  have apart : (inside ++ opener :: base).takeWhile (fun b => decide (opener.indent < b.indent)) =
      inside ∧ (inside ++ opener :: base).dropWhile (fun b => decide (opener.indent < b.indent)) =
        opener :: base :=
    takeWhile_append_of_ends (by simpa using further) (by simp)
  have deeper := owes.deeper
  simp [Nest.align, owes.closed, blocks, apart, backAt, show ¬n.indent < opener.indent by omega,
    show n.indent ≠ opener.indent by omega]

/-- A sentence that closes no block is obeyed behind a block as it is without one, once the
block is closed. -/
theorem obey_some (n : Nest) (b : Block) (indent : Nat) {s : Sentence}
    (plain : s.isCloser = false) (apart : b.kind = .doLoop → s ≠ .forever) :
    n.obey (some b) indent s =
      (n.obey none indent s).map fun (m, code) => (m, b.closing ++ code) := by
  cases s with
  | forever =>
    have notDo : b.kind ≠ .doLoop := fun isDo => apart isDo rfl
    simp [obey, closing, notDo, Function.comp_def]
  | action a =>
    by_cases remote : a.isRemote = true <;> simp [obey, closing, remote]
  | elseThen | endif | endwhile | untilTrue => cases plain
  | _ => simp [obey, closing, Function.comp_def]

/-- Such a line pays for the block and is then accepted as it is at the beginning of a script. -/
theorem Owes.acceptAll_cons (owes : n.Owes opener base owed) {l : Line} {lines : List Line}
    (same : l.indent = opener.indent) (plain : l.sentence.isCloser = false)
    (apart : opener.kind = .doLoop → l.sentence ≠ .forever) :
    n.acceptAll (l :: lines) = ((n.backAt opener.indent base).acceptAll (l :: lines)).map
      fun (last, code) => (last, owed ++ opener.closing ++ code) := by
  have level : (n.backAt opener.indent base).align opener.indent =
      some (n.backAt opener.indent base, none, []) := by
    simp [Nest.align, backAt, owes.closed]
  simp only [acceptAll, accept, same, owes.align, level, Option.bind_some, obey_some _ _ _ plain
    apart, Option.map_map, Option.bind_map, Option.map_bind, Function.comp_def, List.nil_append,
    List.append_assoc]

/-- A line that takes up a block pays for what is inside it. -/
theorem Owes.accept_closer (owes : n.Owes opener base owed) {s : Sentence}
    {after : List Instruction} (obeyed : (n.backAt opener.indent base).obey (some opener)
      opener.indent s = some (m, after)) :
    n.accept { indent := opener.indent, sentence := s } = some (m, owed ++ after) := by
  simp [accept, owes.align, obeyed]

theorem Completes.cons {indent limit next : Nat} {l : Line} {lines : List Line}
    {emitted code : List Instruction} (accepted : n.accept l = some (m, emitted))
    (later : m.Completes indent base lines limit next code) :
    n.Completes indent base (l :: lines) limit next (emitted ++ code) := by
  obtain ⟨last, more, owed, all, settled, limit_eq, next_eq, rfl⟩ := later
  exact ⟨last, emitted ++ more, owed, by simp [acceptAll, accepted, all], settled, limit_eq,
    next_eq, by simp⟩

theorem Completes.append {indent indent' limit middle next : Nat} {base' : List Block}
    {first second : List Line} {code more : List Instruction}
    (before : n.Completes indent base first limit middle code)
    (later : ∀ (m : Nest) owed, m.Settled indent base owed → m.limit = limit →
      m.nextLabel = middle → m.Completes indent' base' second limit next (owed ++ more)) :
    n.Completes indent' base' (first ++ second) limit next (code ++ more) := by
  obtain ⟨m, emitted, owed, all, settled, limit_eq, next_eq, rfl⟩ := before
  obtain ⟨last, emitted', owed', all', settled', limit_eq', next_eq', code_eq⟩ :=
    later m owed settled limit_eq next_eq
  refine ⟨last, emitted ++ emitted', owed', ?_, settled', limit_eq', next_eq', ?_⟩
  · simp [acceptAll_append, all, all']
  · rw [List.append_assoc, code_eq, List.append_assoc]

/-- The first line of a block sets its indentation. -/
theorem acceptAll_of_openedBlock {l : Line} (opened : n.openedBlock = true)
    (deeper : n.indent < l.indent) (lines : List Line) :
    n.acceptAll (l :: lines) =
      { n with indent := l.indent, openedBlock := false }.acceptAll (l :: lines) := by
  have aligned : n.align l.indent =
      { n with indent := l.indent, openedBlock := false }.align l.indent := by
    simp [Nest.align, opened, deeper]
  simp only [acceptAll, accept, aligned]

/-- The rest of a script pays for the block before it, or leaves the debt to a later line. -/
theorem Owes.completes {limit depth next : Nat} {inLoop : Bool} {lines : List Line}
    {rest : Script} {code : List Instruction} (owes : n.Owes opener base owed)
    (formed : Forms limit depth inLoop opener.indent lines rest)
    (apart : opener.kind = .doLoop → ∀ l ∈ lines.head?, l.sentence ≠ .forever)
    (later : (n.backAt opener.indent base).Completes opener.indent base lines limit next code) :
    n.Completes opener.indent base lines limit next (owed ++ opener.closing ++ code) := by
  obtain ⟨last, emitted, owed', all, settled, limit_eq, next_eq, rfl⟩ := later
  cases lines with
  | nil =>
    cases all
    have nothing : owed' = [] := by
      cases settled with
      | level => rfl
      | owing same owes' => exact absurd (same ▸ owes'.deeper) (lt_irrefl _)
    exact ⟨n, [], owed ++ opener.closing, rfl, .owing rfl owes, limit_eq, next_eq,
      by simp [nothing]⟩
  | cons l lines =>
    obtain ⟨same, plain⟩ := formed.head
    refine ⟨last, owed ++ opener.closing ++ emitted, owed', ?_, settled, limit_eq, next_eq,
      by simp⟩
    rw [owes.acceptAll_cons same plain fun isDo => apart isDo l rfl, all]
    rfl

/-- A block that is left open or closed by its word, and the rest of the script. -/
theorem Owes.completes_closing {limit depth next : Nat} {inLoop : Bool} {closing lines : List Line}
    {word : Sentence} {rest : Script} {code : List Instruction}
    (owes : n.Owes opener base owed)
    (closed : closing = [] ∨ closing = [{ indent := opener.indent, sentence := word }])
    (obeyed : (n.backAt opener.indent base).obey (some opener) opener.indent word =
      some (n.backAt opener.indent base, opener.closing))
    (formed : Forms limit depth inLoop opener.indent lines rest)
    (apart : closing = [] → opener.kind = .doLoop → ∀ l ∈ lines.head?, l.sentence ≠ .forever)
    (later : (n.backAt opener.indent base).Completes opener.indent base lines limit next code) :
    n.Completes opener.indent base (closing ++ lines) limit next
      (owed ++ (opener.closing ++ code)) := by
  rw [← List.append_assoc]
  rcases closed with rfl | rfl
  · exact owes.completes formed (apart rfl) later
  · exact later.cons (owes.accept_closer obeyed)

/-- The lines of a block, and what comes after them. -/
theorem completes_block {limit depth inner middle next : Nat} {inLoop : Bool}
    {first lines : List Line} {body : Script} {code more : List Instruction}
    (opened : n.openedBlock = true) (blocks : n.blocks = opener :: base)
    (indent_eq : n.indent = opener.indent) (deeper : opener.indent < inner) (nonempty : first ≠ [])
    (formed : Forms limit depth inLoop inner first body)
    (completed : { n with indent := inner, openedBlock := false }.Completes inner n.blocks first
      limit middle code)
    (later : ∀ (m : Nest) owed, m.Owes opener base owed → m.limit = limit → m.nextLabel = middle →
      m.Completes opener.indent base lines limit next (owed ++ more)) :
    n.Completes opener.indent base (first ++ lines) limit next (code ++ more) := by
  have inside : n.Completes inner (opener :: base) first limit middle code := by
    obtain ⟨l, lines, rfl⟩ := List.exists_cons_of_ne_nil nonempty
    obtain ⟨rfl, -⟩ := formed.head
    unfold Completes at completed ⊢
    rw [acceptAll_of_openedBlock opened (indent_eq ▸ deeper), ← blocks]
    exact completed
  exact inside.append fun m owed settled limit_eq next_eq =>
    later m owed (settled.owes deeper) limit_eq next_eq

/-- The nest with a new block, which has two labels set apart. -/
def entered (n : Nest) (kind : BlockKind) (indent : Nat) : Nest :=
  { n with
    blocks := { kind, label := n.nextLabel, indent } :: n.blocks
    openedBlock := true
    nextLabel := n.nextLabel + 2 }

variable {limit depth indent next top : Nat} {inLoop : Bool}

theorem Level.enter (level : n.Level limit depth inLoop indent next top) (room : depth < limit)
    (kind : BlockKind) : n.enter kind indent = some (n.entered kind indent) := by
  simp [Nest.enter, Nest.push, entered, level.limit_eq, level.depth_eq, room]

/-- A line that opens a block is accepted at the beginning of a script, if there is room. -/
theorem Level.accept_opening (level : n.Level limit depth inLoop indent next top)
    (room : depth < limit) {s : Sentence} {kind : BlockKind} {code : List Instruction}
    (opens : n.obey none indent s = (n.enter kind indent).map (·, code)) :
    n.accept { indent, sentence := s } = some (n.entered kind indent, code) := by
  simp [accept, level.align, opens, level.enter room]

/-- A line that leaves the innermost loop, or its current turn, jumps to a label of the loop. -/
theorem Level.accept_leaving (level : n.Level limit depth true indent next top) {s : Sentence}
    (target : Nat → Nat) (leaves : n.obey none indent s =
      n.innermostLoop?.map fun loop => (n, [.jump (target loop.label)])) :
    n.accept { indent, sentence := s } = some (n, [.jump (target top)]) := by
  obtain ⟨loop, found, rfl⟩ := Option.map_eq_some_iff.mp level.loop_eq
  simp [accept, level.align, leaves, found]

/-- Inside a new loop its own label counts. -/
theorem Level.loop (level : n.Level limit depth inLoop indent next top) {kind : BlockKind}
    (isLoop : kind.isLoop = true) (inner : Nat) :
    { n.entered kind indent with indent := inner, openedBlock := false }.Level limit (depth + 1)
      true inner (next + 2) next where
  limit_eq := level.limit_eq
  indent_eq := rfl
  closed := rfl
  next_eq := by rw [← level.next_eq]; rfl
  depth_eq := by simp [entered, level.depth_eq]
  loop_eq := by simp [entered, innermostLoop?, isLoop, level.next_eq]

/-- Inside a conditional the label of the loop around it counts. -/
theorem Level.conditional (level : n.Level limit depth inLoop indent next top) {b : Block}
    (isConditional : b.kind = .conditional) (inner labels : Nat) :
    { n with
      blocks := b :: n.blocks
      indent := inner
      openedBlock := false
      nextLabel := n.nextLabel + labels }.Level limit (depth + 1) inLoop inner (next + labels)
        top where
  limit_eq := level.limit_eq
  indent_eq := rfl
  closed := rfl
  next_eq := by rw [← level.next_eq]
  depth_eq := by simp [level.depth_eq]
  loop_eq := by
    rw [← level.loop_eq]
    simp [innermostLoop?, isConditional, BlockKind.isLoop]

/-- Back from a block, the script around it goes on. -/
theorem Level.backAt {next' : Nat} (level : n.Level limit depth inLoop indent next top)
    (owes : m.Owes opener base owed) (blocks : base = n.blocks) (limit_eq : m.limit = limit)
    (next_eq : m.nextLabel = next') :
    (m.backAt indent base).Level limit depth inLoop indent next' top where
  limit_eq := limit_eq
  indent_eq := rfl
  closed := owes.closed
  next_eq := next_eq
  depth_eq := by rw [← level.depth_eq, ← blocks]; rfl
  loop_eq := by rw [← level.loop_eq, blocks]; rfl

/-- A line that opens a block, the lines of the block, and what comes behind them. -/
theorem Level.completes_opening {inner middle last : Nat} {inside : Bool} {s : Sentence}
    {kind : BlockKind} {first lines : List Line} {body : Script}
    {opening code more : List Instruction} (level : n.Level limit depth inLoop indent next top)
    (room : depth < limit) (opens : n.obey none indent s = (n.enter kind indent).map (·, opening))
    (deeper : indent < inner) (nonempty : first ≠ [])
    (formed : Forms limit (depth + 1) inside inner first body)
    (completed : { n.entered kind indent with indent := inner, openedBlock := false }.Completes
      inner (n.entered kind indent).blocks first limit middle code)
    (later : ∀ (m : Nest) owed, m.Owes { kind, label := n.nextLabel, indent } n.blocks owed →
      m.limit = limit → m.nextLabel = middle →
        m.Completes indent n.blocks lines limit last (owed ++ more)) :
    n.Completes indent n.blocks ({ indent, sentence := s } :: (first ++ lines)) limit last
      (opening ++ (code ++ more)) :=
  (completes_block rfl rfl level.indent_eq deeper nonempty formed completed later).cons
    (level.accept_opening room opens)

/-- The lines are compiled to the code of a script wherever they may stand. -/
def Compiles (limit depth : Nat) (inLoop : Bool) (indent : Nat) (lines : List Line)
    (script : Script) : Prop :=
  ∀ ⦃n : Nest⦄ ⦃next top : Nat⦄, n.Level limit depth inLoop indent next top →
    n.Completes indent n.blocks lines limit (next + script.labels) (script.code next top)

/-- A block that a line opens and that a word closes or leaves open, and the rest of the script. -/
theorem Level.completes_closed {inner middle : Nat} {inside : Bool} {s word : Sentence}
    {kind : BlockKind} {first closing lines : List Line} {body rest : Script}
    {opening code : List Instruction} (level : n.Level limit depth inLoop indent next top)
    (room : depth < limit) (opens : n.obey none indent s = (n.enter kind indent).map (·, opening))
    (closes : ∀ m : Nest, m.obey (some { kind, label := n.nextLabel, indent }) indent word =
      some (m, Block.closing { kind, label := n.nextLabel, indent }))
    (deeper : indent < inner) (nonempty : first ≠ [])
    (formed : Forms limit (depth + 1) inside inner first body)
    (closed : closing = [] ∨ closing = [{ indent, sentence := word }])
    (apart : closing = [] → kind = .doLoop → ∀ l ∈ lines.head?, l.sentence ≠ .forever)
    (formed' : Forms limit depth inLoop indent lines rest)
    (completed : { n.entered kind indent with indent := inner, openedBlock := false }.Completes
      inner (n.entered kind indent).blocks first limit middle code)
    (later : Compiles limit depth inLoop indent lines rest) :
    n.Completes indent n.blocks ({ indent, sentence := s } :: (first ++ (closing ++ lines))) limit
      (middle + rest.labels) (opening ++ (code ++
        (Block.closing { kind, label := n.nextLabel, indent } ++ rest.code middle top))) :=
  level.completes_opening room opens deeper nonempty formed completed
    fun _ _ owes limit_eq next_eq => owes.completes_closing closed (closes _) formed' apart
      (later (level.backAt owes rfl limit_eq next_eq))

namespace Compiles

variable {inner within : Nat} {first second closing lines : List Line} {holds : Condition}
  {body other rest : Script}

theorem done : Compiles limit depth inLoop indent [] .done := fun n _ _ level =>
  ⟨n, [], [], rfl, .level level.indent_eq level.closed rfl, level.limit_eq, level.next_eq, rfl⟩

theorem action {a : Action} (stored : a.isRemote = false)
    (later : Compiles limit depth inLoop indent lines rest) :
    Compiles limit depth inLoop indent ({ indent, sentence := .action a } :: lines)
      (.action a rest) := by
  intro n next top level
  refine (later level).cons ?_
  simp [accept, level.align, obey, stored, Nest.closing]

theorem breakLoop (later : Compiles limit depth true indent lines rest) :
    Compiles limit depth true indent ({ indent, sentence := .breakLoop } :: lines)
      (.breakLoop rest) :=
  fun _ _ _ level => (later level).cons (level.accept_leaving (· + 1) rfl)

theorem continueLoop (later : Compiles limit depth true indent lines rest) :
    Compiles limit depth true indent ({ indent, sentence := .continueLoop } :: lines)
      (.continueLoop rest) :=
  fun _ _ _ level => (later level).cons (level.accept_leaving id rfl)

section

variable (room : depth < limit) (deeper : indent < inner) (nonempty : first ≠ [])
include room deeper nonempty

theorem ifThen (formed : Forms limit (depth + 1) inLoop inner first body)
    (closed : closing = [] ∨ closing = [{ indent, sentence := .endif }])
    (formed' : Forms limit depth inLoop indent lines rest)
    (inside : Compiles limit (depth + 1) inLoop inner first body)
    (later : Compiles limit depth inLoop indent lines rest) :
    Compiles limit depth inLoop indent
      ({ indent, sentence := .ifThen holds } :: (first ++ (closing ++ lines)))
      (.ifThen holds body rest) := by
  intro n next top level
  obtain rfl := level.next_eq
  have opens : n.obey none indent (.ifThen holds) = (n.enter .conditional indent).map
      (·, [.jumpUnless holds n.nextLabel]) := rfl
  have completed := level.completes_closed room opens
    (fun m => by simp [obey, close, Option.filter]) deeper nonempty formed closed (by simp) formed'
    (inside (level.conditional rfl inner 2)) later
  simp only [Script.labels, Script.code, ← Nat.add_assoc]
  exact completed

theorem ifElse (formed : Forms limit (depth + 1) inLoop inner first body)
    (deeper' : indent < within) (nonempty' : second ≠ [])
    (formed' : Forms limit (depth + 1) inLoop within second other)
    (closed : closing = [] ∨ closing = [{ indent, sentence := .endif }])
    (formed'' : Forms limit depth inLoop indent lines rest)
    (inside : Compiles limit (depth + 1) inLoop inner first body)
    (inside' : Compiles limit (depth + 1) inLoop within second other)
    (later : Compiles limit depth inLoop indent lines rest) :
    Compiles limit depth inLoop indent
      ({ indent, sentence := .ifThen holds } :: (first ++ { indent, sentence := .elseThen } ::
        (second ++ (closing ++ lines)))) (.ifElse holds body other rest) := by
  intro n next top level
  obtain rfl := level.next_eq
  have opens : n.obey none indent (.ifThen holds) = (n.enter .conditional indent).map
      (·, [.jumpUnless holds n.nextLabel]) := rfl
  simp only [Script.labels, Script.code, ← Nat.add_assoc]
  refine level.completes_opening room opens deeper nonempty formed
    (inside (level.conditional rfl inner 2)) fun m owed owes limit_eq next_eq => ?_
  -- The second branch is a block of its own, and takes the second label.
  have back := level.backAt owes rfl limit_eq next_eq
  let branch : Block :=
    { kind := .conditional, label := n.nextLabel + 1, indent, elseSeen := true }
  let reached : Nest :=
    { m.backAt indent n.blocks with blocks := branch :: n.blocks, openedBlock := true }
  have accepted : m.accept { indent, sentence := .elseThen } =
      some (reached, owed ++ [.jump (n.nextLabel + 1), .declare n.nextLabel]) :=
    owes.accept_closer (by
      simp [obey, Option.filter, Nest.push, back.limit_eq, level.depth_eq, room, reached, branch])
  have completed := Completes.cons accepted (completes_block rfl rfl rfl deeper' nonempty' formed'
    (inside' (back.conditional rfl within 0)) fun m' owed' owes' limit_eq' next_eq' =>
      owes'.completes_closing closed (by simp [branch, obey, close, Option.filter]) formed''
        (by simp [branch]) (later (level.backAt owes' rfl limit_eq' next_eq')))
  rw [List.append_assoc] at completed
  exact completed

theorem whileLoop (formed : Forms limit (depth + 1) true inner first body)
    (closed : closing = [] ∨ closing = [{ indent, sentence := .endwhile }])
    (formed' : Forms limit depth inLoop indent lines rest)
    (inside : Compiles limit (depth + 1) true inner first body)
    (later : Compiles limit depth inLoop indent lines rest) :
    Compiles limit depth inLoop indent
      ({ indent, sentence := .whileLoop holds } :: (first ++ (closing ++ lines)))
      (.whileLoop holds body rest) := by
  intro n next top level
  obtain rfl := level.next_eq
  have opens : n.obey none indent (.whileLoop holds) = (n.enter .whileLoop indent).map
      (·, [.declare n.nextLabel, .jumpUnless holds (n.nextLabel + 1)]) := rfl
  have completed := level.completes_closed room opens
    (fun m => by simp [obey, close, Option.filter]) deeper nonempty formed closed (by simp) formed'
    (inside (level.loop rfl inner)) later
  simp only [Script.labels, Script.code, ← Nat.add_assoc]
  exact completed

theorem foreverLoop (formed : Forms limit (depth + 1) true inner first body)
    (closed : closing = [] ∨ closing = [{ indent, sentence := .endwhile }])
    (formed' : Forms limit depth inLoop indent lines rest)
    (inside : Compiles limit (depth + 1) true inner first body)
    (later : Compiles limit depth inLoop indent lines rest) :
    Compiles limit depth inLoop indent
      ({ indent, sentence := .forever } :: (first ++ (closing ++ lines)))
      (.foreverLoop body rest) := by
  intro n next top level
  obtain rfl := level.next_eq
  have opens : n.obey none indent .forever = (n.enter .foreverLoop indent).map
      (·, [.declare n.nextLabel]) := rfl
  have completed := level.completes_closed room opens
    (fun m => by simp [obey, close, Option.filter]) deeper nonempty formed closed (by simp) formed'
    (inside (level.loop rfl inner)) later
  simp only [Script.labels, Script.code, ← Nat.add_assoc]
  exact completed

/-- The loop of a `do` that `forever` closes, or that is left open and not followed by one. -/
theorem doForever (formed : Forms limit (depth + 1) true inner first body)
    (closed : closing = [] ∧ (∀ l ∈ lines.head?, l.sentence ≠ .forever) ∨
      closing = [{ indent, sentence := .forever }])
    (formed' : Forms limit depth inLoop indent lines rest)
    (inside : Compiles limit (depth + 1) true inner first body)
    (later : Compiles limit depth inLoop indent lines rest) :
    Compiles limit depth inLoop indent
      ({ indent, sentence := .doLoop } :: (first ++ (closing ++ lines)))
      (.foreverLoop body rest) := by
  intro n next top level
  obtain rfl := level.next_eq
  have opens : n.obey none indent .doLoop = (n.enter .doLoop indent).map
      (·, [.declare n.nextLabel]) := rfl
  have left : closing = [] → ∀ l ∈ lines.head?, l.sentence ≠ .forever := by
    rintro rfl
    rcases closed with ⟨-, apart⟩ | closed
    · exact apart
    · cases closed
  have completed := level.completes_closed room opens
    (fun m => by simp [obey, Nest.closing]) deeper nonempty formed (closed.imp_left And.left)
    (fun unclosed _ => left unclosed) formed' (inside (level.loop rfl inner)) later
  simp only [Script.labels, Script.code, ← Nat.add_assoc]
  exact completed

theorem doUntil (formed : Forms limit (depth + 1) true inner first body)
    (inside : Compiles limit (depth + 1) true inner first body)
    (later : Compiles limit depth inLoop indent lines rest) :
    Compiles limit depth inLoop indent
      ({ indent, sentence := .doLoop } :: (first ++ { indent, sentence := .untilTrue holds } ::
        lines)) (.doUntil body holds rest) := by
  intro n next top level
  obtain rfl := level.next_eq
  have opens : n.obey none indent .doLoop = (n.enter .doLoop indent).map
      (·, [.declare n.nextLabel]) := rfl
  simp only [Script.labels, Script.code, ← Nat.add_assoc]
  refine level.completes_opening room opens deeper nonempty formed (inside (level.loop rfl inner))
    fun m owed owes limit_eq next_eq => ?_
  have accepted : m.accept { indent, sentence := .untilTrue holds } =
      some (m.backAt indent n.blocks,
        owed ++ [.jumpUnless holds n.nextLabel, .declare (n.nextLabel + 1)]) :=
    owes.accept_closer (by simp [obey, Option.filter])
  have completed := (later (level.backAt owes rfl limit_eq next_eq)).cons accepted
  rw [List.append_assoc] at completed
  exact completed

end

end Compiles

end Nest

/-- Lines that form a script are accepted, and what is emitted for them is its code. The induction
follows the form of the script: a block hands its lines on to the script in it, and what that leaves
open is paid for by the line behind it. -/
theorem Forms.completes {limit depth indent : Nat} {inLoop : Bool} {lines : List Line}
    {script : Script} (formed : Forms limit depth inLoop indent lines script) :
    Nest.Compiles limit depth inLoop indent lines script := by
  induction formed with
  | done => exact .done
  | action stored _ later => exact later.action stored
  | breakLoop _ later => exact later.breakLoop
  | continueLoop _ later => exact later.continueLoop
  | ifThen room deeper nonempty formed closed formed' inside later =>
    exact .ifThen room deeper nonempty formed closed formed' inside later
  | ifElse room deeper nonempty formed deeper' nonempty' formed' closed formed'' inside inside'
      later =>
    exact .ifElse room deeper nonempty formed deeper' nonempty' formed' closed formed'' inside
      inside' later
  | whileLoop room deeper nonempty formed closed formed' inside later =>
    exact .whileLoop room deeper nonempty formed closed formed' inside later
  | foreverLoop room deeper nonempty formed closed formed' inside later =>
    exact .foreverLoop room deeper nonempty formed closed formed' inside later
  | doForever room deeper nonempty formed closed formed' inside later =>
    exact .doForever room deeper nonempty formed closed formed' inside later
  | doUntil room deeper nonempty formed _ inside later =>
    exact .doUntil room deeper nonempty formed inside later

end ControlScript
