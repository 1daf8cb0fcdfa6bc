import ControlScript.Proofs.Nesting

/-!
# What a nest accepts forms a script

A nest accepts no other lines than those that form a script. The script is found by recursive
descent: the lines of a block are recognized first, and what they leave behind decides whether
the block is closed by a word or by the indentation of the next line.

## Main definitions

* `Begins` — lines that form a script up to a line that is indented less

## Main results

* `Nest.begins_of_acceptAll` — what is accepted begins with a script
* `Nest.finish_of_settled` — where a program can be finished
-/

namespace ControlScript

/-- The lines form a script, up to a line that is indented less. -/
def Begins (limit depth : Nat) (inLoop : Bool) (indent : Nat) (lines : List Line) : Prop :=
  ∃ taken left script, lines = taken ++ left ∧ Forms limit depth inLoop indent taken script ∧
    ∀ l ∈ left.head?, l.indent < indent

namespace Nest

variable {n m last : Nest} {opener : Block} {base : List Block} {owed code : List Instruction}
  {limit depth indent next top bound : Nat} {inLoop : Bool}

/-- Accepted lines that are fewer than `bound` begin with a script. -/
def RecognizedBelow (limit bound : Nat) : Prop :=
  ∀ {lines : List Line} {n last : Nest} {depth indent next top : Nat} {inLoop : Bool}
    {code : List Instruction}, lines.length < bound → n.Level limit depth inLoop indent next top →
      n.acceptAll lines = some (last, code) → last.openedBlock = false →
        Begins limit depth inLoop indent lines

/-- A line behind the lines of a block is not indented to a place between the two. -/
theorem Settled.indent_le_of_accept {inner : Nat}
    (settled : n.Settled inner (opener :: base) owed) {l : Line} (less : l.indent < inner)
    (accepted : n.accept l = some (m, code)) : l.indent ≤ opener.indent := by
  obtain ⟨closed, indent_le, inside, blocks, further, -⟩ := settled.exists_inside
  by_contra between
  rw [not_le] at between
  have apart : (inside ++ opener :: base).takeWhile (fun b => decide (l.indent < b.indent)) =
      inside ∧ (inside ++ opener :: base).dropWhile (fun b => decide (l.indent < b.indent)) =
        opener :: base :=
    takeWhile_append_of_ends (by simpa using fun b member => less.trans_le (further b member))
      (by simpa using between.le)
  have refused : n.align l.indent = none := by
    simp [Nest.align, closed, blocks, apart, show ¬n.indent < l.indent by omega,
      show n.indent ≠ l.indent by omega, between.ne]
  simp [accept, refused] at accepted

/-- The lines of a block that was just opened. -/
theorem exists_block (recognized : RecognizedBelow limit bound) {lines : List Line}
    (short : lines.length < bound) (opened : n.openedBlock = true)
    (blocks : n.blocks = opener :: base) (indent_eq : n.indent = opener.indent)
    (level : ∀ inner, { n with indent := inner, openedBlock := false }.Level limit depth inLoop
      inner next top)
    (accepted : n.acceptAll lines = some (last, code)) (closed : last.openedBlock = false) :
    ∃ inner first left body, ∃ m : Nest, ∃ owed code, lines = first ++ left ∧ left.length < bound ∧
      opener.indent < inner ∧ first ≠ [] ∧ Forms limit depth inLoop inner first body ∧
      m.Owes opener base owed ∧ m.limit = limit ∧ m.acceptAll left = some (last, code) ∧
      ∀ l ∈ left.head?, l.indent ≤ opener.indent := by
  cases lines with
  | nil =>
    cases accepted
    cases opened.symm.trans closed
  | cons l lines =>
    -- The line behind an opener is refused unless it is deeper.
    have deeper : n.indent < l.indent := by
      by_contra shallow
      rw [not_lt] at shallow
      simp [acceptAll, accept, Nest.align, opened, shallow] at accepted
    rw [acceptAll_of_openedBlock opened deeper] at accepted
    obtain ⟨first, left, body, split, formed, less⟩ :=
      recognized short (level l.indent) accepted closed
    -- Were the block empty, its first line would stand less deep than itself.
    have nonempty : first ≠ [] := by
      rintro rfl
      rw [List.nil_append] at split
      subst split
      exact absurd (less l rfl) (lt_irrefl _)
    obtain ⟨m, emitted, owed, all, settled, limit_eq, -, -⟩ := formed.completes (level l.indent)
    rw [split, acceptAll_append, all, Option.bind_some, Option.map_eq_some_iff] at accepted
    obtain ⟨⟨_, rest⟩, accepted, equal⟩ := accepted
    cases equal
    rw [show ({ n with indent := l.indent, openedBlock := false } : Nest).blocks = opener :: base
      from blocks] at settled
    have shorter : left.length < bound := by
      rw [split, List.length_append] at short
      omega
    refine ⟨l.indent, first, left, body, m, owed, rest, split, shorter, indent_eq ▸ deeper,
      nonempty, formed, settled.owes (indent_eq ▸ deeper), limit_eq, accepted, fun t member => ?_⟩
    obtain ⟨left, rfl⟩ := List.head?_eq_some_iff.mp member
    simp only [acceptAll, Option.bind_eq_some_iff, Prod.exists] at accepted
    obtain ⟨_, _, accepted, -⟩ := accepted
    exact settled.indent_le_of_accept (less t rfl) accepted

/-- What comes behind a block goes on with the script around it, unless it closes the block. -/
theorem Owes.begins (owes : n.Owes opener base owed) (recognized : RecognizedBelow limit bound)
    (level : (n.backAt opener.indent base).Level limit depth inLoop opener.indent next top)
    {lines : List Line} (short : lines.length < bound)
    (accepted : n.acceptAll lines = some (last, code)) (closed : last.openedBlock = false)
    (atMost : ∀ l ∈ lines.head?, l.indent ≤ opener.indent)
    (plain : ∀ l ∈ lines.head?, l.indent = opener.indent → l.sentence.isCloser = false ∧
      (opener.kind = .doLoop → l.sentence ≠ .forever)) :
    Begins limit depth inLoop opener.indent lines := by
  cases lines with
  | nil => exact ⟨[], [], .done, rfl, .done, by simp⟩
  | cons l lines =>
    rcases (atMost l rfl).lt_or_eq with less | same
    · exact ⟨[], l :: lines, .done, rfl, .done, by simpa using less⟩
    · obtain ⟨notCloser, apart⟩ := plain l rfl same
      rw [owes.acceptAll_cons same notCloser apart, Option.map_eq_some_iff] at accepted
      obtain ⟨⟨_, rest⟩, accepted, equal⟩ := accepted
      cases equal
      exact recognized short level accepted closed

/-- The second branch of a conditional, in place of the first. -/
def otherBranch (n : Nest) (opener : Block) (base : List Block) : Nest :=
  { n.backAt opener.indent base with
    blocks := { kind := .conditional, label := opener.label + 1, indent := opener.indent,
                elseSeen := true } :: base
    openedBlock := true }

/-- Whether a line takes up a block in front of it. -/
def TakesUp (opener : Block) (l : Line) : Prop :=
  l.indent = opener.indent ∧
    (l.sentence.isCloser = true ∨ opener.kind = .doLoop ∧ l.sentence = .forever)

/-- The words that a line may take up a block with. -/
theorem Owes.accept_inv (owes : n.Owes opener base owed) {l : Line} (takes : TakesUp opener l)
    (accepted : n.accept l = some (m, code)) :
    (opener.kind = .conditional ∧ opener.elseSeen = false ∧ l.sentence = .elseThen ∧
        base.length < n.limit ∧ m = n.otherBranch opener base) ∨
      m = n.backAt opener.indent base ∧
        (opener.kind = .conditional ∧ l.sentence = .endif ∨
          (opener.kind = .whileLoop ∨ opener.kind = .foreverLoop) ∧ l.sentence = .endwhile ∨
          opener.kind = .doLoop ∧
            (l.sentence = .forever ∨ ∃ holds, l.sentence = .untilTrue holds)) := by
  obtain ⟨same, special⟩ := takes
  simp only [accept, same, owes.align, Option.bind_some, Option.map_eq_some_iff, Prod.exists,
    Prod.mk.injEq] at accepted
  -- The block is handed to the line, so each word asks for its kind.
  obtain ⟨_, _, obeyed, rfl, -⟩ := accepted
  cases said : l.sentence with
  | elseThen =>
    simp only [said, obey, Option.bind_eq_some_iff, Option.filter_eq_some_iff,
      Option.some.injEq, Option.map_eq_some_iff, push, Prod.mk.injEq] at obeyed
    obtain ⟨b, ⟨rfl, first⟩, _, pushed, rfl, -⟩ := obeyed
    split at pushed
    · next room =>
      cases pushed
      have first : opener.kind = .conditional ∧ opener.elseSeen = false := by simpa using first
      exact .inl ⟨first.1, first.2, rfl, room, rfl⟩
    · cases pushed
  | endif =>
    simp only [said, obey, close, Option.map_eq_some_iff, Option.filter_eq_some_iff,
      Option.some.injEq, Prod.mk.injEq] at obeyed
    obtain ⟨b, ⟨rfl, kind⟩, rfl, -⟩ := obeyed
    exact .inr ⟨rfl, .inl ⟨by simpa using kind, rfl⟩⟩
  | endwhile =>
    simp only [said, obey, close, Option.map_eq_some_iff, Option.filter_eq_some_iff,
      Option.some.injEq, Prod.mk.injEq] at obeyed
    obtain ⟨b, ⟨rfl, kind⟩, rfl, -⟩ := obeyed
    exact .inr ⟨rfl, .inr (.inl ⟨by simpa using kind, rfl⟩)⟩
  | untilTrue holds =>
    simp only [said, obey, Option.map_eq_some_iff, Option.filter_eq_some_iff,
      Option.some.injEq, Prod.mk.injEq] at obeyed
    obtain ⟨b, ⟨rfl, kind⟩, rfl, -⟩ := obeyed
    exact .inr ⟨rfl, .inr (.inr ⟨by simpa using kind, .inr ⟨holds, rfl⟩⟩)⟩
  | forever =>
    have isDo : opener.kind = .doLoop := by
      rcases special with closer | ⟨isDo, -⟩
      · simp [said, Sentence.isCloser] at closer
      · exact isDo
    simp only [said, obey, Option.any_some, isDo, decide_true, if_true, Option.some.injEq,
      Prod.mk.injEq] at obeyed
    exact .inr ⟨obeyed.1.symm, .inr (.inr ⟨isDo, .inl rfl⟩)⟩
  | _ => simp [said, Sentence.isCloser] at special

/-- Behind a block that only `word` takes up, the block is closed by it or left open. -/
theorem Owes.exists_closing (word : Sentence) (owes : n.Owes opener base owed)
    (recognized : RecognizedBelow limit bound)
    (level : (n.backAt opener.indent base).Level limit depth inLoop opener.indent next top)
    {lines : List Line} (short : lines.length < bound)
    (accepted : n.acceptAll lines = some (last, code)) (closed : last.openedBlock = false)
    (atMost : ∀ l ∈ lines.head?, l.indent ≤ opener.indent)
    (only : ∀ l ∈ lines.head?, TakesUp opener l → ∀ m code, n.accept l = some (m, code) →
      l.sentence = word ∧ m = n.backAt opener.indent base) :
    ∃ closing taken left rest, lines = closing ++ (taken ++ left) ∧
      (closing = [] ∧ (opener.kind = .doLoop → ∀ l ∈ taken.head?, l.sentence ≠ .forever) ∨
        closing = [{ indent := opener.indent, sentence := word }]) ∧
      Forms limit depth inLoop opener.indent taken rest ∧
      ∀ l ∈ left.head?, l.indent < opener.indent := by
  -- Either the next line takes the block up, or it goes on behind it.
  by_cases takes : ∃ l ∈ lines.head?, TakesUp opener l
  · obtain ⟨l, member, takes⟩ := takes
    obtain ⟨lines, rfl⟩ := List.head?_eq_some_iff.mp member
    simp only [acceptAll, Option.bind_eq_some_iff, Option.map_eq_some_iff, Prod.exists,
      Prod.mk.injEq] at accepted
    obtain ⟨m, _, closes, _, rest, accepted, rfl, -⟩ := accepted
    obtain ⟨said, rfl⟩ := only l rfl takes _ _ closes
    obtain ⟨taken, left, script, rfl, formed, less⟩ :=
      recognized (Nat.lt_of_succ_lt short) level accepted closed
    obtain ⟨indent, sentence⟩ := l
    obtain ⟨rfl, -⟩ := takes
    obtain rfl := said
    exact ⟨[_], taken, left, script, rfl, .inr rfl, formed, less⟩
  · have plain : ∀ l ∈ lines.head?, l.indent = opener.indent → l.sentence.isCloser = false ∧
        (opener.kind = .doLoop → l.sentence ≠ .forever) := by
      intro l member same
      have untaken : ¬TakesUp opener l := fun taken => takes ⟨l, member, taken⟩
      simp only [TakesUp, same, true_and, not_or, Bool.not_eq_true, not_and] at untaken
      exact untaken
    obtain ⟨taken, left, script, rfl, formed, less⟩ :=
      owes.begins recognized level short accepted closed atMost plain
    refine ⟨[], taken, left, script, rfl, .inl ⟨rfl, fun isDo l member => ?_⟩, formed, less⟩
    obtain ⟨taken, rfl⟩ := List.head?_eq_some_iff.mp member
    exact (plain l rfl formed.head.1).2 isDo

/-- A block is opened only where there is room for it. -/
theorem Level.enter_inv (level : n.Level limit depth inLoop indent next top) {kind : BlockKind}
    (opened : n.enter kind indent = some m) : depth < limit ∧ m = n.entered kind indent := by
  simp only [Nest.enter, push, level.limit_eq, level.depth_eq] at opened
  split at opened
  · next room =>
    cases opened
    exact ⟨room, by simp [entered, level.limit_eq]⟩
  · cases opened

/-- Jumps out of a loop are accepted only in a loop. -/
theorem Level.inLoop_of_found (level : n.Level limit depth inLoop indent next top) {loop : Block}
    (found : n.innermostLoop? = some loop) : inLoop = true := by
  have same := level.loop_eq
  cases inLoop with
  | true => rfl
  | false => simp [found] at same

/-- A loop that is opened by its own word. -/
theorem exists_loop (recognized : RecognizedBelow limit bound)
    (level : n.Level limit depth inLoop indent next top) {kind : BlockKind}
    (isLoop : kind = .whileLoop ∨ kind = .foreverLoop) {lines : List Line}
    (short : lines.length < bound)
    (accepted : (n.entered kind indent).acceptAll lines = some (last, code))
    (closed : last.openedBlock = false) :
    ∃ inner first closing taken left body rest, lines = first ++ (closing ++ (taken ++ left)) ∧
      indent < inner ∧ first ≠ [] ∧ Forms limit (depth + 1) true inner first body ∧
      (closing = [] ∨ closing = [{ indent, sentence := .endwhile }]) ∧
      Forms limit depth inLoop indent taken rest ∧ ∀ l ∈ left.head?, l.indent < indent := by
  have repeats : kind.isLoop = true := by rcases isLoop with rfl | rfl <;> rfl
  have notDo : kind ≠ .doLoop ∧ kind ≠ .conditional := by rcases isLoop with rfl | rfl <;> simp
  obtain ⟨inner, first, left, body, m, owed, code, rfl, shorter, deeper, nonempty, formed, owes,
    limit_eq, accepted, atMost⟩ :=
      exists_block recognized short rfl rfl level.indent_eq (level.loop repeats) accepted closed
  -- A loop that its own word opens is taken up by no word but `endwhile`.
  have only : ∀ l ∈ left.head?, TakesUp { kind, label := n.nextLabel, indent } l →
      ∀ m' code, m.accept l = some (m', code) →
        l.sentence = .endwhile ∧ m' = m.backAt indent n.blocks := by
    intro l _ takes m' code accepted
    rcases owes.accept_inv takes accepted with ⟨isConditional, -⟩ | ⟨rfl, words⟩
    · exact absurd isConditional notDo.2
    · rcases words with ⟨isConditional, -⟩ | ⟨-, said⟩ | ⟨isDo, -⟩
      · exact absurd isConditional notDo.2
      · exact ⟨said, rfl⟩
      · exact absurd isDo notDo.1
  obtain ⟨closing, taken, left, rest, rfl, closed, later, less⟩ := owes.exists_closing .endwhile
    recognized (level.backAt owes rfl limit_eq rfl) shorter accepted closed atMost only
  exact ⟨inner, first, closing, taken, left, body, rest, rfl, deeper, nonempty, formed,
    closed.imp_left And.left, later, less⟩

/-- A conditional, with one branch or two. -/
theorem begins_conditional (recognized : RecognizedBelow limit bound)
    (level : n.Level limit depth inLoop indent next top) (room : depth < limit) {lines : List Line}
    {holds : Condition} (short : lines.length < bound)
    (accepted : (n.entered .conditional indent).acceptAll lines = some (last, code))
    (closed : last.openedBlock = false) :
    Begins limit depth inLoop indent ({ indent, sentence := .ifThen holds } :: lines) := by
  obtain ⟨inner, first, left, body, m, owed, code, rfl, shorter, deeper, nonempty, formed, owes,
    limit_eq, accepted, atMost⟩ := exists_block recognized short rfl rfl level.indent_eq
      (fun inner => level.conditional rfl inner 2) accepted closed
  have back := level.backAt owes rfl limit_eq rfl
  -- The second branch is a block of its own, which cannot be taken up by another `else`.
  by_cases twofold : ∃ l ∈ left.head?, l.indent = indent ∧ l.sentence = .elseThen
  · obtain ⟨lines, rfl⟩ : ∃ lines, left = { indent, sentence := .elseThen } :: lines := by
      obtain ⟨⟨_, _⟩, member, rfl, rfl⟩ := twofold
      exact List.head?_eq_some_iff.mp member
    simp only [acceptAll, Option.bind_eq_some_iff, Option.map_eq_some_iff, Prod.exists,
      Prod.mk.injEq] at accepted
    obtain ⟨branch, _, taken, _, code, accepted, rfl, -⟩ := accepted
    obtain rfl : branch = m.otherBranch _ _ := by
      rcases owes.accept_inv ⟨rfl, .inl rfl⟩ taken with ⟨-, -, -, -, same⟩ | ⟨-, words⟩
      · exact same
      · simp at words
    obtain ⟨within, second, left, other, m', owed', code, rfl, shorter, deeper', nonempty',
      formed', owes', limit_eq', accepted, atMost⟩ := exists_block recognized
        (Nat.lt_of_succ_lt shorter) rfl rfl rfl (fun inner => back.conditional rfl inner 0) accepted
        closed
    have only : ∀ l ∈ left.head?,
        TakesUp { kind := .conditional, label := n.nextLabel + 1, indent, elseSeen := true } l →
          ∀ m code, m'.accept l = some (m, code) →
            l.sentence = .endif ∧ m = m'.backAt indent n.blocks := by
      intro l _ takes m code accepted
      rcases owes'.accept_inv takes accepted with ⟨-, isFirst, -⟩ | ⟨rfl, words⟩
      · cases isFirst
      · simpa using words
    obtain ⟨closing, taken, left, rest, rfl, closed, later, less⟩ := owes'.exists_closing .endif
      recognized (level.backAt owes' rfl limit_eq' rfl) shorter accepted closed atMost only
    exact ⟨_ :: (first ++ _ :: (second ++ (closing ++ taken))), left, .ifElse holds body other rest,
      by simp, .ifElse room deeper nonempty formed deeper' nonempty' formed'
        (closed.imp_left And.left) later, less⟩
  · have only : ∀ l ∈ left.head?,
        TakesUp { kind := .conditional, label := n.nextLabel, indent } l →
          ∀ m' code, m.accept l = some (m', code) →
            l.sentence = .endif ∧ m' = m.backAt indent n.blocks := by
      intro l member takes m' code accepted
      rcases owes.accept_inv takes accepted with ⟨-, -, said, -⟩ | ⟨rfl, words⟩
      · exact absurd ⟨l, member, takes.1, said⟩ twofold
      · simpa using words
    obtain ⟨closing, taken, left, rest, rfl, closed, later, less⟩ := owes.exists_closing .endif
      recognized back shorter accepted closed atMost only
    exact ⟨_ :: (first ++ (closing ++ taken)), left, .ifThen holds body rest, by simp,
      .ifThen room deeper nonempty formed (closed.imp_left And.left) later, less⟩

/-- A loop that is opened by `do`. -/
theorem begins_doLoop (recognized : RecognizedBelow limit bound)
    (level : n.Level limit depth inLoop indent next top) (room : depth < limit) {lines : List Line}
    (short : lines.length < bound)
    (accepted : (n.entered .doLoop indent).acceptAll lines = some (last, code))
    (closed : last.openedBlock = false) :
    Begins limit depth inLoop indent ({ indent, sentence := .doLoop } :: lines) := by
  obtain ⟨inner, first, left, body, m, owed, code, rfl, shorter, deeper, nonempty, formed, owes,
    limit_eq, accepted, atMost⟩ :=
      exists_block recognized short rfl rfl level.indent_eq (level.loop rfl) accepted closed
  have back := level.backAt owes rfl limit_eq rfl
  -- Only the line behind the body tells which of the two loops it is.
  by_cases conditional : ∃ l ∈ left.head?, l.indent = indent ∧
      ∃ holds, l.sentence = .untilTrue holds
  · obtain ⟨holds, lines, rfl⟩ : ∃ holds lines,
        left = { indent, sentence := .untilTrue holds } :: lines := by
      obtain ⟨⟨_, _⟩, member, rfl, holds, rfl⟩ := conditional
      exact ⟨holds, List.head?_eq_some_iff.mp member⟩
    simp only [acceptAll, Option.bind_eq_some_iff, Option.map_eq_some_iff, Prod.exists,
      Prod.mk.injEq] at accepted
    obtain ⟨after, _, taken, _, code, accepted, rfl, -⟩ := accepted
    obtain rfl : after = m.backAt indent n.blocks := by
      rcases owes.accept_inv ⟨rfl, .inl rfl⟩ taken with ⟨isConditional, -⟩ | ⟨same, -⟩
      · cases isConditional
      · exact same
    obtain ⟨taken, left, rest, rfl, later, less⟩ :=
      recognized (Nat.lt_of_succ_lt shorter) back accepted closed
    exact ⟨_ :: (first ++ _ :: taken), left, .doUntil body holds rest, by simp,
      .doUntil room deeper nonempty formed later, less⟩
  · have only : ∀ l ∈ left.head?, TakesUp { kind := .doLoop, label := n.nextLabel, indent } l →
        ∀ m' code, m.accept l = some (m', code) →
          l.sentence = .forever ∧ m' = m.backAt indent n.blocks := by
      intro l member takes m' code accepted
      rcases owes.accept_inv takes accepted with ⟨isConditional, -⟩ | ⟨rfl, words⟩
      · cases isConditional
      · rcases words with ⟨isConditional, -⟩ | ⟨isOther, -⟩ | ⟨-, said | until_⟩
        · cases isConditional
        · simp at isOther
        · exact ⟨said, rfl⟩
        · exact absurd ⟨l, member, takes.1, until_⟩ conditional
    obtain ⟨closing, taken, left, rest, rfl, closed, later, less⟩ := owes.exists_closing .forever
      recognized back shorter accepted closed atMost only
    exact ⟨_ :: (first ++ (closing ++ taken)), left, .foreverLoop body rest, by simp,
      .doForever room deeper nonempty formed
        (closed.imp_left fun left => ⟨left.1, left.2 rfl⟩) later, less⟩

/-- A script begins with a line at its indentation that is obeyed where no block is closed, if what
comes behind the line is accepted. -/
theorem begins_of_obey (recognized : RecognizedBelow limit bound)
    (level : n.Level limit depth inLoop indent next top) {lines : List Line}
    (short : lines.length < bound) {s : Sentence} {emitted : List Instruction}
    (obeyed : n.obey none indent s = some (m, emitted))
    (accepted : m.acceptAll lines = some (last, code)) (closed : last.openedBlock = false) :
    Begins limit depth inLoop indent ({ indent, sentence := s } :: lines) := by
  cases s with
  | action a =>
    simp only [obey] at obeyed
    split at obeyed
    · cases obeyed
    · next stored =>
      cases obeyed
      obtain ⟨taken, left, script, rfl, formed, less⟩ := recognized short level accepted closed
      exact ⟨_, left, _, rfl, .action (by simpa using stored) formed, less⟩
  | breakLoop =>
    simp only [obey, Option.map_eq_some_iff, Prod.mk.injEq] at obeyed
    obtain ⟨loop, found, rfl, -⟩ := obeyed
    obtain rfl : inLoop = true := level.inLoop_of_found found
    obtain ⟨taken, left, script, rfl, formed, less⟩ := recognized short level accepted closed
    exact ⟨_, left, _, rfl, .breakLoop formed, less⟩
  | continueLoop =>
    simp only [obey, Option.map_eq_some_iff, Prod.mk.injEq] at obeyed
    obtain ⟨loop, found, rfl, -⟩ := obeyed
    obtain rfl : inLoop = true := level.inLoop_of_found found
    obtain ⟨taken, left, script, rfl, formed, less⟩ := recognized short level accepted closed
    exact ⟨_, left, _, rfl, .continueLoop formed, less⟩
  | ifThen holds =>
    simp only [obey, Option.map_eq_some_iff, Prod.mk.injEq] at obeyed
    obtain ⟨_, opened, rfl, -⟩ := obeyed
    obtain ⟨room, rfl⟩ := level.enter_inv opened
    exact begins_conditional recognized level room short accepted closed
  | whileLoop holds =>
    simp only [obey, Option.map_eq_some_iff, Prod.mk.injEq] at obeyed
    obtain ⟨_, opened, rfl, -⟩ := obeyed
    obtain ⟨room, rfl⟩ := level.enter_inv opened
    obtain ⟨inner, first, closing, taken, left, body, rest, rfl, deeper, nonempty, formed, word,
      later, less⟩ := exists_loop recognized level (.inl rfl) short accepted closed
    exact ⟨_ :: (first ++ (closing ++ taken)), left, .whileLoop holds body rest, by simp,
      .whileLoop room deeper nonempty formed word later, less⟩
  | forever =>
    simp only [obey, Option.any_none, Bool.false_eq_true, if_false, Option.map_eq_some_iff,
      Prod.mk.injEq] at obeyed
    obtain ⟨_, opened, rfl, -⟩ := obeyed
    obtain ⟨room, rfl⟩ := level.enter_inv opened
    obtain ⟨inner, first, closing, taken, left, body, rest, rfl, deeper, nonempty, formed, word,
      later, less⟩ := exists_loop recognized level (.inr rfl) short accepted closed
    exact ⟨_ :: (first ++ (closing ++ taken)), left, .foreverLoop body rest, by simp,
      .foreverLoop room deeper nonempty formed word later, less⟩
  | doLoop =>
    simp only [obey, Option.map_eq_some_iff, Prod.mk.injEq] at obeyed
    obtain ⟨_, opened, rfl, -⟩ := obeyed
    obtain ⟨room, rfl⟩ := level.enter_inv opened
    exact begins_doLoop recognized level room short accepted closed
  | elseThen | endif | endwhile | untilTrue | immediate | begin | finish =>
    simp [obey, close] at obeyed

/-- What is accepted at the beginning of a script begins with one. -/
theorem begins_of_acceptAll {lines : List Line} (level : n.Level limit depth inLoop indent next top)
    (accepted : n.acceptAll lines = some (last, code)) (closed : last.openedBlock = false) :
    Begins limit depth inLoop indent lines := by
  -- A block takes up lines before the rest of the script begins, so the induction is on how many
  -- lines there are.
  induction count : lines.length using Nat.strong_induction_on
    generalizing lines n last depth indent next top inLoop code with
  | _ bound ih =>
  have recognized : RecognizedBelow limit bound := fun short level accepted closed =>
    ih _ short level accepted closed rfl
  subst count
  cases lines with
  | nil => exact ⟨[], [], .done, rfl, .done, by simp⟩
  | cons l lines =>
    simp only [acceptAll, Option.bind_eq_some_iff, Option.map_eq_some_iff, Prod.exists,
      Prod.mk.injEq] at accepted
    obtain ⟨m, _, first, _, code, accepted, rfl, -⟩ := accepted
    obtain ⟨column, sentence⟩ := l
    rcases lt_trichotomy column indent with less | rfl | more
    -- A line that stands further out belongs to a script around this one.
    · exact ⟨[], _, .done, rfl, .done, by simpa using less⟩
    · simp only [accept, level.align, Option.bind_some, Option.map_eq_some_iff, Prod.exists,
        Prod.mk.injEq] at first
      obtain ⟨_, _, obeyed, rfl, -⟩ := first
      exact begins_of_obey recognized level (Nat.lt_succ_self _) obeyed accepted closed
    -- A line that stands further in would need a block that has just been opened.
    · simp [accept, Nest.align, level.closed, level.indent_eq, more] at first

/-- A nest at the beginning of a program. -/
theorem level_of_program (limit top : Nat) :
    ({ limit } : Nest).Level limit 0 false 0 0 top := ⟨rfl, rfl, rfl, rfl, rfl, rfl⟩

/-- Behind a block of the outermost indentation, no other line closes all blocks. -/
theorem Owes.finish_eq_none (owes : n.Owes opener [] owed) (outermost : opener.indent = 0)
    (deeper : indent ≠ 0) : n.finish indent = none := by
  obtain ⟨inside, blocks, -, -⟩ := owes.exists_inside
  unfold finish
  rw [Option.bind_eq_none_iff]
  rintro ⟨m, matched, code⟩ aligned
  refine if_neg fun nothing => ?_
  simp only [Nest.align, owes.closed, Bool.false_eq_true, if_false] at aligned
  split at aligned
  · cases aligned
  split at aligned
  · cases aligned
    simp [blocks] at nothing
  split at aligned
  · cases aligned
  next b others left =>
    split at aligned
    · next same =>
      cases aligned
      obtain rfl : others = [] := nothing
      have suffix : [b] <:+ inside ++ [opener] := by
        rw [← left, ← blocks]
        exact List.dropWhile_suffix _
      obtain ⟨before, split⟩ := suffix
      obtain ⟨-, rfl⟩ : before = inside ∧ b = opener := by simpa using split
      exact deeper (same.symm.trans outermost)
    · cases aligned

/-- Behind a script of the outermost indentation, a program can be finished at that indentation
and nowhere else. -/
theorem finish_of_settled (settled : n.Settled 0 [] owed) (indent : Nat) :
    n.finish indent = if indent = 0 then some (n.backAt 0 [], owed) else none := by
  cases settled with
  | level indent_eq closed blocks =>
    have same : n.backAt 0 [] = n := by rw [backAt, ← blocks, ← indent_eq]
    by_cases outermost : indent = 0
    · simp [finish, Nest.align, closed, indent_eq, blocks, same, closing, outermost]
    · simp [finish, Nest.align, closed, indent_eq, outermost, Nat.pos_of_ne_zero outermost]
  | owing same owes =>
    next opener owed =>
    by_cases outermost : indent = 0
    · have aligned := owes.align
      rw [same] at aligned
      simp [finish, aligned, outermost, backAt, closing]
    · rw [if_neg outermost, owes.finish_eq_none same outermost]

/-- A nest after the rules of indentation is not waiting for a deeper line. -/
theorem closed_of_align {matched : Option Block}
    (aligned : n.align indent = some (m, matched, code)) : m.openedBlock = false := by
  unfold Nest.align at aligned
  split at aligned
  · split at aligned <;> cases aligned
    rfl
  · next closed =>
    split at aligned
    · cases aligned
    split at aligned
    · cases aligned
      simpa using closed
    · dsimp only at aligned
      split at aligned
      · cases aligned
      · split at aligned <;> cases aligned
        simpa using closed

/-- Acting on a sentence opens a block or leaves the nest as it is. -/
theorem eq_or_push_of_obey {matched : Option Block} {s : Sentence}
    (obeyed : n.obey matched indent s = some (m, code)) :
    m = n ∨ ∃ n' block, push n' block = some m := by
  cases s with
  | action a =>
    simp only [obey] at obeyed
    split at obeyed <;> cases obeyed
    exact .inl rfl
  | breakLoop | continueLoop | endif | endwhile | untilTrue =>
    simp only [obey, close, Option.map_eq_some_iff, Prod.mk.injEq] at obeyed
    obtain ⟨_, -, rfl, -⟩ := obeyed
    exact .inl rfl
  | ifThen | whileLoop | doLoop =>
    simp only [obey, Option.map_eq_some_iff, Prod.mk.injEq] at obeyed
    obtain ⟨_, pushed, rfl, -⟩ := obeyed
    exact .inr ⟨_, _, pushed⟩
  | elseThen =>
    simp only [obey, Option.bind_eq_some_iff, Option.map_eq_some_iff, Prod.mk.injEq] at obeyed
    obtain ⟨_, -, _, pushed, rfl, -⟩ := obeyed
    exact .inr ⟨_, _, pushed⟩
  | forever =>
    simp only [obey] at obeyed
    split at obeyed
    · cases obeyed
      exact .inl rfl
    · simp only [Option.map_eq_some_iff, Prod.mk.injEq] at obeyed
      obtain ⟨_, pushed, rfl, -⟩ := obeyed
      exact .inr ⟨_, _, pushed⟩
  | immediate | begin | finish => cases obeyed

/-- Behind accepted lines, a nest that waits for a deeper line has a block open. -/
theorem blocks_ne_nil_of_acceptAll {lines : List Line}
    (start : n.openedBlock = true → n.blocks ≠ [])
    (accepted : n.acceptAll lines = some (last, code)) (opened : last.openedBlock = true) :
    last.blocks ≠ [] := by
  induction lines generalizing n code with
  | nil =>
    cases accepted
    exact start opened
  | cons l lines ih =>
    simp only [acceptAll, accept, Option.bind_eq_some_iff, Option.map_eq_some_iff, Prod.exists,
      Prod.mk.injEq] at accepted
    obtain ⟨m, _, ⟨aligned, _, _, align, _, _, obeyed, rfl, -⟩, _, _, accepted, rfl, -⟩ := accepted
    refine ih (fun opened => ?_) accepted
    rcases eq_or_push_of_obey obeyed with rfl | ⟨n', block, pushed⟩
    · cases (closed_of_align align).symm.trans opened
    · unfold push at pushed
      split at pushed <;> cases pushed
      simp

/-- A program is accepted up to its end just if its lines form a script and the end stands at the
outermost indentation. -/
theorem finish_iff (limit : Nat) (lines : List Line) (indent : Nat) :
    (∃ m code, (({ limit } : Nest).acceptAll lines).bind (fun (n, _) => n.finish indent) =
      some (m, code)) ↔ indent = 0 ∧ ∃ script, Forms limit 0 false 0 lines script := by
  constructor
  · rintro ⟨m, code, finished⟩
    simp only [Option.bind_eq_some_iff, Prod.exists] at finished
    obtain ⟨n, emitted, accepted, finished⟩ := finished
    have closed : n.openedBlock = false := by
      by_contra opened
      rw [Bool.not_eq_false] at opened
      have nonempty := blocks_ne_nil_of_acceptAll (by simp) accepted opened
      simp only [finish, Nest.align, opened, if_true] at finished
      split at finished
      · cases finished
      · simp [nonempty] at finished
    obtain ⟨taken, left, script, rfl, formed, less⟩ :=
      begins_of_acceptAll (level_of_program limit 0) accepted closed
    obtain rfl : left = [] := by
      cases left with
      | nil => rfl
      | cons l left => exact absurd (less l rfl) (Nat.not_lt_zero _)
    rw [List.append_nil] at accepted ⊢
    obtain ⟨last, _, owed, all, settled, -⟩ := formed.completes (level_of_program limit 0)
    cases accepted.symm.trans all
    rw [finish_of_settled settled] at finished
    split at finished
    · next outermost => exact ⟨outermost, script, formed⟩
    · cases finished
  · rintro ⟨rfl, script, formed⟩
    obtain ⟨last, _, owed, all, settled, -⟩ := formed.completes (level_of_program limit 0)
    exact ⟨_, _, by simp only [all, Option.bind_some, finish_of_settled settled, if_true]; rfl⟩

/-- What is emitted for the lines of a script up to the end of its program is its code. -/
theorem finish_of_forms {limit : Nat} {lines : List Line} {script : Script}
    (formed : Forms limit 0 false 0 lines script) :
    ∃ n m emitted owed, ({ limit } : Nest).acceptAll lines = some (n, emitted) ∧
      n.finish 0 = some (m, owed) ∧ emitted ++ owed = script.code 0 0 ∧
      m.nextLabel = script.labels := by
  obtain ⟨last, emitted, owed, all, settled, -, next_eq, code_eq⟩ :=
    formed.completes (level_of_program limit 0)
  refine ⟨last, last.backAt 0 [], emitted, owed, all, by rw [finish_of_settled settled, if_pos rfl],
    code_eq, ?_⟩
  rw [← Nat.zero_add script.labels, ← next_eq]
  rfl

end Nest

end ControlScript
