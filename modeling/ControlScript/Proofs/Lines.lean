import ControlScript.Proofs.Statements

/-!
# Compiled lines

What the work on a line comes to when it succeeds. A line of a program that says something is first
read and then heeded: its sentence is obeyed by the nest of open blocks, or it begins or ends the
program. A line that says nothing changes nothing.

## Main definitions

* `Compiler.heed` — what a compiler does with a line that it has read
* `Keyword.ofText?` — the keyword of a source line

## Main results

* `Compile.success?_line` — a line of a program is read and then heeded
* `Compile.success?_line_of_blank` — a line that says nothing does nothing
* `Line.ofText?_of_read?` — the words that frame a program are its keywords
-/

namespace ControlScript

namespace Compiler

/-- The compiler at the start of a program. -/
def begun (c : Compiler) : Compiler :=
  { c.leave with compiling := true, programError := false, lineNumber := 0, nextLabel := 0 }

/-- What a compiler does with a line of a program, or with the first of one. -/
def heed (c : Compiler) (l : Line) : Option (Compiler × List Instruction) :=
  match l.sentence with
  | .begin => some (c.begun, (if c.compiling then [.abortDownload] else []) ++ [.beginDownload])
  | .finish =>
    if c.compiling && !c.programError then
      (c.nest.finish l.indent).map fun (n, code) => ((c.withNest n).leave, code ++ [.endDownload])
    else none
  | _ => (c.nest.accept l).map fun (n, code) => (c.withNest n, code)

/-- A sentence inside a program concerns the nest alone. -/
theorem heed_of_not_isFrame (c : Compiler) {l : Line} (inside : l.sentence.isFrame = false) :
    c.heed l = (c.nest.accept l).map fun (n, code) => (c.withNest n, code) := by
  obtain ⟨indent, s⟩ := l
  cases s
  case begin | finish => cases inside
  all_goals rfl

end Compiler

/-- The keyword that a source line starts with, if it starts with one. -/
def Keyword.ofText? (text : String) : Option Keyword :=
  Keyword.ofLine? ((Bytes.ofChars (trimEnd text.toList)).dropWhile (· == Byte.space))

/-- A keyword starts with a letter. -/
theorem Keyword.exists_cons_of_ofLine? {line : Bytes} {k : Keyword}
    (named : ofLine? line = some k) : ∃ b tail, line = b :: tail ∧ Byte.isLetter b = true := by
  have spelled : k.word = Bytes.upper (line.takeWhile (· != Byte.space)) := by
    simpa using List.find?_some named
  obtain ⟨c, tail, word, capital⟩ : ∃ c tail, k.word = c :: tail ∧ Byte.isUpper c = true := by
    cases k <;> exact ⟨_, _, rfl, by decide⟩
  rw [word] at spelled
  cases line with
  | nil => cases spelled
  | cons b line =>
    refine ⟨b, line, rfl, ?_⟩
    rw [List.takeWhile_cons] at spelled
    split at spelled
    · rw [Bytes.upper, List.map_cons, List.cons.injEq] at spelled
      rw [spelled.1, Byte.upper] at capital
      split at capital
      · next small => simp [Byte.isLetter, small]
      · simp [Byte.isLetter, capital]
    · cases spelled

/-- What starts with a mark has no keyword. -/
theorem Keyword.ofLine?_eq_none_of_mark {line : Bytes} {mark : UInt8}
    (marked : line.head? = some mark) (noLetter : Byte.isLetter mark = false) :
    ofLine? line = none := by
  cases named : ofLine? line with
  | none => rfl
  | some k =>
    obtain ⟨b, tail, rfl, letter⟩ := exists_cons_of_ofLine? named
    cases marked
    simp [letter] at noLetter

/-- The work on a line after it was read and heeded. -/
def Draft.concluded (d : Draft) (p : Passage) (c : Compiler) (code : List Instruction) : Draft :=
  { rest := p.rest, scope := p.scope, compiler := c, emitted := d.emitted ++ code }

namespace Compile

variable {α β : Type}

theorem parsing_keyword : parsing Parse.keyword = keyword := by
  funext d
  simp only [parsing, Attempt.on, Parse.keyword, keyword, Attempt.bind_apply, Attempt.get_apply,
    Draft.passage]
  cases Keyword.ofLine? d.rest <;> rfl

theorem success?_scanning (x : Scan α) (d : Draft) :
    Attempt.success? (scanning x d) =
      (Attempt.success? (x d.rest)).map fun (a, rest) => (a, { d with rest }) :=
  Attempt.success?_on _ _ _ _

theorem success?_endOfLine (d : Draft) :
    Attempt.success? (endOfLine d) = if d.rest.isEmpty then some ((), d) else none := by
  simp only [endOfLine, Attempt.success?_bind, Attempt.get_apply, Attempt.success?_ok,
    Option.bind_some]
  split <;> rfl

/-- A program begins where nothing follows the word for it. -/
theorem success?_beginProgram (d : Draft) :
    Attempt.success? (beginProgram d) = if d.rest.isEmpty then
        some ((), d.concluded d.passage d.compiler.begun
          ((if d.compiler.compiling then [.abortDownload] else []) ++ [.beginDownload]))
      else none := by
  simp only [beginProgram, Attempt.success?_bind, success?_endOfLine]
  by_cases ended : d.rest.isEmpty = true
  · by_cases inProgram : d.compiler.compiling = true
    · simp [ended, inProgram, Attempt.success?_bind, success?_compiler, emit, emitAll, update,
        Draft.concluded, Draft.passage, Compiler.begun]
    · simp [ended, inProgram, Attempt.success?_bind, success?_compiler, emit, emitAll, update,
        Draft.concluded, Draft.passage, Compiler.begun]
  · simp [ended]

/-- The last checks of a program without a faulty line are those of its nest. -/
theorem success?_lastChecks (indent : Nat) {d : Draft} (inProgram : d.compiler.compiling = true) :
    Attempt.success? (lastChecks indent d) =
      if d.rest.isEmpty && !d.compiler.programError then
        (d.compiler.nest.finish indent).map fun (n, code) => ((), d.after d.passage n code)
      else none := by
  simp only [lastChecks, Attempt.success?_bind, success?_align indent inProgram,
    success?_closeBlock, success?_endOfLine, success?_compiler, Nest.finish, Option.bind_map]
  cases d.compiler.nest.align indent with
  | none => simp
  | some result =>
    obtain ⟨n, matched, code⟩ := result
    simp only [Option.bind_some, Function.comp_def, Draft.passage_after, Draft.nest_after,
      Draft.after_after]
    have rest (m : Nest) (more : List Instruction) : (d.after d.passage m more).rest = d.rest := rfl
    by_cases ended : d.rest.isEmpty = true
    · simp only [rest, ended, if_true, Option.bind_some, Bool.true_and]
      have depth (more : List Instruction) :
          (d.after d.passage n more).compiler.depth ≠ 0 ↔ n.blocks ≠ [] := by
        simp [Compiler.depth, Stack.depth, Draft.after, Compiler.withNest]
      have error (more : List Instruction) :
          (d.after d.passage n more).compiler.programError = d.compiler.programError := rfl
      simp only [depth, error]
      by_cases closed : n.blocks = [] <;> cases d.compiler.programError <;> simp [closed]
    · simp [rest, ended]

theorem success?_endProgram (indent : Nat) {d : Draft} (inProgram : d.compiler.compiling = true) :
    Attempt.success? (endProgram indent d) = if d.rest.isEmpty then
      (d.compiler.heed { indent, sentence := .finish }).map fun (c, code) =>
        ((), d.concluded d.passage c code) else none := by
  have last : Attempt.success? (endProgram indent d) =
      (Attempt.success? (lastChecks indent d)).map fun (_, d) =>
        ((), { d with compiler := d.compiler.leave, emitted := d.emitted ++ [.endDownload] }) := by
    simp only [endProgram, inProgram, Bool.not_true, Bool.false_eq_true, if_false]
    cases lastChecks indent d <;> rfl
  rw [last, success?_lastChecks indent inProgram]
  by_cases ended : d.rest.isEmpty = true
  · cases error : d.compiler.programError
    · simp [Compiler.heed, inProgram, ended, error, Function.comp_def, Draft.after,
        Draft.concluded]
    · simp [Compiler.heed, inProgram, ended, error]
  · simp [ended]

theorem concluded_withNest (d : Draft) (p : Passage) (n : Nest) (code : List Instruction) :
    d.concluded p (d.compiler.withNest n) code = d.after p n code := rfl

/-- In a program, a raw statement is read and then heeded. -/
theorem success?_raw (indent : Nat) {d : Draft} (inProgram : d.compiler.compiling = true) :
    Attempt.success? (raw indent d) =
      (Attempt.success? (Parse.raw d.passage)).bind fun (s, p) =>
        (d.compiler.heed { indent, sentence := s }).map fun (c, code) =>
          ((), d.concluded p c code) := by
  have rest (n : Nest) (code : List Instruction) :
      (d.after d.passage n code).rest = d.rest := rfl
  have passage : d.passage.rest = d.rest := rfl
  simp only [raw, Parse.raw, Attempt.success?_bind, success?_align indent inProgram,
    success?_closeBlock, Attempt.get_apply, Attempt.success?_ok, Option.bind_some, Option.bind_map]
  by_cases nothing : d.rest = []
  · simp [Function.comp_def, rest, passage, nothing]
  · cases aligned : d.compiler.nest.align indent with
    | none => simp [passage, nothing, Compiler.heed, Nest.accept, aligned]
    | some result =>
      obtain ⟨n, matched, code⟩ := result
      by_cases remote : d.rest.head?.any (Byte.spells 'R') = true
      · simp [rest, passage, nothing, Compiler.heed, Nest.accept, aligned, Nest.obey,
          Action.isRemote, remote, inProgram, Attempt.success?_bind, success?_compiler]
      · simp [rest, passage, nothing, Compiler.heed, Nest.accept, aligned, Nest.obey,
          Action.isRemote, remote, Attempt.success?_bind, success?_compiler, emit,
          success?_emitAll, concluded_withNest, Action.code]

/-- The keyword decides what is done with the rest of the line. -/
theorem success?_command_of_keyword (indent : Nat) {d : Draft} {k : Option Keyword} {p : Passage}
    (named : Parse.keyword d.passage = .ok k p) :
    Attempt.success? (command indent d) = Attempt.success? ((match k with
      | some .begin => beginProgram
      | some .finish => endProgram indent
      | k => do
        let matched ← align indent
        statement k matched indent
        let _ ← scanning Scan.skipSpaces
        endOfLine) (d.withPassage p)) := by
  rw [command, ← parsing_keyword, success?_parsing_bind, named]
  rfl

theorem success?_skipSpaces_endOfLine (d : Draft) :
    Attempt.success? ((do let _ ← scanning Scan.skipSpaces; endOfLine : Compile Unit) d) =
      if (d.rest.dropWhile (· == Byte.space)).isEmpty then
        some ((), { d with rest := d.rest.dropWhile (· == Byte.space) })
      else none := by
  simp only [Attempt.success?_bind, success?_scanning, Scan.skipSpaces_apply, Attempt.success?_ok,
    Option.map_some, Option.bind_some, success?_endOfLine]

/-- A sentence inside a program is heeded at its indentation, by the nest alone. -/
theorem map_heed_of_not_isFrame (d : Draft) (p : Passage) {indent : Nat} {s : Sentence}
    (inside : s.isFrame = false) :
    ((d.compiler.heed { indent, sentence := s }).map fun (c, code) =>
        ((), d.concluded p c code)) =
      (d.compiler.nest.align indent).bind fun aligned =>
        (aligned.1.obey aligned.2.1 indent s).map fun (m, more) =>
          ((), d.after p m (aligned.2.2 ++ more)) := by
  rw [Compiler.heed_of_not_isFrame d.compiler inside]
  simp [Nest.accept, Option.map_bind, Function.comp_def, concluded_withNest]

/-- In a program, a sentence inside it is read and then heeded. -/
theorem success?_inside (indent : Nat) {d : Draft} (inProgram : d.compiler.compiling = true)
    {k : Option Keyword} (noBegin : k ≠ some .begin) (noFinish : k ≠ some .finish) :
    Attempt.success? ((do
        let matched ← align indent
        statement k matched indent
        let _ ← scanning Scan.skipSpaces
        endOfLine : Compile Unit) d) =
      (Attempt.success? (Parse.sentence k d.passage)).bind fun (s, p) =>
        if (p.rest.dropWhile (· == Byte.space)).isEmpty then
          (d.compiler.heed { indent, sentence := s }).map fun (c, code) =>
            ((), d.concluded { p with rest := p.rest.dropWhile (· == Byte.space) } c code)
        else none := by
  have obeyed (n : Nest) (matched : Option Block) (code : List Instruction) :=
    success?_statement (d := d.after d.passage n code) inProgram k matched indent
  have last (q : Passage) (m : Nest) (code : List Instruction) :
      Attempt.success? ((do let _ ← scanning Scan.skipSpaces; endOfLine : Compile Unit)
        (d.after q m code)) = if (q.rest.dropWhile (· == Byte.space)).isEmpty then
          some ((), d.after { q with rest := q.rest.dropWhile (· == Byte.space) } m code)
        else none := success?_skipSpaces_endOfLine _
  simp only [Attempt.success?_bind (align indent), success?_align indent inProgram,
    Attempt.success?_bind (statement _ _ _), obeyed, Option.bind_map, Function.comp_def,
    Draft.passage_after, Draft.nest_after, Draft.after_after]
  cases said : Attempt.success? (Parse.sentence k d.passage) with
  | none => simp
  | some result =>
    obtain ⟨s, q⟩ := result
    have inside : s.isFrame = false := by
      have words := Parse.keyword_of_frame said
      exact Sentence.isFrame_eq_false_iff.mpr
        ⟨fun same => noBegin (words.1.mp same), fun same => noFinish (words.2.mp same)⟩
    simp only [Option.bind_some, Option.bind_map, Function.comp_def, last]
    split
    · rw [map_heed_of_not_isFrame d _ inside]
      simp only [Option.map_eq_bind, Function.comp_def]
    · simp

/-- A sentence is read and then heeded, in a program or as the first line of one. -/
theorem success?_command (indent : Nat) {d : Draft}
    (heard : d.compiler.compiling = true ∨ Keyword.ofLine? d.rest = some .begin) :
    Attempt.success? (command indent d) =
      (Attempt.success? (Parse.command d.passage)).bind fun (s, p) =>
        (d.compiler.heed { indent, sentence := s }).map fun (c, code) =>
          ((), d.concluded p c code) := by
  obtain ⟨p, named, skipped⟩ := Parse.exists_keyword_eq d.passage
  rw [success?_command_of_keyword indent named, Parse.success?_command named]
  rw [show d.passage.rest = d.rest from rfl] at skipped ⊢
  generalize Keyword.ofLine? d.rest = k at heard skipped
  have rest : (d.withPassage p).rest = p.rest := rfl
  by_cases isBegin : k = some .begin
  · subst isBegin
    simp only [Parse.sentence, Attempt.pure_apply, Attempt.success?_ok, Option.bind_some,
      skipped (by simp), success?_beginProgram, rest]
    split <;> rfl
  have inProgram : (d.withPassage p).compiler.compiling = true := heard.resolve_right isBegin
  by_cases isFinish : k = some .finish
  · subst isFinish
    simp only [Parse.sentence, Attempt.pure_apply, Attempt.success?_ok, Option.bind_some,
      skipped (by simp), success?_endProgram indent inProgram, rest]
    split <;> rfl
  have heeded := success?_inside indent inProgram isBegin isFinish
  rw [Option.bind_assoc]
  refine Eq.trans ?_ (heeded.trans (Option.bind_congr ?_))
  · cases k with
    | none => rfl
    | some k => cases k <;> first | rfl | contradiction
  · rintro ⟨s, q⟩ -
    dsimp only
    split <;> rfl

/-- A line is read and then heeded, in a program or as the first line of one. -/
theorem success?_line {d : Draft} (heard : d.compiler.compiling = true ∨
      Keyword.ofLine? (d.rest.dropWhile (· == Byte.space)) = some .begin) :
    Attempt.success? (line d) =
      (Attempt.success? (Parse.line d.passage)).bind fun (l, p) =>
        match l with
        | none => some ((), d.withPassage p)
        | some l => (d.compiler.heed l).map fun (c, code) => ((), d.concluded p c code) := by
  rw [line_apply, Parse.success?_line, show d.passage.rest = d.rest from rfl]
  dsimp only
  split
  · rfl
  split
  · rfl
  -- Both kinds of lines that are left say something, which is heeded at the line's indentation.
  rw [Parse.success?_rawOrCommand, Option.bind_map]
  dsimp only
  split
  · next star =>
    -- A line that starts with a star begins no program, so it stands in one.
    have inProgram : d.compiler.compiling = true := by
      refine heard.resolve_right fun named => ?_
      cases named.symm.trans (Keyword.ofLine?_eq_none_of_mark star (by decide))
    exact success?_raw _ (d := { d with rest := (d.rest.dropWhile (· == Byte.space)).tail }) inProgram
  · exact success?_command _ (d := { d with rest := d.rest.dropWhile (· == Byte.space) }) heard

/-- A line that says nothing does nothing. -/
theorem success?_line_of_blank {d : Draft} {p : Passage}
    (read : Attempt.success? (Parse.line d.passage) = some (none, p)) :
    Attempt.success? (line d) = some ((), d.withPassage p) := by
  rw [Parse.success?_line, show d.passage.rest = d.rest from rfl] at read
  rw [line_apply]
  dsimp only at read ⊢
  split at read
  · next silent =>
    rw [if_pos silent]
    cases read
    rfl
  · split at read
    · cases read
    · simp at read

end Compile

/-- The keyword of a line is that of what stands behind its indentation. -/
theorem Keyword.ofText?_eq (text : String) : ofText? text = ofLine? (Line.body text) := rfl

/-- The words that frame a program are its keywords. -/
theorem Line.ofText?_of_read? {limit : Nat} {scope : Scope} {text : String} {l : Line}
    {vars : Variables} (read : Line.read? limit scope text = some (some l, vars)) :
    (l.sentence = .begin ↔ Keyword.ofText? text = some .begin) ∧
      (l.sentence = .finish ↔ Keyword.ofText? text = some .finish) := by
  obtain ⟨-, q, said, -⟩ := exists_said read
  rw [Keyword.ofText?_eq]
  rcases Parse.exists_of_rawOrCommand said with ⟨statement, -, marked, same, -⟩ | ⟨-, said⟩
  · have unnamed : Keyword.ofLine? (body text) = none :=
      Keyword.ofLine?_eq_none_of_mark (congrArg List.head? marked) (by decide)
    simp [same, unnamed]
  · obtain ⟨_, _, -, said, -⟩ := Parse.exists_of_command said
    exact Parse.keyword_of_frame said

/-- A line with a keyword is none with a raw statement. -/
theorem Line.rawStatement?_of_ofText? {text : String} {k : Keyword}
    (named : Keyword.ofText? text = some k) : rawStatement? text = none := by
  refine Option.eq_none_iff_forall_ne_some.mpr fun statement raw => ?_
  have marked := rawStatement?_eq_some_iff.mp raw
  rw [Keyword.ofText?_eq, marked] at named
  cases named.symm.trans (Keyword.ofLine?_eq_none_of_mark rfl (by decide))

/-- What says nothing has no keyword. -/
theorem Line.ofText?_of_blank {limit : Nat} {scope : Scope} {text : String} {vars : Variables}
    (read : Line.read? limit scope text = some (none, vars)) : Keyword.ofText? text = none := by
  rw [Keyword.ofText?_eq]
  rcases (blank_of_read? read).1 with blank | comment
  · rw [blank]
    rfl
  · exact Keyword.ofLine?_eq_none_of_mark comment (by decide)

end ControlScript
