import ControlScript.Compiler.Line
import ControlScript.Proofs.Instructions
import Mathlib.Data.List.DropRight

/-!
# What a source line says

A source line has an indentation and, unless it is blank or a comment, says one sentence. What
it says depends on the variables and readings that names refer to, and on nothing that was
opened or closed before it. An assignment to a new variable makes the variable for the lines
after it.

## Main definitions

* `Action` — a statement without bearing on blocks, and `Action.code` for its instructions
* `Sentence`, `Line` — what a line says, and its indentation
* `Parse.sentence` — reading a sentence; `Parse.Reads` for what is read of it
* `Line.read?` — reading a whole line; `none` for one that is not well formed on its own
* `Sentence.Proper` — what was read can be read again from its statements

## Main results

* `Parse.exists_of_rawOrCommand`, `Parse.exists_of_command` — what is read behind an indentation
* `Line.exists_said`, `Line.blank_of_read?` — lines that say something, and lines that do not
* `Line.read?_proper` — what is read from a line is proper
-/

namespace ControlScript

/-- What a print statement writes. -/
inductive Printed where
  | text (content : Bytes)
  | value (e : Expression)
deriving DecidableEq, Repr

/-- The instruction that writes it. -/
def Printed.instruction : Printed → Instruction
  | .text content => .writeText content
  | .value e => .writeValue e

/-- A statement without bearing on blocks and loops. -/
inductive Action where
  | assign (name : Bytes) (value : Expression)
  | print (what : Printed)
  | println (what : Option Printed)
  | clear
  | delay (tenths : Expression)
  | wait (seconds : Operand)
  /-- A statement of the machine, given as it is. -/
  | raw (statement : Bytes)
deriving DecidableEq, Repr

namespace Action

/-- The number of tenths in a second, as it is written. -/
def ten : Operand := .literal { digits := Bytes.ofString "10" }

/-- The instructions for an action. -/
def code : Action → List Instruction
  | assign name value => [.setVariable name value]
  | print what => [what.instruction]
  | println none => [.writeLine]
  | println (some what) => [what.instruction, .writeLine]
  | clear => [.clearVariables]
  | delay tenths => [.delay tenths]
  | wait seconds => [.delay (.binary seconds .multiply ten)]
  | raw statement => [.raw statement]

/-- Whether the download of a program would take the action as meant for itself. -/
def isRemote : Action → Bool
  | raw statement => statement.head?.any (Byte.spells 'R')
  | _ => false

end Action

/-- What a source line says. -/
inductive Sentence where
  | action (a : Action)
  | breakLoop
  | continueLoop
  | ifThen (holds : Condition)
  | elseThen
  | endif
  | whileLoop (holds : Condition)
  | endwhile
  /-- Opens a loop, or closes one that `do` has opened. -/
  | forever
  | doLoop
  | untilTrue (holds : Condition)
  /-- Run or stop the stored program. -/
  | immediate
  | begin
  | finish
deriving DecidableEq, Repr

/-- Whether a sentence frames a program. -/
def Sentence.isFrame : Sentence → Bool
  | .begin | .finish => true
  | _ => false

/-- Whether a sentence consists of its keyword. -/
def Sentence.isBare : Sentence → Bool
  | .action .clear | .action (.println none) | .breakLoop | .continueLoop | .elseThen | .endif
  | .endwhile | .forever | .doLoop | .immediate | .begin | .finish => true
  | _ => false

/-- The keywords that a sentence may be said with. An assignment needs none. -/
def Sentence.keywords : Sentence → List (Option Keyword)
  | .action (.assign _ _) => [none, some .set]
  | .action (.print _) => [some .print]
  | .action (.println _) => [some .println]
  | .action .clear => [some .clear]
  | .action (.delay _) => [some .delay]
  | .action (.wait _) => [some .wait]
  | .action (.raw _) => []
  | .breakLoop => [some .breakLoop]
  | .continueLoop => [some .continueLoop]
  | .ifThen _ => [some .ifThen]
  | .elseThen => [some .elseThen]
  | .endif => [some .endif]
  | .whileLoop _ => [some .whileLoop]
  | .endwhile => [some .endwhile]
  | .forever => [some .forever]
  | .doLoop => [some .doLoop]
  | .untilTrue _ => [some .untilTrue]
  | .immediate => [some .run, some .stop]
  | .begin => [some .begin]
  | .finish => [some .finish]

theorem Sentence.isFrame_eq_false_iff {s : Sentence} :
    s.isFrame = false ↔ s ≠ .begin ∧ s ≠ .finish := by
  cases s <;> simp [isFrame]

/-- A source line that says something. -/
structure Line where
  indent : Nat
  sentence : Sentence
deriving DecidableEq, Repr

/-- The rest of a line and what names in it refer to. -/
structure Passage where
  rest : Bytes
  scope : Scope
deriving DecidableEq, Repr

/-- Reading what a line says. -/
abbrev Parse := Attempt Passage

namespace Parse

variable {α : Type}

/-- A scan of the rest of the line. -/
def scanning (x : Scan α) : Parse α := x.on Passage.rest fun p rest => { p with rest }

/-- A computation on the variables. -/
def onVariables (x : Attempt Variables α) : Parse α :=
  x.on (·.scope.vars) fun p vars => { p with scope := { p.scope with vars } }

/-- Reads an operand. -/
def operand : Parse Operand := do
  let p ← get
  scanning (Operand.scan p.scope)

/-- Reads an expression. -/
def expression : Parse Expression := do
  let p ← get
  scanning (Expression.scan p.scope)

/-- Reads a condition. -/
def condition : Parse Condition := do
  let p ← get
  scanning (Condition.scan p.scope)

/-- Reads an assignment. A new variable may stand on the right of its own assignment. -/
def assignment : Parse (Bytes × Expression) := do
  let name ← scanning Scan.name
  let _ ← scanning Scan.skipSpaces
  if ← scanning (Scan.eat Byte.equals) then
    let _ ← onVariables (Variables.findOrCreate name)
    let value ← expression
    return (name, value)
  else Attempt.failNoting .missingOperator "EXPECTED ="

/-- Reads a quoted text. -/
def quotedText : Parse Printed := do
  scanning (Scan.skip 1)
  let text ← scanning (Scan.takeWhile (· != Byte.quote))
  if ← scanning (Scan.eat Byte.quote) then return .text text
  else Attempt.fail .missingQuote

/-- Reads what a print statement writes. -/
def printed : Parse Printed := do
  match ← scanning Scan.peek with
  | none => Attempt.fail .invalidOperand
  | some b =>
    if b = Byte.quote then quotedText
    else
      let e ← expression
      return .value e

/-- Reads what a print statement writes, if it writes anything. -/
def printed? : Parse (Option Printed) := do
  match ← scanning Scan.peek with
  | none => return none
  | some _ =>
    let what ← printed
    return some what

/-- Reads a sentence after its keyword, if it has one. -/
def sentence : Option Keyword → Parse Sentence
  | some .breakLoop => return .breakLoop
  | some .continueLoop => return .continueLoop
  | some .ifThen => do return .ifThen (← condition)
  | some .elseThen => return .elseThen
  | some .endif => return .endif
  | some .whileLoop => do return .whileLoop (← condition)
  | some .endwhile => return .endwhile
  | some .forever => return .forever
  | some .doLoop => return .doLoop
  | some .untilTrue => do return .untilTrue (← condition)
  | some .run | some .stop => return .immediate
  | some .begin => return .begin
  | some .finish => return .finish
  | some .delay => do return .action (.delay (← expression))
  | some .wait => do return .action (.wait (← operand))
  | some .print => do return .action (.print (← printed))
  | some .println => do return .action (.println (← printed?))
  | some .clear => return .action .clear
  | some .set | none => do
    let target ← assignment
    return .action (.assign target.1 target.2)

/-- Reads the keyword of a line, if it has one, and the spaces after it. -/
def keyword : Parse (Option Keyword) := do
  match Keyword.ofLine? (← get).rest with
  | none => return none
  | some k =>
    scanning (Scan.skip k.word.length)
    let _ ← scanning Scan.skipSpaces
    return some k

/-- Reads a sentence up to the end of its line. -/
def command : Parse Sentence := do
  let k ← keyword
  let s ← sentence k
  let _ ← scanning Scan.skipSpaces
  if (← get).rest.isEmpty then return s
  else Attempt.fail .extraText

/-- Reads the text after the mark of a raw statement. -/
def raw : Parse Sentence := do
  let text := (← get).rest
  if text.isEmpty then Attempt.failNoting .syntaxError "EMPTY DIRECT STATEMENT"
  else return .action (.raw text)

/-- Reads a raw statement after its mark, or a sentence. -/
def rawOrCommand : Parse Sentence := do
  if ← scanning (Scan.eat Byte.star) then raw
  else command

/-- Reads a line without the white space at its end. -/
def line : Parse (Option Line) := do
  let indent ← scanning Scan.skipSpaces
  let text := (← get).rest
  if text.isEmpty || text.head? == some Byte.hash then return none
  else if text.any Byte.isControl then Attempt.failNoting .syntaxError "CONTROL CHARACTER"
  else
    let sentence ← rawOrCommand
    return some { indent, sentence }

end Parse

/-- Reads a source line that is not too long: what it says, unless it is blank or a comment,
and the variables after it. -/
def Line.read? (limit : Nat) (scope : Scope) (text : String) :
    Option (Option Line × Variables) :=
  if limit < (Bytes.ofString text).length then none
  else
    (Attempt.success? (Parse.line { rest := Bytes.ofChars (trimEnd text.toList), scope })).map
      fun (line, passage) => (line, passage.scope.vars)

/-- The statements for the action can be read again. -/
def Action.Proper (a : Action) : Prop := ∀ i ∈ a.code, i.Proper

/-- What was read can be read again from the statements for it. -/
def Sentence.Proper : Sentence → Prop
  | .action a => a.Proper
  | .ifThen holds | .whileLoop holds | .untilTrue holds => holds.Proper
  | _ => True

/-- What is read to the left of an assignment is a name. -/
theorem Scan.isName_of_name {text name rest : Bytes} (read : Scan.name text = .ok name rest) :
    name.IsName := by
  rw [name_apply] at read
  split at read
  · next start =>
    cases read
    have inside : ∀ b ∈ text.takeWhile Byte.isNameChar, Byte.isNameChar b = true :=
      fun b member => List.all_eq_true.mp List.all_takeWhile b member
    cases word : text.takeWhile Byte.isNameChar with
    | nil => simp [word] at start
    | cons b tail =>
      rw [word] at start inside
      exact Bytes.isName_cons_iff.mpr
        ⟨by simpa using start, fun t member => inside t (List.mem_cons_of_mem b member)⟩
  · cases read

namespace Parse

variable {α : Type}

theorem success?_scanning (x : Scan α) (p : Passage) :
    Attempt.success? (scanning x p) =
      (Attempt.success? (x p.rest)).map fun (a, rest) => (a, { p with rest }) :=
  Attempt.success?_on _ _ _ _

/-- The keyword at the start of what is left, with the spaces after it. -/
theorem keyword_apply (p : Passage) :
    keyword p = match Keyword.ofLine? p.rest with
      | none => .ok none p
      | some k => .ok (some k)
          { p with rest := (p.rest.drop k.word.length).dropWhile (· == Byte.space) } := by
  simp only [keyword, Attempt.bind_apply, Attempt.get_apply]
  cases Keyword.ofLine? p.rest <;> rfl

/-- A keyword is read with all the spaces behind it. -/
theorem exists_keyword_eq (p : Passage) : ∃ p', keyword p = .ok (Keyword.ofLine? p.rest) p' ∧
    (Keyword.ofLine? p.rest ≠ none → p'.rest.dropWhile (· == Byte.space) = p'.rest) := by
  rw [keyword_apply]
  cases Keyword.ofLine? p.rest with
  | none => exact ⟨p, rfl, fun named => absurd rfl named⟩
  | some k => exact ⟨_, rfl, fun _ => List.dropWhile_idempotent _ _⟩

/-- A command is a sentence behind its keyword, with nothing but spaces after it. -/
theorem success?_command {p p' : Passage} {k : Option Keyword} (named : keyword p = .ok k p') :
    Attempt.success? (command p) = (Attempt.success? (sentence k p')).bind fun (s, r) =>
      if (r.rest.dropWhile (· == Byte.space)).isEmpty then
        some (s, { r with rest := r.rest.dropWhile (· == Byte.space) })
      else none := by
  rw [command, Attempt.success?_bind, named]
  simp only [Attempt.success?_ok, Option.bind_some, Attempt.success?_bind, success?_scanning,
    Scan.skipSpaces_apply, Option.map_some, Attempt.get_apply]
  refine Option.bind_congr ?_
  rintro ⟨s, r⟩ -
  split <;> rfl

/-- Reading a keyword leaves an end of the line, and the variables as they are. -/
theorem exists_suffix_of_keyword {p q : Passage} {k : Option Keyword}
    (read : Attempt.success? (keyword p) = some (k, q)) :
    ∃ rest, rest <:+ p.rest ∧ q = { p with rest } := by
  rw [keyword_apply] at read
  split at read
  · cases read
    exact ⟨p.rest, List.suffix_rfl, rfl⟩
  · cases read
    exact ⟨_, (List.dropWhile_suffix _).trans (List.drop_suffix _ _), rfl⟩

variable {p q : Passage}

/-- What names refer in is scanned from the rest of the line. -/
theorem exists_of_scoped {x : Scope → Scan α} {a : α}
    (read : Attempt.success? ((get >>= fun p : Passage => scanning (x p.scope)) p) = some (a, q)) :
    ∃ rest, x p.scope p.rest = .ok a rest ∧ q = { p with rest } := by
  rw [Attempt.bind_apply, Attempt.get_apply] at read
  simp only [success?_scanning, Option.map_eq_some_iff, Prod.exists] at read
  obtain ⟨_, rest, scanned, same⟩ := read
  cases same
  exact ⟨rest, Attempt.success?_eq_some_iff.mp scanned, rfl⟩

/-- What is printed is a text from the line or an expression. -/
theorem exists_of_printed {what : Printed}
    (read : Attempt.success? (printed p) = some (what, q)) :
    (∃ content, what = .text content ∧ content ⊆ p.rest ∧ q.scope = p.scope) ∨
      ∃ e, what = .value e ∧ Attempt.success? (expression p) = some (e, q) := by
  simp only [printed, Attempt.success?_bind, success?_scanning, Scan.peek, Attempt.success?_ok,
    Option.map_some, Option.bind_some] at read
  cases first : p.rest.head? with
  | none => simp [first] at read
  | some b =>
    simp only [first] at read
    split at read
    · simp only [quotedText, Attempt.success?_bind, success?_scanning, Scan.skip, Scan.takeWhile,
        Attempt.success?_ok, Option.map_some, Option.bind_some, Option.bind_eq_some_iff,
        Prod.exists, Option.map_eq_some_iff] at read
      obtain ⟨isClosed, _, ⟨_, _, -, same⟩, last⟩ := read
      cases same
      cases isClosed with
      | false => cases last
      | true =>
        cases last
        exact .inl ⟨_, rfl, fun b member =>
          List.mem_of_mem_drop ((List.takeWhile_prefix _).subset member), rfl⟩
    · simp only [Attempt.success?_bind, Option.bind_eq_some_iff, Prod.exists] at read
      obtain ⟨e, _, valued, last⟩ := read
      cases last
      exact .inr ⟨e, rfl, valued⟩

/-- An assignment makes its variable, and then its value is read. -/
theorem exists_of_assignment {name : Bytes} {value : Expression}
    (read : Attempt.success? (assignment p) = some ((name, value), q)) :
    name.IsName ∧ ∃ rest place vars, Variables.findOrCreate name p.scope.vars = .ok place vars ∧
      Attempt.success? (expression { rest, scope := { p.scope with vars } }) = some (value, q) := by
  simp only [assignment, Attempt.success?_bind, success?_scanning, Option.bind_eq_some_iff,
    Option.map_eq_some_iff, Prod.exists] at read
  obtain ⟨_, _, ⟨_, _, scanned, same⟩, _, _, ⟨_, _, -, same'⟩, isAssignment, _, ⟨_, _, -, same''⟩,
    last⟩ := read
  cases same
  cases same'
  cases same''
  cases isAssignment with
  | false => cases last
  | true =>
    simp only [if_true, Attempt.success?_bind, Option.bind_eq_some_iff, Prod.exists, onVariables,
      Attempt.success?_on, Option.map_eq_some_iff] at last
    obtain ⟨_, _, _, ⟨_, _, vars, made, same⟩, _, _, valued, last⟩ := last
    cases same
    cases last
    exact ⟨Scan.isName_of_name (Attempt.success?_eq_some_iff.mp scanned), _, _, vars,
      Attempt.success?_eq_some_iff.mp made, valued⟩

/-- What is read of a sentence behind its keyword. -/
inductive Reads (p : Passage) : Sentence → Passage → Prop
  | ifThen {c : Condition} {q : Passage} (read : Attempt.success? (condition p) = some (c, q)) :
    Reads p (.ifThen c) q
  | whileLoop {c : Condition} {q : Passage} (read : Attempt.success? (condition p) = some (c, q)) :
    Reads p (.whileLoop c) q
  | untilTrue {c : Condition} {q : Passage} (read : Attempt.success? (condition p) = some (c, q)) :
    Reads p (.untilTrue c) q
  | delay {e : Expression} {q : Passage} (read : Attempt.success? (expression p) = some (e, q)) :
    Reads p (.action (.delay e)) q
  | wait {o : Operand} {q : Passage} (read : Attempt.success? (operand p) = some (o, q)) :
    Reads p (.action (.wait o)) q
  | print {what : Printed} {q : Passage} (read : Attempt.success? (printed p) = some (what, q)) :
    Reads p (.action (.print what)) q
  | println {what : Printed} {q : Passage} (read : Attempt.success? (printed p) = some (what, q)) :
    Reads p (.action (.println (some what))) q
  | assign {name : Bytes} {value : Expression} {q : Passage}
    (read : Attempt.success? (assignment p) = some ((name, value), q)) :
    Reads p (.action (.assign name value)) q
  /-- The keyword is all. -/
  | bare {s : Sentence} (bare : s.isBare = true) : Reads p s p

theorem reads_of_sentence {k : Option Keyword} {s : Sentence}
    (read : Attempt.success? (sentence k p) = some (s, q)) : Reads p s q := by
  have assigned (read : Attempt.success? (sentence none p) = some (s, q)) : Reads p s q := by
    simp only [sentence, Attempt.success?_bind, Option.bind_eq_some_iff, Prod.exists] at read
    obtain ⟨name, value, _, made, last⟩ := read
    cases last
    exact .assign made
  cases k with
  | none => exact assigned read
  | some k =>
    cases k
    case set => exact assigned read
    case ifThen | whileLoop | untilTrue | delay | wait | print =>
      simp only [sentence, Attempt.success?_bind, Option.bind_eq_some_iff, Prod.exists] at read
      obtain ⟨a, _, scanned, last⟩ := read
      cases last
      constructor
      exact scanned
    case println =>
      simp only [sentence, Attempt.success?_bind, Option.bind_eq_some_iff, Prod.exists] at read
      obtain ⟨what?, _, scanned, last⟩ := read
      cases last
      simp only [printed?, Attempt.success?_bind, success?_scanning, Scan.peek,
        Attempt.success?_ok, Option.map_some, Option.bind_some] at scanned
      cases first : p.rest.head? with
      | none =>
        simp only [first] at scanned
        cases scanned
        exact .bare rfl
      | some b =>
        simp only [first, Attempt.success?_bind, Option.bind_eq_some_iff, Prod.exists] at scanned
        obtain ⟨what, _, printed, last⟩ := scanned
        cases last
        exact .println printed
    all_goals
      cases read
      exact .bare rfl

theorem operand_proper {o : Operand} (read : Attempt.success? (operand p) = some (o, q)) :
    o.Proper := by
  obtain ⟨_, scanned, -⟩ := exists_of_scoped read
  exact Operand.scan_proper scanned

theorem expression_proper {e : Expression}
    (read : Attempt.success? (expression p) = some (e, q)) : e.Proper := by
  obtain ⟨_, scanned, -⟩ := exists_of_scoped read
  exact Expression.scan_proper scanned

theorem condition_proper {c : Condition}
    (read : Attempt.success? (condition p) = some (c, q)) : c.Proper := by
  obtain ⟨_, scanned, -⟩ := exists_of_scoped read
  exact Condition.scan_proper scanned

/-- What is printed can be read again if there is no control byte in the line. -/
theorem printed_proper {what : Printed} (plain : ∀ b ∈ p.rest, Byte.isControl b = false)
    (read : Attempt.success? (printed p) = some (what, q)) : what.instruction.Proper := by
  obtain ⟨content, rfl, inside, -⟩ | ⟨e, rfl, valued⟩ := exists_of_printed read
  · exact fun b member => plain b (inside member)
  · exact expression_proper valued

/-- There is nothing in a sentence that its keyword does not say. -/
theorem proper_of_isBare {s : Sentence} (bare : s.isBare = true) : s.Proper := by
  have one {i : Instruction} (proper : i.Proper) : ∀ j ∈ [i], j.Proper := by simpa using proper
  cases s with
  | action a =>
    cases a with
    | clear => exact one trivial
    | println what =>
      cases what with
      | none => exact one trivial
      | some what => cases bare
    | _ => cases bare
  | ifThen _ | whileLoop _ | untilTrue _ => cases bare
  | _ => trivial

theorem sentence_proper {k : Option Keyword} {s : Sentence}
    (plain : ∀ b ∈ p.rest, Byte.isControl b = false)
    (read : Attempt.success? (sentence k p) = some (s, q)) : s.Proper := by
  have one {i : Instruction} (proper : i.Proper) : ∀ j ∈ [i], j.Proper := by simpa using proper
  cases reads_of_sentence read with
  | ifThen read | whileLoop read | untilTrue read => exact condition_proper read
  | delay read => exact one (expression_proper read)
  | wait read => exact one ⟨operand_proper read, by decide, by decide +kernel⟩
  | print read => exact one (printed_proper plain read)
  | println read =>
    exact List.forall_mem_cons.mpr ⟨printed_proper plain read, one trivial⟩
  | assign read =>
    obtain ⟨named, _, _, _, -, valued⟩ := exists_of_assignment read
    exact one ⟨named, expression_proper valued⟩
  | bare bare => exact proper_of_isBare bare

/-- A sentence is said with one of its keywords. -/
theorem mem_keywords_of_sentence {k : Option Keyword} {s : Sentence}
    (read : Attempt.success? (sentence k p) = some (s, q)) : k ∈ s.keywords := by
  cases k with
  | none =>
    simp only [sentence, Attempt.success?_bind, Option.bind_eq_some_iff, Prod.exists] at read
    obtain ⟨_, _, _, -, last⟩ := read
    cases last
    exact List.mem_cons_self
  | some k =>
    cases k
    case ifThen | whileLoop | untilTrue | delay | wait | print | println =>
      simp only [sentence, Attempt.success?_bind, Option.bind_eq_some_iff,
        Prod.exists] at read
      obtain ⟨_, _, -, last⟩ := read
      cases last
      exact List.mem_cons_self
    case set =>
      simp only [sentence, Attempt.success?_bind, Option.bind_eq_some_iff,
        Prod.exists] at read
      obtain ⟨_, _, _, -, last⟩ := read
      cases last
      exact List.mem_cons_of_mem _ List.mem_cons_self
    all_goals
      cases read
      decide

/-- The keyword of a sentence that frames a program. -/
theorem keyword_of_frame {k : Option Keyword} {s : Sentence}
    (read : Attempt.success? (sentence k p) = some (s, q)) :
    (s = .begin ↔ k = some .begin) ∧ (s = .finish ↔ k = some .finish) := by
  have said := mem_keywords_of_sentence read
  cases s with
  | action a => cases a <;> grind [Sentence.keywords]
  | _ => grind [Sentence.keywords]

/-- A raw statement is not read as a sentence. -/
theorem ne_raw_of_sentence {k : Option Keyword} {statement : Bytes} :
    Attempt.success? (sentence k p) ≠ some (.action (.raw statement), q) := by
  intro read
  cases mem_keywords_of_sentence read

/-- A sentence is read behind the keyword at the start of what is left, if there is one. -/
theorem exists_of_command {s : Sentence} (read : Attempt.success? (command p) = some (s, q)) :
    ∃ p' r, keyword p = .ok (Keyword.ofLine? p.rest) p' ∧
      Attempt.success? (sentence (Keyword.ofLine? p.rest) p') = some (s, r) ∧
        q.scope = r.scope := by
  obtain ⟨p', named, -⟩ := exists_keyword_eq p
  simp only [success?_command named, Option.bind_eq_some_iff, Prod.exists] at read
  obtain ⟨t, r, said, last⟩ := read
  split at last
  · cases last
    exact ⟨p', r, named, said, rfl⟩
  · cases last

theorem success?_rawOrCommand (p : Passage) :
    Attempt.success? (rawOrCommand p) =
      if p.rest.head? = some Byte.star then Attempt.success? (raw { p with rest := p.rest.tail })
      else Attempt.success? (command p) := by
  simp only [rawOrCommand, Attempt.success?_bind, success?_scanning, Scan.eat]
  split <;> rfl

/-- What a line is taken for, by what stands behind its indentation. -/
theorem success?_line (p : Passage) :
    Attempt.success? (line p) =
      let indent := (p.rest.takeWhile (· == Byte.space)).length
      let q : Passage := { p with rest := p.rest.dropWhile (· == Byte.space) }
      if q.rest.isEmpty || q.rest.head? == some Byte.hash then some (none, q)
      else if q.rest.any Byte.isControl then none
      else (Attempt.success? (rawOrCommand q)).map fun (s, r) =>
        (some { indent, sentence := s }, r) := by
  simp only [line, Attempt.success?_bind, success?_scanning, Scan.skipSpaces_apply,
    Attempt.success?_ok, Option.map_some, Option.bind_some, Attempt.get_apply]
  split
  · rfl
  split
  · rfl
  · rw [Attempt.success?_bind, Option.map_eq_bind]
    rfl

/-- What is left says a raw statement behind the mark of one, or a sentence. -/
theorem exists_of_rawOrCommand {s : Sentence}
    (read : Attempt.success? (rawOrCommand p) = some (s, q)) :
    (∃ statement, statement ≠ [] ∧ p.rest = Byte.star :: statement ∧
      s = .action (.raw statement) ∧ q.scope = p.scope) ∨
    (p.rest.head? ≠ some Byte.star ∧ Attempt.success? (command p) = some (s, q)) := by
  rw [success?_rawOrCommand] at read
  split at read
  · next star =>
    obtain ⟨statement, text⟩ := List.head?_eq_some_iff.mp star
    simp only [Attempt.success?_ok, Option.bind_some, raw, Attempt.success?_bind,
      Attempt.get_apply, text, List.tail_cons] at read
    split at read
    · cases read
    · next nonempty =>
      cases read
      exact .inl ⟨statement, by simpa using nonempty, text, rfl, rfl⟩
  · next noStar => exact .inr ⟨noStar, read⟩

theorem rawOrCommand_proper {s : Sentence}
    (plain : ∀ b ∈ p.rest, Byte.isControl b = false)
    (read : Attempt.success? (rawOrCommand p) = some (s, q)) : s.Proper := by
  rcases exists_of_rawOrCommand read with ⟨statement, nonempty, text, rfl, -⟩ | ⟨-, said⟩
  · rw [text] at plain
    exact List.forall_mem_singleton.mpr
      ⟨nonempty, fun b inside => plain b (List.mem_cons_of_mem _ inside)⟩
  · obtain ⟨_, r, named, said, -⟩ := exists_of_command said
    obtain ⟨rest, suffix, rfl⟩ :=
      exists_suffix_of_keyword (Attempt.success?_eq_some_iff.mpr named)
    exact sentence_proper (fun b inside => plain b (suffix.subset inside)) said

end Parse

namespace Line

variable {limit : Nat} {scope : Scope} {text : String} {l : Line} {vars : Variables}

/-- A source line without its indentation and without the white space at its end. -/
def body (text : String) : Bytes :=
  (Bytes.ofChars (trimEnd text.toList)).dropWhile (· == Byte.space)

/-- A line that is read is not too long. -/
theorem length_le_of_read? {said : Option Line × Variables}
    (read : Line.read? limit scope text = some said) : (Bytes.ofString text).length ≤ limit := by
  unfold Line.read? at read
  split at read
  · cases read
  · next short => exact Nat.le_of_not_lt short

/-- A line that says something says it behind its indentation. -/
theorem exists_said (read : Line.read? limit scope text = some (some l, vars)) :
    (∀ b ∈ body text, Byte.isControl b = false) ∧
      ∃ q, Attempt.success? (Parse.rawOrCommand { rest := body text, scope }) =
        some (l.sentence, q) ∧ q.scope.vars = vars := by
  unfold Line.read? at read
  split at read
  · cases read
  simp only [Option.map_eq_some_iff, Prod.exists, Prod.mk.injEq] at read
  obtain ⟨_, q, parsed, rfl, rfl⟩ := read
  rw [Parse.success?_line] at parsed
  dsimp only at parsed
  split at parsed
  · cases parsed
  split at parsed
  · cases parsed
  next plain =>
    obtain ⟨⟨s, r⟩, said, last⟩ := Option.map_eq_some_iff.mp parsed
    cases last
    exact ⟨by simpa [body] using plain, r, said, rfl⟩

/-- A line that says nothing is blank or a comment. -/
theorem blank_of_read? (read : Line.read? limit scope text = some (none, vars)) :
    (body text = [] ∨ (body text).head? = some Byte.hash) ∧ vars = scope.vars := by
  unfold Line.read? at read
  split at read
  · cases read
  simp only [Option.map_eq_some_iff, Prod.exists, Prod.mk.injEq] at read
  obtain ⟨_, q, parsed, rfl, rfl⟩ := read
  rw [Parse.success?_line] at parsed
  dsimp only at parsed
  split at parsed
  · next silent =>
    cases parsed
    exact ⟨by simpa [body] using silent, rfl⟩
  · split at parsed
    · cases parsed
    · simp at parsed

/-- The raw statement that a source line gives, if it is marked as one. -/
def rawStatement? (text : String) : Option Bytes :=
  match (Bytes.ofChars (trimEnd text.toList)).dropWhile (· == Byte.space) with
  | [] => none
  | b :: statement => if b = Byte.star then some statement else none

theorem rawStatement?_eq_some_iff {statement : Bytes} :
    rawStatement? text = some statement ↔ body text = Byte.star :: statement := by
  unfold rawStatement?
  rw [← body]
  cases body text with
  | nil => simp
  | cons b rest => by_cases star : b = Byte.star <;> simp [star]

/-- A raw statement is what stands after its mark. -/
theorem rawStatement?_of_read? {indent : Nat} {statement : Bytes}
    (read : Line.read? limit scope text =
      some (some { indent, sentence := .action (.raw statement) }, vars)) :
    rawStatement? text = some statement := by
  obtain ⟨-, q, said, -⟩ := exists_said read
  rcases Parse.exists_of_rawOrCommand said with ⟨statement', -, marked, same, -⟩ | ⟨-, said⟩
  · cases same
    exact rawStatement?_eq_some_iff.mpr marked
  · obtain ⟨_, _, -, said, -⟩ := Parse.exists_of_command said
    exact absurd said Parse.ne_raw_of_sentence

/-- What is read from a line is proper. -/
theorem read?_proper (read : Line.read? limit scope text = some (some l, vars)) :
    l.sentence.Proper := by
  obtain ⟨plain, q, said, -⟩ := exists_said read
  exact Parse.rawOrCommand_proper plain said

end Line

end ControlScript
