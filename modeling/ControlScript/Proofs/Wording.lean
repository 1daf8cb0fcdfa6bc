import ControlScript.Proofs.Lines
import ControlScript.Proofs.Tables

/-!
# What a line says, whatever names refer to

Whether a line can be read depends on the variables, because it may only name those that there are.
What it says does not: a line that is read with some variables and again with others says the same
both times. Only an assignment makes a variable.

## Main definitions

* `Scan.Fixed`, `Parse.Fixed` — reading that gives the same whatever names refer to
* `Line.Says`, `Line.SayAll` — what a text says, and what some texts without blocks say
* `Line.IsStraight` — a line that assigns, prints, clears the variables or says nothing
* `Action.Fits` — what a straight action leaves of the variables, and which of them it names

## Main results

* `Line.Says.unique`, `Line.SayAll.unique` — a text does not say two things
* `Line.exists_of_isStraight` — what a straight line does
* `Line.vars_of_isFrame` — a line that frames a program makes no variable
-/

namespace ControlScript

open Attempt

namespace Scan

variable {α β : Type}

/-- What is read, and what is left, does not depend on what names refer to. -/
structure Fixed (x : Scope → Scan α) : Prop where
  same : ∀ {scope scope' : Scope} {text rest rest' : Bytes} {a b : α},
    x scope text = .ok a rest → x scope' text = .ok b rest' → a = b ∧ rest = rest'

theorem fixed_of_const (x : Scan α) : Fixed fun _ => x where
  same first second := by
    cases first.symm.trans second
    exact ⟨rfl, rfl⟩

theorem Fixed.bind {x : Scope → Scan α} {next : Scope → α → Scan β} (first : Fixed x)
    (second : ∀ a, Fixed fun scope => next scope a) :
    Fixed fun scope => x scope >>= next scope where
  same read read' := by
    rw [← success?_eq_some_iff, success?_bind] at read read'
    simp only [Option.bind_eq_some_iff, Prod.exists, success?_eq_some_iff] at read read'
    obtain ⟨c, middle, read, last⟩ := read
    obtain ⟨c', middle', read', last'⟩ := read'
    obtain ⟨rfl, rfl⟩ := first.same read read'
    exact (second c).same last last'

end Scan

namespace Operand

variable {scope : Scope} {text rest : Bytes} {o : Operand}

/-- The name of a variable is read from the text alone, but it must refer to something. -/
theorem exists_of_scanVariable (read : scanVariable scope text = .ok o rest) :
    ∃ name, Bytes.identifier? text = some name ∧ text = name ++ rest ∧ o = .variable name ∧
      ∃ place, scope.vars.find name = .ok place := by
  simp only [scanVariable, bind_apply, get_apply] at read
  cases found : scope.vars.find text with
  | error f => simp [found] at read
  | ok place =>
    obtain ⟨name, named, -, length⟩ := Variables.exists_of_find found
    obtain ⟨left, rfl, proper, ends⟩ := Bytes.exists_of_identifier? named
    simp only [found, ofExcept_ok, pure_apply, Scan.take, length, List.take_left',
      List.drop_left'] at read
    cases read
    rw [scope.vars.find_append proper ends] at found
    exact ⟨name, named, rfl, rfl, place, found⟩

/-- The name of a reading is read in the same way. -/
theorem exists_of_scanReading (read : scanReading scope text = .ok o rest) :
    ∃ name, Bytes.identifier? text = some name ∧ text = name ++ rest ∧ o = .reading name ∧
      ∃ place, scope.readings.find? name = some place := by
  simp only [scanReading, bind_apply, get_apply] at read
  cases found : scope.readings.find? text with
  | none => simp [found] at read
  | some place =>
    obtain ⟨name, named, length⟩ := Readings.exists_of_find? found
    obtain ⟨left, rfl, proper, ends⟩ := Bytes.exists_of_identifier? named
    simp only [found, length] at read
    rw [bind_apply] at read
    simp only [Scan.take, List.take_left', List.drop_left', pure_apply] at read
    cases read
    rw [scope.readings.find?_append proper ends] at found
    exact ⟨name, named, rfl, rfl, place, found⟩

theorem fixed_scan : Scan.Fixed scan where
  same {scope scope' text rest rest' o o'} first second := by
    rw [scan_apply] at first second
    cases spelled : text.dropWhile (· == Byte.space) with
    | nil =>
      rw [spelled] at first
      cases first
    | cons b tail =>
      rw [spelled] at first second
      dsimp only at first second
      split_ifs at first second
      · obtain ⟨name, named, split, rfl, -⟩ := exists_of_scanVariable first
        obtain ⟨name', named', split', rfl, -⟩ := exists_of_scanVariable second
        obtain rfl : name = name' := Option.some.inj (named.symm.trans named')
        exact ⟨rfl, List.append_cancel_left (split.symm.trans split')⟩
      · cases first.symm.trans second
        exact ⟨rfl, rfl⟩
      · obtain ⟨name, named, split, rfl, -⟩ := exists_of_scanReading first
        obtain ⟨name', named', split', rfl, -⟩ := exists_of_scanReading second
        obtain rfl : name = name' := Option.some.inj (named.symm.trans named')
        exact ⟨rfl, List.append_cancel_left (split.symm.trans split')⟩

/-- The variable that is read as an operand is there. -/
theorem scan_known (read : scan scope text = .ok o rest) : o.Known scope.vars := by
  rw [scan_apply] at read
  split at read
  · cases read
  · split_ifs at read
    · obtain ⟨name, -, -, rfl, found⟩ := exists_of_scanVariable read
      exact found
    · rw [map_apply] at read
      split at read
      · cases read
        trivial
      · cases read
    · obtain ⟨name, -, -, rfl, -⟩ := exists_of_scanReading read
      trivial

end Operand

theorem Expression.fixed_scan : Scan.Fixed scan := by
  refine Operand.fixed_scan.bind fun left => (Scan.fixed_of_const _).bind fun _ =>
    (Scan.fixed_of_const _).bind fun operator => ?_
  cases operator with
  | none => exact Scan.fixed_of_const _
  | some operator => exact Operand.fixed_scan.bind fun right => Scan.fixed_of_const _

theorem Condition.fixed_scan : Scan.Fixed scan := by
  refine Operand.fixed_scan.bind fun left => (Scan.fixed_of_const _).bind fun _ =>
    (Scan.fixed_of_const _).bind fun comparison => ?_
  cases comparison with
  | none => exact Scan.fixed_of_const _
  | some comparison => exact Operand.fixed_scan.bind fun right => Scan.fixed_of_const _

/-- The variables that are read as parts of an expression are there. -/
theorem Expression.scan_known {scope : Scope} {text rest : Bytes} {e : Expression}
    (read : scan scope text = .ok e rest) : e.Known scope.vars := by
  rw [← success?_eq_some_iff] at read
  simp only [scan, success?_bind, Option.bind_eq_some_iff, Prod.exists] at read
  obtain ⟨left, _, first, _, _, -, operator, _, -, chosen⟩ := read
  have known := Operand.scan_known (success?_eq_some_iff.mp first)
  cases operator with
  | none =>
    cases chosen
    exact known
  | some operator =>
    simp only [success?_bind, Option.bind_eq_some_iff, Prod.exists] at chosen
    obtain ⟨right, _, second, last⟩ := chosen
    cases last
    exact ⟨known, Operand.scan_known (success?_eq_some_iff.mp second)⟩

namespace Parse

variable {α β : Type}

/-- What is read, and what is left, does not depend on what names refer to. -/
structure Fixed (x : Parse α) : Prop where
  same : ∀ {p q p' q' : Passage} {a b : α}, p.rest = q.rest → success? (x p) = some (a, p') →
    success? (x q) = some (b, q') → a = b ∧ p'.rest = q'.rest

theorem fixed_pure (a : α) : Fixed (pure a) where
  same equal first second := by
    cases first
    cases second
    exact ⟨rfl, equal⟩

theorem fixed_failNoting (cause : Cause) (note : String) :
    Fixed (Attempt.failNoting cause note : Parse α) where
  same _ first := by cases first

theorem fixed_fail (cause : Cause) : Fixed (Attempt.fail cause : Parse α) where
  same _ first := by cases first

theorem Fixed.bind {x : Parse α} {next : α → Parse β} (first : x.Fixed)
    (second : ∀ a, (next a).Fixed) : (x >>= next).Fixed where
  same equal read read' := by
    simp only [success?_bind, Option.bind_eq_some_iff, Prod.exists] at read read'
    obtain ⟨c, _, read, last⟩ := read
    obtain ⟨c', _, read', last'⟩ := read'
    obtain ⟨rfl, equal'⟩ := first.same equal read read'
    exact (second c).same equal' last last'

/-- Reading that begins with a look at what is left. -/
theorem fixed_get_bind {next : Passage → Parse α}
    (looks : ∀ p q : Passage, p.rest = q.rest → next p = next q) (second : ∀ p, (next p).Fixed) :
    (get >>= next).Fixed where
  same {p q p' q' a b} equal read read' := by
    rw [bind_apply, get_apply] at read read'
    dsimp only at read read'
    rw [← looks p q equal] at read'
    exact (second p).same equal read read'

theorem fixed_scoped {x : Scope → Scan α} (fixed : Scan.Fixed x) :
    (get >>= fun p : Passage => scanning (x p.scope)).Fixed where
  same equal read read' := by
    rw [bind_apply, get_apply] at read read'
    simp only [success?_scanning, Option.map_eq_some_iff, Prod.exists, success?_eq_some_iff]
      at read read'
    obtain ⟨_, rest, read, equal₁⟩ := read
    obtain ⟨_, rest', read', equal₂⟩ := read'
    rw [← equal] at read'
    obtain ⟨rfl, rfl⟩ := fixed.same read read'
    cases equal₁
    cases equal₂
    exact ⟨rfl, rfl⟩

theorem fixed_scanning (x : Scan α) : (scanning x).Fixed := fixed_scoped (Scan.fixed_of_const x)

/-- Making a variable leaves the text alone. -/
theorem fixed_onVariables_bind (x : Attempt Variables α) {next : Parse β} (second : next.Fixed) :
    (onVariables x >>= fun _ => next).Fixed where
  same {p q _ _ _ _} equal read read' := by
    simp only [success?_bind, Option.bind_eq_some_iff, Prod.exists, onVariables, success?_on,
      Option.map_eq_some_iff, Prod.mk.injEq] at read read'
    obtain ⟨_, _, ⟨_, _, -, -, rfl⟩, last⟩ := read
    obtain ⟨_, _, ⟨_, _, -, -, rfl⟩, last'⟩ := read'
    have equal' (s t : Scope) : (⟨p.rest, s⟩ : Passage).rest = (⟨q.rest, t⟩ : Passage).rest := equal
    exact second.same (equal' _ _) last last'

theorem fixed_operand : operand.Fixed := fixed_scoped Operand.fixed_scan

theorem fixed_expression : expression.Fixed := fixed_scoped Expression.fixed_scan

theorem fixed_condition : condition.Fixed := fixed_scoped Condition.fixed_scan

theorem fixed_assignment : assignment.Fixed := by
  refine (fixed_scanning _).bind fun name => (fixed_scanning _).bind fun _ =>
    (fixed_scanning _).bind fun isAssignment => ?_
  cases isAssignment with
  | false => exact fixed_failNoting _ _
  | true =>
    exact fixed_onVariables_bind _ (fixed_expression.bind fun value => fixed_pure _)

theorem fixed_quotedText : quotedText.Fixed := by
  refine (fixed_scanning _).bind fun _ => (fixed_scanning _).bind fun text =>
    (fixed_scanning _).bind fun isClosed => ?_
  cases isClosed with
  | false => exact fixed_fail _
  | true => exact fixed_pure _

theorem fixed_printed : printed.Fixed := by
  refine (fixed_scanning _).bind fun first => ?_
  cases first with
  | none => exact fixed_fail _
  | some b =>
    dsimp only
    split
    · exact fixed_quotedText
    · exact fixed_expression.bind fun e => fixed_pure _

theorem fixed_printed? : printed?.Fixed := by
  refine (fixed_scanning _).bind fun first => ?_
  cases first with
  | none => exact fixed_pure _
  | some b => exact fixed_printed.bind fun what => fixed_pure _

theorem fixed_sentence (k : Option Keyword) : (sentence k).Fixed := by
  have assigned : (sentence none).Fixed := fixed_assignment.bind fun target => fixed_pure _
  cases k with
  | none => exact assigned
  | some k =>
    cases k
    case set => exact assigned
    case ifThen | whileLoop | untilTrue => exact fixed_condition.bind fun holds => fixed_pure _
    case delay => exact fixed_expression.bind fun tenths => fixed_pure _
    case wait => exact fixed_operand.bind fun seconds => fixed_pure _
    case print => exact fixed_printed.bind fun what => fixed_pure _
    case println => exact fixed_printed?.bind fun what => fixed_pure _
    all_goals exact fixed_pure _

theorem fixed_keyword : keyword.Fixed := by
  refine fixed_get_bind (fun p q equal => by rw [equal]) fun p => ?_
  cases Keyword.ofLine? p.rest with
  | none => exact fixed_pure _
  | some k =>
    exact (fixed_scanning _).bind fun _ => (fixed_scanning _).bind fun _ => fixed_pure _

theorem fixed_command : command.Fixed := by
  refine fixed_keyword.bind fun k => (fixed_sentence k).bind fun s =>
    (fixed_scanning _).bind fun _ => fixed_get_bind (fun p q equal => by rw [equal]) fun p => ?_
  split
  · exact fixed_pure s
  · exact fixed_fail _

theorem fixed_raw : raw.Fixed := by
  refine fixed_get_bind (fun p q equal => by rw [equal]) fun p => ?_
  dsimp only
  split
  · exact fixed_failNoting _ _
  · exact fixed_pure _

theorem fixed_line : line.Fixed := by
  refine (fixed_scanning _).bind fun indent =>
    fixed_get_bind (fun p q equal => by rw [equal]) fun p => ?_
  dsimp only
  split
  · exact fixed_pure _
  · split
    · exact fixed_failNoting _ _
    · refine Fixed.bind ?_ fun s => fixed_pure _
      refine (fixed_scanning _).bind fun isRaw => ?_
      cases isRaw with
      | false => exact fixed_command
      | true => exact fixed_raw

end Parse

/-- What a text says if it is a line: nothing, or some sentence. -/
def Line.Says (text : String) (l : Option Line) : Prop :=
  ∃ limit scope vars, Line.read? limit scope text = some (l, vars)

/-- A text does not say two things, whatever names refer to. -/
theorem Line.Says.unique {text : String} {l l' : Option Line} (first : Line.Says text l)
    (second : Line.Says text l') : l = l' := by
  obtain ⟨limit, scope, vars, read⟩ := first
  obtain ⟨limit', scope', vars', read'⟩ := second
  unfold Line.read? at read read'
  split at read
  · cases read
  split at read'
  · cases read'
  simp only [Option.map_eq_some_iff, Prod.exists, Prod.mk.injEq] at read read'
  obtain ⟨_, _, parsed, rfl, -⟩ := read
  obtain ⟨_, _, parsed', rfl, -⟩ := read'
  have equal : (⟨Bytes.ofChars (trimEnd text.toList), scope⟩ : Passage).rest =
      (⟨Bytes.ofChars (trimEnd text.toList), scope'⟩ : Passage).rest := rfl
  exact (Parse.fixed_line.same equal parsed parsed').1

/-- Whether an action assigns, prints or clears. -/
def Action.IsStraight : Action → Prop
  | .assign _ _ | .print _ | .println _ | .clear => True
  | _ => False

/-- A straight action is not about downloads. -/
theorem Action.IsStraight.isRemote {a : Action} (straight : a.IsStraight) : a.isRemote = false := by
  cases a with
  | raw statement => exact straight.elim
  | _ => rfl

/-- Whether a line with the keyword assigns, prints or clears. -/
def Keyword.isStraight : Keyword → Bool
  | .set | .print | .println | .clear => true
  | _ => false

/-- A line that assigns, prints, clears the variables or says nothing. -/
def Line.IsStraight (text : String) : Prop :=
  rawStatement? text = none ∧ (Keyword.ofText? text).all Keyword.isStraight = true

instance (text : String) : Decidable (Line.IsStraight text) := inferInstanceAs (Decidable (_ ∧ _))

/-- What a straight action leaves of the variables, and which of them it names. -/
structure Action.Fits (a : Action) (vs ws : Variables) : Prop where
  straight : a.IsStraight
  known : ∀ i ∈ a.code, i.Known (a.make vs)
  vars : ws = a.make vs

/-- A line that is not raw says the sentence that follows its keyword. -/
theorem Line.exists_of_read? {limit : Nat} {scope : Scope} {text : String} {l : Line}
    {vars : Variables} (notRaw : rawStatement? text = none)
    (read : Line.read? limit scope text = some (some l, vars)) :
    ∃ p q, p.scope = scope ∧ q.scope.vars = vars ∧
      success? (Parse.sentence (Keyword.ofText? text) p) = some (l.sentence, q) := by
  obtain ⟨-, q, said, made⟩ := exists_said read
  rcases Parse.exists_of_rawOrCommand said with ⟨statement, -, marked, -⟩ | ⟨-, said⟩
  · cases notRaw.symm.trans (rawStatement?_eq_some_iff.mpr marked)
  · obtain ⟨p, r, named, said, same⟩ := Parse.exists_of_command said
    obtain ⟨rest, -, rfl⟩ := Parse.exists_suffix_of_keyword (success?_eq_some_iff.mpr named)
    exact ⟨_, r, rfl, same ▸ made, said⟩

namespace Parse

variable {p q : Passage}

/-- An expression that is read names variables that there are, and makes none. -/
theorem known_of_expression {e : Expression} (read : success? (expression p) = some (e, q)) :
    e.Known p.scope.vars ∧ q.scope = p.scope := by
  obtain ⟨_, scanned, rfl⟩ := exists_of_scoped read
  exact ⟨Expression.scan_known scanned, rfl⟩

/-- What is printed names variables that there are, and makes none. -/
theorem known_of_printed {what : Printed} (read : success? (printed p) = some (what, q)) :
    what.instruction.Known p.scope.vars ∧ q.scope = p.scope := by
  obtain ⟨content, rfl, -, kept⟩ | ⟨e, rfl, valued⟩ := exists_of_printed read
  · exact ⟨trivial, kept⟩
  · exact known_of_expression valued

/-- An assignment makes its variable, and its value may name it. -/
theorem known_of_assignment {name : Bytes} {value : Expression}
    (read : success? (assignment p) = some ((name, value), q)) :
    (∃ place, (p.scope.vars.make name).find name = .ok place) ∧
      value.Known (p.scope.vars.make name) ∧ q.scope.vars = p.scope.vars.make name := by
  obtain ⟨-, rest, place, vars, made, valued⟩ := exists_of_assignment read
  obtain ⟨known, kept⟩ := known_of_expression valued
  obtain rfl := Variables.make_of_findOrCreate made
  exact ⟨⟨_, Variables.find_made made⟩, known, congrArg Scope.vars kept⟩

/-- With and without the word for it, an assignment is read in the same way. -/
theorem exists_assign_of_sentence {s : Sentence}
    (read : success? (sentence none p) = some (s, q)) :
    ∃ name value, s = .action (.assign name value) ∧
      (Action.assign name value).Fits p.scope.vars q.scope.vars := by
  simp only [sentence, success?_bind, Option.bind_eq_some_iff, Prod.exists] at read
  obtain ⟨name, value, _, made, last⟩ := read
  cases last
  obtain ⟨found, known, vars⟩ := known_of_assignment made
  refine ⟨name, value, rfl, trivial, fun i member => ?_, vars⟩
  rw [List.mem_singleton.mp member]
  exact ⟨found, known⟩

theorem exists_print_of_sentence {s : Sentence}
    (read : success? (sentence (some .print) p) = some (s, q)) :
    ∃ what, s = .action (.print what) ∧ (Action.print what).Fits p.scope.vars q.scope.vars := by
  simp only [sentence, success?_bind, Option.bind_eq_some_iff, Prod.exists] at read
  obtain ⟨what, _, printed, last⟩ := read
  cases last
  obtain ⟨known, kept⟩ := known_of_printed printed
  refine ⟨what, rfl, trivial, fun i member => ?_, congrArg Scope.vars kept⟩
  rw [List.mem_singleton.mp member]
  exact known

/-- A line break may stand alone, or after what is printed. -/
theorem exists_println_of_sentence {s : Sentence}
    (read : success? (sentence (some .println) p) = some (s, q)) :
    ∃ what?, s = .action (.println what?) ∧
      (Action.println what?).Fits p.scope.vars q.scope.vars := by
  simp only [sentence, success?_bind, Option.bind_eq_some_iff, Prod.exists] at read
  obtain ⟨what?, _, scanned, last⟩ := read
  cases last
  simp only [printed?, success?_bind, success?_scanning, Scan.peek, success?_ok,
    Option.map_some, Option.bind_some] at scanned
  cases first : p.rest.head? with
  | none =>
    simp only [first] at scanned
    cases scanned
    refine ⟨none, rfl, trivial, fun i member => ?_, rfl⟩
    rw [List.mem_singleton.mp member]
    trivial
  | some b =>
    simp only [first, success?_bind, Option.bind_eq_some_iff, Prod.exists] at scanned
    obtain ⟨what, _, printed, last⟩ := scanned
    cases last
    obtain ⟨known, kept⟩ := known_of_printed printed
    refine ⟨some what, rfl, trivial, fun i member => ?_, congrArg Scope.vars kept⟩
    rcases List.mem_pair.mp member with rfl | rfl
    · exact known
    · trivial

theorem exists_of_sentence {k : Option Keyword} {s : Sentence}
    (straight : k.all Keyword.isStraight = true)
    (read : success? (sentence k p) = some (s, q)) :
    ∃ a : Action, s = .action a ∧ (a = .clear ↔ k = some .clear) ∧
      a.Fits p.scope.vars q.scope.vars := by
  cases k with
  | none =>
    obtain ⟨name, value, rfl, fits⟩ := exists_assign_of_sentence read
    exact ⟨_, rfl, by simp, fits⟩
  | some k =>
    cases k
    case set =>
      obtain ⟨name, value, rfl, fits⟩ := exists_assign_of_sentence read
      exact ⟨_, rfl, by simp, fits⟩
    case clear =>
      cases read
      exact ⟨.clear, rfl, by simp, trivial, fun i member => by
        rw [List.mem_singleton.mp member]; trivial, rfl⟩
    case print =>
      obtain ⟨what, rfl, fits⟩ := exists_print_of_sentence read
      exact ⟨_, rfl, by simp, fits⟩
    case println =>
      obtain ⟨what?, rfl, fits⟩ := exists_println_of_sentence read
      exact ⟨_, rfl, by simp, fits⟩
    -- No other word is straight.
    all_goals cases straight

end Parse

/-- What a straight line does. -/
theorem Line.exists_of_isStraight {limit : Nat} {scope : Scope} {text : String} {l : Line}
    {vars : Variables} (straight : IsStraight text)
    (read : Line.read? limit scope text = some (some l, vars)) :
    ∃ a : Action, l.sentence = .action a ∧ (a = .clear ↔ Keyword.ofText? text = some .clear) ∧
      a.Fits scope.vars vars := by
  obtain ⟨p, q, rfl, rfl, said⟩ := exists_of_read? straight.1 read
  exact Parse.exists_of_sentence straight.2 said

/-- A line that begins or ends a program makes no variable. -/
theorem Line.vars_of_isFrame {limit : Nat} {scope : Scope} {text : String} {l : Line}
    {vars : Variables} (frames : l.sentence.isFrame = true)
    (read : Line.read? limit scope text = some (some l, vars)) : vars = scope.vars := by
  obtain ⟨k, named, words⟩ : ∃ k, Keyword.ofText? text = some k ∧ (k = .begin ∨ k = .finish) := by
    have words := Line.ofText?_of_read? read
    cases said : l.sentence with
    | begin => exact ⟨.begin, words.1.mp said, .inl rfl⟩
    | finish => exact ⟨.finish, words.2.mp said, .inr rfl⟩
    | _ => simp [said, Sentence.isFrame] at frames
  obtain ⟨p, q, rfl, rfl, said⟩ := exists_of_read? (rawStatement?_of_ofText? named) read
  rw [named] at said
  rcases words with rfl | rfl
  · exact congrArg (·.2.scope.vars) (Option.some.inj said).symm
  · exact congrArg (·.2.scope.vars) (Option.some.inj said).symm

/-- What some texts say that open no block: an action each, but for those that say nothing. -/
inductive Line.SayAll : List String → List Action → Prop
  | nil : SayAll [] []
  | blank {text : String} {texts : List String} {actions : List Action} (said : Says text none)
      (later : SayAll texts actions) : SayAll (text :: texts) actions
  | action {text : String} {texts : List String} {indent : Nat} {a : Action}
      {actions : List Action} (said : Says text (some { indent, sentence := .action a }))
      (later : SayAll texts actions) : SayAll (text :: texts) (a :: actions)

namespace Line.SayAll

variable {texts : List String} {actions actions' : List Action}

theorem unique (first : SayAll texts actions) (second : SayAll texts actions') :
    actions = actions' := by
  induction first generalizing actions' with
  | nil => cases second with | nil => rfl
  | blank said _ ih =>
    cases second with
    | blank _ later => exact ih later
    | action said' _ => cases said.unique said'
  | action said _ ih =>
    cases second with
    | blank said' _ => cases said.unique said'
    | action said' later =>
      cases said.unique said'
      rw [ih later]

/-- Each of the actions is what one of the texts says. -/
theorem exists_text (said : SayAll texts actions) :
    ∀ a ∈ actions, ∃ text ∈ texts, ∃ indent, Says text (some { indent, sentence := .action a }) := by
  induction said with
  | nil => exact List.forall_mem_nil _
  | @blank text texts actions _ _ ih =>
    intro a member
    obtain ⟨other, inTexts, spoken⟩ := ih a member
    exact ⟨other, List.mem_cons_of_mem text inTexts, spoken⟩
  | @action text texts indent a actions said _ ih =>
    refine List.forall_mem_cons.mpr ⟨⟨text, List.mem_cons_self, indent, said⟩, fun b member => ?_⟩
    obtain ⟨other, inTexts, spoken⟩ := ih b member
    exact ⟨other, List.mem_cons_of_mem text inTexts, spoken⟩

/-- Straight lines say straight actions. -/
theorem straight (said : SayAll texts actions) (straight : ∀ text ∈ texts, IsStraight text) :
    ∀ a ∈ actions, a.IsStraight ∧ a.Proper := by
  intro a member
  obtain ⟨text, inTexts, indent, limit, scope, vars, read⟩ := said.exists_text a member
  obtain ⟨a', same, -, fits⟩ := exists_of_isStraight (straight text inTexts) read
  cases same
  exact ⟨fits.straight, read?_proper read⟩

/-- Where the variables are cleared, a line has the keyword for it. -/
theorem exists_clear (said : SayAll texts actions) (straight : ∀ text ∈ texts, IsStraight text)
    (clears : .clear ∈ actions) : ∃ text ∈ texts, Keyword.ofText? text = some .clear := by
  obtain ⟨text, inTexts, indent, limit, scope, vars, read⟩ := said.exists_text .clear clears
  obtain ⟨a', same, named, -⟩ := exists_of_isStraight (straight text inTexts) read
  cases same
  exact ⟨text, inTexts, named.mp rfl⟩

end Line.SayAll

end ControlScript
