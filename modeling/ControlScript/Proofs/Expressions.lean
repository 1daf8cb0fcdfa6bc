import ControlScript.Expression.Basic
import ControlScript.Proofs.Names
import ControlScript.Proofs.Success

/-!
# Written expressions

A compiler writes an expression into a statement, and later the machine reads the statement
for its value. This file gives the value of an expression directly, by its structure, and
shows that reading the written form yields this value, or the same fault, in any scope.

## Main definitions

* `Operand.Proper`, `Expression.Proper`, `Condition.Proper` — the names and digits are such
  that the written form can be read again
* `Expression.value`, `Condition.holds` — the value by structure

## Main results

* `Operand.scan_proper`, `Expression.scan_proper`, `Condition.scan_proper` — what a compiler
  reads is proper
* `Expression.evaluate_text`, `Condition.evaluate_text` — the written form has the value of
  the expression
-/

namespace ControlScript

open Bytes Scan

/-- Digits that stand for a number. -/
def Literal.Proper (l : Literal) : Prop := l.digits ≠ [] ∧ ∀ b ∈ l.digits, Byte.isDigit b = true

namespace Operand

/-- An operand that can be read again from its written form. -/
def Proper : Operand → Prop
  | .variable name => IsName name
  | .literal l => l.Proper
  | .reading name => IsName name

/-- The bytes of an operand: name characters, signs and the mark of a reading. -/
theorem Proper.mem_text {o : Operand} (proper : o.Proper) :
    ∀ b ∈ o.text, Byte.isNameChar b = true ∨ b = Byte.plus ∨ b = Byte.minus ∨ b = Byte.atSign := by
  intro b member
  match o with
  | .variable name => exact .inl (proper.isNameChar b member)
  | .reading name =>
    rcases List.mem_cons.mp member with rfl | inName
    · simp
    · exact .inl (proper.isNameChar b inName)
  | .literal l =>
    rcases List.mem_append.mp member with inSign | inDigits
    · match sign : l.sign with
      | none => simp [Literal.signText, sign] at inSign
      | some .plus => simp_all [Literal.signText]
      | some .minus => simp_all [Literal.signText]
    · exact .inl (Byte.isNameChar_of_isDigit (proper.2 b inDigits))

theorem Proper.text_ne_nil {o : Operand} (proper : o.Proper) : o.text ≠ [] := by
  match o with
  | .variable name =>
    obtain ⟨b, tail, rfl, -⟩ := IsName.exists_cons proper
    exact List.cons_ne_nil b tail
  | .reading name => exact List.cons_ne_nil _ _
  | .literal l => exact List.append_ne_nil_of_right_ne_nil _ proper.1

/-- The bytes of an operand are no control bytes and separate nothing. -/
theorem Proper.plain {o : Operand} (proper : o.Proper) :
    ∀ b ∈ o.text, Byte.isControl b = false ∧ b ≠ Byte.comma ∧ b ≠ Byte.equals := by
  intro b member
  rcases proper.mem_text b member with inName | rfl | rfl | rfl
  · refine ⟨Byte.isControl_of_isNameChar inName, ?_, ?_⟩ <;>
      (rintro rfl; exact absurd inName (by decide))
  all_goals decide

end Operand

/-- A step over the spaces in front of a text that has none there. -/
theorem Scan.skipSpaces_of_ne {b : UInt8} (text : Bytes) (solid : b ≠ Byte.space) :
    skipSpaces (b :: text) = .ok 0 (b :: text) := by
  simp [skipSpaces_apply, solid]

namespace Literal

/-- A literal is read to its last digit and then judged by its value. -/
theorem scan_apply (text : Bytes) : ∃ sign tail, scanSign text = .ok sign tail ∧
    scan text =
      let literal : Literal := { sign, digits := tail.takeWhile Byte.isDigit }
      let rest := tail.dropWhile Byte.isDigit
      if literal.digits.isEmpty then .error (.of .invalidOperand) rest
      else match literal.value with
        | .ok _ => .ok literal rest
        | .error f => .error f rest := by
  have signed : ∃ sign tail, scanSign text = .ok sign tail := by
    unfold scanSign
    repeat' split
    all_goals exact ⟨_, _, rfl⟩
  obtain ⟨sign, tail, signed⟩ := signed
  refine ⟨sign, tail, signed, ?_⟩
  simp only [scan, Attempt.bind_apply, signed, takeWhile]
  cases none : (tail.takeWhile Byte.isDigit).isEmpty
  · cases valued : Literal.value { sign, digits := tail.takeWhile Byte.isDigit } <;>
      simp [Attempt.map_apply]
  · simp [Attempt.bind_apply]

/-- A written sign is read again, and none is found where none is written. -/
theorem scanSign_signText {sign : Option Sign} {text : Bytes}
    (unsigned : sign = none → ∀ b ∈ text.head?, b ≠ Byte.minus ∧ b ≠ Byte.plus) :
    scanSign (signText sign ++ text) = .ok sign text := by
  match sign with
  | some .plus =>
    have different : Byte.plus ≠ Byte.minus := by decide
    simp [signText, scanSign, different]
  | some .minus => simp [signText, scanSign]
  | none =>
    cases text with
    | nil => rfl
    | cons b tail =>
      obtain ⟨notMinus, notPlus⟩ := unsigned rfl b rfl
      simp [signText, scanSign, notMinus, notPlus]

/-- A sign and the digits behind it are read to the last of them, whatever follows. -/
theorem scan_append {l : Literal} {rest : Bytes}
    (decimal : ∀ d ∈ l.digits, Byte.isDigit d = true)
    (outside : ∀ b ∈ rest.head?, Byte.isDigit b = false)
    (unsigned : l.sign = none → ∀ b ∈ (l.digits ++ rest).head?, b ≠ Byte.minus ∧ b ≠ Byte.plus) :
    scan (l.text ++ rest) =
      if l.digits.isEmpty then .error (.of .invalidOperand) rest
      else match l.value with
        | .ok _ => .ok l rest
        | .error f => .error f rest := by
  obtain ⟨run, left⟩ := takeWhile_append_of_ends decimal outside
  obtain ⟨sign, tail, signed, read⟩ := scan_apply (l.text ++ rest)
  have written := scanSign_signText unsigned
  rw [← List.append_assoc, ← text, signed] at written
  cases written
  simpa only [run, left] using read

/-- A written literal starts with its sign or with a digit. -/
theorem exists_text_append {l : Literal} (proper : l.Proper) (rest : Bytes) :
    ∃ b tail, l.text ++ rest = b :: tail ∧
      (Byte.isDigit b = true ∨ b = Byte.plus ∨ b = Byte.minus) := by
  obtain ⟨nonempty, digits⟩ := proper
  match sign : l.sign with
  | some .plus =>
    exact ⟨Byte.plus, l.digits ++ rest, by simp [text, signText, sign], .inr (.inl rfl)⟩
  | some .minus =>
    exact ⟨Byte.minus, l.digits ++ rest, by simp [text, signText, sign], .inr (.inr rfl)⟩
  | none =>
    cases spelled : l.digits with
    | nil => exact absurd spelled nonempty
    | cons d ds =>
      exact ⟨d, ds ++ rest, by simp [text, signText, sign, spelled],
        .inl (digits d (by simp [spelled]))⟩

/-- A digit is no sign. -/
theorem Proper.unsigned {l : Literal} (proper : l.Proper) (rest : Bytes) :
    ∀ b ∈ (l.digits ++ rest).head?, b ≠ Byte.minus ∧ b ≠ Byte.plus := by
  obtain ⟨d, ds, spelled⟩ := List.exists_cons_of_ne_nil proper.1
  have digit := proper.2 d (by simp [spelled])
  rw [spelled]
  intro b first
  cases first
  constructor <;> (rintro rfl; exact absurd digit (by decide))

/-- A written literal is read again, as far as it has a value. -/
theorem scan_text {l : Literal} (proper : l.Proper) {rest : Bytes} (ends : Ends rest) :
    scan (l.text ++ rest) = match l.value with
      | .ok _ => .ok l rest
      | .error f => .error f rest := by
  have outside : ∀ b ∈ rest.head?, Byte.isDigit b = false := fun b first =>
    (Byte.isNameStart_of_not_isNameChar (ends b first)).2
  rw [scan_append proper.2 outside fun _ => proper.unsigned rest, if_neg (by simpa using proper.1)]

/-- What is read as a literal has digits. -/
theorem scan_proper {text rest : Bytes} {l : Literal} (read : scan text = .ok l rest) :
    l.Proper := by
  obtain ⟨sign, tail, -, equation⟩ := scan_apply text
  rw [read] at equation
  dsimp only at equation
  split at equation
  · cases equation
  · next nonempty =>
    split at equation
    · cases equation
      exact ⟨by simpa using nonempty, fun b member =>
        List.all_eq_true.mp List.all_takeWhile b member⟩
    · cases equation

end Literal

namespace Operand

theorem scanVariable_append (scope : Scope) {name rest : Bytes} (named : IsName name)
    (ends : Ends rest) :
    scanVariable scope (name ++ rest) = match scope.vars.find name with
      | .ok _ => .ok (.variable name) rest
      | .error f => .error f (name ++ rest) := by
  simp only [scanVariable, Attempt.bind_apply, Attempt.get_apply,
    scope.vars.find_append named ends]
  cases found : scope.vars.find name with
  | error f => rfl
  | ok place =>
    obtain ⟨_, same, -, length⟩ := Variables.exists_of_find found
    cases named.symm.trans same
    simp [take, length]

theorem scanReading_append (scope : Scope) {name rest : Bytes} (named : IsName name)
    (ends : Ends rest) :
    scanReading scope (name ++ rest) = match scope.readings.find? name with
      | some _ => .ok (.reading name) rest
      | none => .error (.of .invalidReading) (name ++ rest) := by
  simp only [scanReading, Attempt.bind_apply, Attempt.get_apply,
    scope.readings.find?_append named ends]
  cases found : scope.readings.find? name with
  | none => rfl
  | some place =>
    obtain ⟨_, same, length⟩ := Readings.exists_of_find? found
    cases named.symm.trans same
    simp [Attempt.map_apply, take, length]

/-- The first byte after the spaces tells what kind of operand follows. -/
theorem scan_apply (scope : Scope) (text : Bytes) :
    scan scope text = match text.dropWhile (· == Byte.space) with
      | [] => .error (.of .invalidOperand) []
      | b :: tail =>
        if Byte.isNameStart b then scanVariable scope (b :: tail)
        else if Byte.isDigit b || b == Byte.plus || b == Byte.minus then
          (Operand.literal <$> Literal.scan) (b :: tail)
        else if b = Byte.atSign then scanReading scope tail
        else .error (.of .invalidOperand) (b :: tail) := by
  simp only [scan, Attempt.bind_apply, skipSpaces_apply, peek]
  cases text.dropWhile (· == Byte.space) with
  | nil => rfl
  | cons b tail =>
    simp only [List.head?_cons]
    split_ifs
    · rfl
    · simp only [Attempt.map_apply, Attempt.bind_apply]
      cases Literal.scan (b :: tail) <;> rfl
    · simp [Attempt.bind_apply, skip]
    · rfl

theorem scan_cons (scope : Scope) {b : UInt8} (text : Bytes) (solid : b ≠ Byte.space) :
    scan scope (b :: text) =
      if Byte.isNameStart b then scanVariable scope (b :: text)
      else if Byte.isDigit b || b == Byte.plus || b == Byte.minus then
        (Operand.literal <$> Literal.scan) (b :: text)
      else if b = Byte.atSign then scanReading scope text
      else .error (.of .invalidOperand) (b :: text) := by
  rw [scan_apply, List.dropWhile_cons_of_neg (by simpa using solid)]

theorem evaluate_of_scan {scope : Scope} {text rest : Bytes} {o : Operand}
    (read : scan scope text = .ok o rest) :
    (evaluate scope).Gives text (o.value scope) rest :=
  Gives.bind_ok read (gives_ofExcept _ _)

theorem evaluate_of_scan_error {scope : Scope} {text left rest : Bytes} {f : Fault}
    (stopped : scan scope text = .error f left) :
    (evaluate scope).Gives text (.error f) rest :=
  ⟨left, by rw [evaluate, Attempt.bind_apply, stopped]⟩

/-- An operand that starts like a literal is read as one. -/
theorem scan_literal (scope : Scope) {l : Literal} (proper : l.Proper) (rest : Bytes) :
    scan scope (l.text ++ rest) = (Operand.literal <$> Literal.scan) (l.text ++ rest) := by
  obtain ⟨b, tail, spelled, sign⟩ := Literal.exists_text_append proper rest
  have solid : b ≠ Byte.space := by
    rintro rfl
    revert sign
    decide
  have noName : Byte.isNameStart b = false := by
    rcases sign with digit | rfl | rfl
    · exact Byte.isNameStart_of_isDigit digit
    · decide
    · decide
  rw [spelled, scan_cons scope tail solid, if_neg (by simp [noName]),
    if_pos (by simpa [or_assoc] using sign)]

/-- The written form of an operand has the value of the operand. -/
theorem evaluate_text (scope : Scope) {o : Operand} (proper : o.Proper) {rest : Bytes}
    (ends : Ends rest) : (evaluate scope).Gives (o.text ++ rest) (o.value scope) rest := by
  match o with
  | .variable name =>
    obtain ⟨b, tail, rfl, start, -⟩ := IsName.exists_cons proper
    have solid : b ≠ Byte.space := by rintro rfl; exact absurd start (by decide)
    have read : scan scope ((b :: tail) ++ rest) = _ :=
      (scan_cons scope (tail ++ rest) solid).trans (if_pos start)
    rw [← List.cons_append, scanVariable_append scope proper ends] at read
    cases found : scope.vars.find (b :: tail) with
    | ok place =>
      rw [found] at read
      exact evaluate_of_scan read
    | error f =>
      rw [found] at read
      have value : (Operand.variable (b :: tail)).value scope = .error f := by
        simp [Operand.value, found, bind, Except.bind]
      rw [value]
      exact evaluate_of_scan_error read
  | .reading name =>
    have read : scan scope (Byte.atSign :: (name ++ rest)) = scanReading scope (name ++ rest) :=
      scan_cons scope (name ++ rest) (by decide)
    rw [scanReading_append scope proper ends] at read
    cases found : scope.readings.find? name with
    | some place =>
      rw [found] at read
      exact evaluate_of_scan read
    | none =>
      rw [found] at read
      have value : (Operand.reading name).value scope = .error (.of .invalidReading) := by
        simp [Operand.value, found]
      rw [value]
      exact evaluate_of_scan_error read
  | .literal l =>
    have read := scan_literal scope proper rest
    rw [Attempt.map_apply, Literal.scan_text proper ends] at read
    cases valued : l.value with
    | ok v =>
      rw [valued] at read
      exact evaluate_of_scan read
    | error f =>
      rw [valued] at read
      have value : (Operand.literal l).value scope = .error f := valued
      rw [value]
      exact evaluate_of_scan_error read

theorem scanVariable_proper {scope : Scope} {text rest : Bytes} {o : Operand}
    (read : scanVariable scope text = .ok o rest) : o.Proper := by
  simp only [scanVariable, Attempt.bind_apply, Attempt.get_apply] at read
  cases found : scope.vars.find text with
  | error f => simp [found] at read
  | ok place =>
    obtain ⟨name, named, -, length⟩ := Variables.exists_of_find found
    obtain ⟨left, rfl, proper, -⟩ := exists_of_identifier? named
    simp only [found, Attempt.ofExcept_ok, Attempt.pure_apply, take, length,
      List.take_left'] at read
    cases read
    exact proper

theorem scanReading_proper {scope : Scope} {text rest : Bytes} {o : Operand}
    (read : scanReading scope text = .ok o rest) : o.Proper := by
  simp only [scanReading, Attempt.bind_apply, Attempt.get_apply] at read
  cases found : scope.readings.find? text with
  | none => simp [found] at read
  | some place =>
    obtain ⟨name, named, length⟩ := Readings.exists_of_find? found
    obtain ⟨left, rfl, proper, -⟩ := exists_of_identifier? named
    simp only [found, length] at read
    rw [Attempt.bind_apply] at read
    cases read
    simpa [Proper] using proper

/-- What a compiler reads as an operand is proper. -/
theorem scan_proper {scope : Scope} {text rest : Bytes} {o : Operand}
    (read : scan scope text = .ok o rest) : o.Proper := by
  rw [scan_apply] at read
  split at read
  · cases read
  · split_ifs at read
    · exact scanVariable_proper read
    · next b tail _ _ _ =>
      rw [Attempt.map_apply] at read
      split at read
      · next l left scanned =>
        cases read
        exact Literal.scan_proper scanned
      · cases read
    · exact scanReading_proper read

end Operand

namespace Operator

theorem isNameChar_sign (op : Operator) : Byte.isNameChar op.sign = false := by
  cases op <;> decide

end Operator

namespace Comparison

theorem sign_eq (c : Comparison) : c.sign = match c with
    | .equal => [0x3D, 0x3D]
    | .notEqual => [0x21, 0x3D]
    | .less => [0x3C]
    | .greater => [0x3E]
    | .lessEqual => [0x3C, 0x3D]
    | .greaterEqual => [0x3E, 0x3D] := by
  cases c <;> decide

/-- A comparison is read again in front of an operand, which does not start with `=`. -/
theorem scan?_sign (c : Comparison) {rest : Bytes} (apart : rest.head? ≠ some Byte.equals) :
    scan? (c.sign ++ rest) = .ok (some c) rest := by
  cases rest with
  | nil => cases c <;> rfl
  | cons b rest =>
    have apart : b ≠ 0x3D := by simpa using apart
    cases c <;> simp [scan?, all, sign_eq, apart.symm]

end Comparison

/-- The value of an expression: that of its operand, or of its operator at both operands. -/
def Expression.value (scope : Scope) : Expression → Except Fault Value
  | .single operand => operand.value scope
  | .binary left operator right => do
    let a ← left.value scope
    let b ← right.value scope
    operator.apply a b

/-- Whether a condition holds. -/
def Condition.holds (scope : Scope) (c : Condition) : Except Fault Bool := do
  let a ← c.left.value scope
  let b ← c.right.value scope
  return c.comparison.test a b

namespace Expression

/-- An expression of proper operands. -/
def Proper : Expression → Prop
  | .single operand => operand.Proper
  | .binary left _ right => left.Proper ∧ right.Proper

/-- The bytes of an expression are no control bytes. -/
theorem Proper.plain {e : Expression} (proper : e.Proper) :
    ∀ b ∈ e.text, Byte.isControl b = false := by
  intro b member
  match e with
  | .single operand => exact (Operand.Proper.plain (o := operand) proper b member).1
  | .binary left operator right =>
    rcases List.mem_append.mp member with inLeft | inRest
    · exact (proper.1.plain b inLeft).1
    · rcases List.mem_cons.mp inRest with rfl | inRight
      · cases operator <;> decide
      · exact (proper.2.plain b inRight).1

/-- The written form of an expression has the value of the expression. -/
theorem evaluate_text (scope : Scope) {e : Expression} (proper : e.Proper) :
    (evaluate scope).Gives e.text (e.value scope) [] := by
  match e with
  | .single operand =>
    have read := Operand.evaluate_text scope (o := operand) proper ends_nil
    rw [List.append_nil] at read
    have whole : (evaluate scope).Gives operand.text (operand.value scope >>= pure) [] := by
      refine read.bind fun v _ => ?_
      exact Gives.bind_ok (skipSpaces_apply []) (Gives.bind_ok rfl (Gives.of_eq rfl))
    rwa [bind_pure] at whole
  | .binary left operator right =>
    have apart : operator.sign ≠ Byte.space ∧ operator.sign ≠ Byte.comma := by
      cases operator <;> decide
    refine (Operand.evaluate_text scope proper.1 (ends_cons operator.isNameChar_sign)).bind
      fun a _ => ?_
    refine Gives.bind_ok (skipSpaces_of_ne _ apart.1) (Gives.bind_ok rfl ?_)
    rw [if_neg (by simpa using apart.2)]
    refine Gives.bind_ok (Operator.scan?_sign operator right.text) ?_
    have read := Operand.evaluate_text scope proper.2 ends_nil
    rw [List.append_nil] at read
    exact read.bind fun b _ => gives_ofExcept _ _

/-- What a compiler reads as an expression is proper. -/
theorem scan_proper {scope : Scope} {text rest : Bytes} {e : Expression}
    (read : scan scope text = .ok e rest) : e.Proper := by
  rw [← Attempt.success?_eq_some_iff] at read
  simp only [scan, Attempt.success?_bind, Option.bind_eq_some_iff, Prod.exists] at read
  obtain ⟨left, _, first, _, _, -, operator, _, -, chosen⟩ := read
  have leftProper := Operand.scan_proper (Attempt.success?_eq_some_iff.mp first)
  cases operator with
  | none =>
    cases chosen
    exact leftProper
  | some operator =>
    simp only [Attempt.success?_bind, Option.bind_eq_some_iff, Prod.exists] at chosen
    obtain ⟨right, _, second, last⟩ := chosen
    cases last
    exact ⟨leftProper, Operand.scan_proper (Attempt.success?_eq_some_iff.mp second)⟩

end Expression

namespace Condition

/-- A condition on proper operands. -/
def Proper (c : Condition) : Prop := c.left.Proper ∧ c.right.Proper

/-- The bytes of a condition are no control bytes and separate nothing. -/
theorem Proper.plain {c : Condition} (proper : c.Proper) :
    ∀ b ∈ c.text, Byte.isControl b = false ∧ b ≠ Byte.comma := by
  intro b member
  rcases List.mem_append.mp member with inFront | inRight
  · rcases List.mem_append.mp inFront with inLeft | inSign
    · exact ⟨(proper.1.plain b inLeft).1, (proper.1.plain b inLeft).2.1⟩
    · have inside : ∀ s ∈ c.comparison.sign, Byte.isControl s = false ∧ s ≠ Byte.comma := by
        cases c.comparison <;> decide +kernel
      exact inside b inSign
  · exact ⟨(proper.2.plain b inRight).1, (proper.2.plain b inRight).2.1⟩

/-- The written form of a condition holds just if the condition does. -/
theorem evaluate_text (scope : Scope) {c : Condition} (proper : c.Proper) {rest : Bytes}
    (ends : Ends rest) : (evaluate scope).Gives (c.text ++ rest) (c.holds scope) rest := by
  have signed : ∃ b tail, c.comparison.sign = b :: tail ∧ Byte.isNameChar b = false ∧
      b ≠ Byte.space := by
    cases c.comparison <;> exact ⟨_, _, Comparison.sign_eq _, by decide, by decide⟩
  obtain ⟨b, tail, sign, outside, solid⟩ := signed
  have apart : (c.right.text ++ rest).head? ≠ some Byte.equals := by
    intro first
    obtain ⟨b, tail, spelled⟩ := List.exists_cons_of_ne_nil proper.2.text_ne_nil
    have plain := proper.2.plain b (by simp [spelled])
    simp [spelled] at first
    exact plain.2.2 first
  have text : c.text ++ rest = c.left.text ++ (c.comparison.sign ++ (c.right.text ++ rest)) := by
    simp [Condition.text]
  have skipped : skipSpaces (c.comparison.sign ++ (c.right.text ++ rest)) =
      .ok 0 (c.comparison.sign ++ (c.right.text ++ rest)) := by
    rw [sign]
    exact skipSpaces_of_ne _ solid
  rw [text]
  refine (Operand.evaluate_text scope proper.1 (by rw [sign]; exact ends_cons outside)).bind
    fun a _ => ?_
  refine Gives.bind_ok skipped (Gives.bind_ok (Comparison.scan?_sign c.comparison apart) ?_)
  exact (Operand.evaluate_text scope proper.2 ends).bind fun b _ => Gives.of_eq rfl

/-- What a compiler reads as a condition is proper. -/
theorem scan_proper {scope : Scope} {text rest : Bytes} {c : Condition}
    (read : scan scope text = .ok c rest) : c.Proper := by
  rw [← Attempt.success?_eq_some_iff] at read
  simp only [scan, Attempt.success?_bind, Option.bind_eq_some_iff, Prod.exists] at read
  obtain ⟨left, _, first, _, _, -, comparison, _, -, chosen⟩ := read
  cases comparison with
  | none => cases chosen
  | some comparison =>
    simp only [Attempt.success?_bind, Option.bind_eq_some_iff, Prod.exists] at chosen
    obtain ⟨right, _, second, last⟩ := chosen
    cases last
    exact ⟨Operand.scan_proper (Attempt.success?_eq_some_iff.mp first),
      Operand.scan_proper (Attempt.success?_eq_some_iff.mp second)⟩

end Condition

end ControlScript
