import ControlScript.Proofs.Arithmetic
import ControlScript.Proofs.Wording

/-!
# Compiled expressions mean what the source says

A compiler keeps the words of an expression and drops the spaces between them, so that signs which
stood apart in the source stand side by side in the statement. Still the statement is read as the
source would be, with whatever values the variables have by then. What was read once is read the
same again with any other variables, from the source as well as from what was written of it; both
have the value that the words themselves have.

## Main definitions

* `Value.ofInt` — the value equal to a whole number
* `Bytes.IsBlank` — a text of spaces

## Main results

* `Operand.evaluate_of_scan_in`, `Expression.evaluate_of_scan_in`,
  `Condition.evaluate_of_scan_in` — what was read with one scope has its value in any other
* `Expression.evaluate_tenfold` — what a `wait` writes
* `Expression.written_eq_source` — what is written means what was read
-/

namespace ControlScript

open Bytes Scan

namespace Value

/-- The value equal to a whole number, if there is one. -/
def ofInt (n : Int) : Except Fault Value :=
  if -0x80000000 ≤ n ∧ n < 0x80000000 then .ok (Int32.ofInt n) else .error (.of .overflow)

theorem ofWide_eq_ofInt (n : Int64) : ofWide n = ofInt n.toInt := by
  unfold ofInt
  split
  · next range =>
    refine ofWide_eq_ok_iff.mpr ?_
    rw [Int32.toInt_ofInt_of_le range.1 range.2]
  · next range => exact ofWide_eq_error_iff.mpr ⟨rfl, range⟩

end Value

theorem Operator.apply_multiply (a b : Value) :
    apply .multiply a b = Value.ofInt (a.toInt * b.toInt) := by
  have defined : ¬(multiply.divides = true ∧ b = 0) := fun byZero => nomatch byZero.1
  have whole : ¬multiply.LacksQuotient a b := fun lacks => nomatch lacks.1
  obtain ⟨n, equal, narrows⟩ := exists_wide defined whole
  rw [narrows, Value.ofWide_eq_ofInt, equal]
  rfl

namespace Operand

/-- The spaces in front of an operand make no difference. -/
theorem gives_of_dropWhile {scope : Scope} {text rest : Bytes} {result : Except Fault Value}
    (gives : (evaluate scope).Gives (text.dropWhile (· == Byte.space)) result rest) :
    (evaluate scope).Gives text result rest := by
  have same : scan scope (text.dropWhile (· == Byte.space)) = scan scope text := by
    rw [scan_apply, scan_apply, List.dropWhile_idempotent]
  have same' : evaluate scope (text.dropWhile (· == Byte.space)) = evaluate scope text := by
    simp only [evaluate, Attempt.bind_apply, same]
  unfold Gives at gives ⊢
  rwa [same'] at gives

/-- An operand that was read with one scope has, where it was read, its value in any other. -/
theorem evaluate_of_scan_in {scope : Scope} (other : Scope) {text rest : Bytes} {o : Operand}
    (read : scan scope text = .ok o rest) : (evaluate other).Gives text (o.value other) rest := by
  have again := scan_apply other text
  rw [scan_apply] at read
  cases spelled : text.dropWhile (· == Byte.space) with
  | nil =>
    rw [spelled] at read
    cases read
  | cons b tail =>
    rw [spelled] at read again
    dsimp only at read again
    split_ifs at read again with _ _ mark
    -- A name ends where it did, whether or not the other scope knows it.
    · obtain ⟨name, named, split, rfl, -⟩ := exists_of_scanVariable read
      obtain ⟨left, same, proper, ends⟩ := exists_of_identifier? named
      obtain rfl : rest = left := List.append_cancel_left (split.symm.trans same)
      refine gives_of_dropWhile ?_
      rw [spelled, split]
      exact evaluate_text other (o := .variable name) proper ends
    · exact evaluate_of_scan (again.trans read)
    · obtain ⟨name, named, rfl, rfl, -⟩ := exists_of_scanReading read
      obtain ⟨left, same, proper, ends⟩ := exists_of_identifier? named
      obtain rfl : rest = left := List.append_cancel_left same
      refine gives_of_dropWhile ?_
      rw [spelled, mark]
      exact evaluate_text other (o := .reading name) proper ends

end Operand

/-- Nothing but spaces is left where a compiler has read what a line goes on with. -/
def Bytes.IsBlank (rest : Bytes) : Prop := ∀ b ∈ rest, b = Byte.space

/-- Behind the spaces there is nothing left. -/
theorem Bytes.IsBlank.eq_nil {text rest : Bytes} {spaces : Nat}
    (skipped : skipSpaces text = .ok spaces rest) (blank : rest.IsBlank) : rest = [] := by
  rw [skipSpaces_apply] at skipped
  cases skipped
  cases left : text.dropWhile (· == Byte.space) with
  | nil => rfl
  | cons b tail =>
    have solid := head?_dropWhile (· == Byte.space) text b (by simp [left])
    simp [blank b (by simp [left])] at solid

theorem Operator.eq_of_scan? {text rest : Bytes} {op : Operator}
    (read : scan? text = .ok (some op) rest) : text = op.sign :: rest := by
  unfold scan? at read
  split at read
  · cases read
  · next b tail =>
    split at read
    · next op' found =>
      cases read
      have same : op.sign = b := by simpa using List.find?_some found
      rw [same]
    · cases read

theorem Operator.eq_of_scan?_none {text rest : Bytes} (read : scan? text = .ok none rest) :
    rest = text := by
  unfold scan? at read
  split at read
  · cases read
    rfl
  · split at read
    · cases read
    · cases read
      rfl

/-- An expression that was read with one scope has, where it was read, its value in any other. -/
theorem Expression.evaluate_of_scan_in {scope : Scope} (other : Scope) {text rest : Bytes}
    {e : Expression} (read : scan scope text = .ok e rest) (blank : rest.IsBlank) :
    (evaluate other).Gives text (e.value other) rest := by
  rw [← Attempt.success?_eq_some_iff] at read
  simp only [scan, Attempt.success?_bind, Option.bind_eq_some_iff, Prod.exists] at read
  obtain ⟨left, behind, first, spaces, middle, skipped, operator, after, signed, chosen⟩ := read
  rw [Attempt.success?_eq_some_iff] at first skipped signed
  have leftValue := Operand.evaluate_of_scan_in other first
  cases operator with
  | none =>
    cases chosen
    obtain rfl := Operator.eq_of_scan?_none signed
    obtain rfl := blank.eq_nil skipped
    have whole : (evaluate other).Gives text (left.value other >>= pure) [] :=
      leftValue.bind fun v _ => Gives.bind_ok skipped (Gives.bind_ok rfl (Gives.of_eq rfl))
    rwa [bind_pure] at whole
  | some operator =>
    simp only [Attempt.success?_bind, Option.bind_eq_some_iff, Prod.exists] at chosen
    obtain ⟨right, _, second, last⟩ := chosen
    cases last
    obtain rfl := Operator.eq_of_scan? signed
    have apart : operator.sign ≠ Byte.comma := by cases operator <;> decide
    refine leftValue.bind fun a _ => Gives.bind_ok skipped (Gives.bind_ok rfl ?_)
    rw [if_neg (by simpa using apart)]
    refine Gives.bind_ok signed ?_
    rw [Attempt.success?_eq_some_iff] at second
    exact (Operand.evaluate_of_scan_in other second).bind fun b _ => gives_ofExcept _ _

/-- A condition that was read with one scope holds in another, where it was read, as it does there. -/
theorem Condition.evaluate_of_scan_in {scope : Scope} (other : Scope) {text rest : Bytes}
    {c : Condition} (read : scan scope text = .ok c rest) :
    (evaluate other).Gives text (c.holds other) rest := by
  rw [← Attempt.success?_eq_some_iff] at read
  simp only [scan, Attempt.success?_bind, Option.bind_eq_some_iff, Prod.exists] at read
  obtain ⟨left, behind, first, spaces, middle, skipped, comparison, after, signed, chosen⟩ := read
  rw [Attempt.success?_eq_some_iff] at first skipped signed
  cases comparison with
  | none => cases chosen
  | some comparison =>
    simp only [Attempt.success?_bind, Option.bind_eq_some_iff, Prod.exists] at chosen
    obtain ⟨right, _, second, last⟩ := chosen
    cases last
    rw [Attempt.success?_eq_some_iff] at second
    refine (Operand.evaluate_of_scan_in other first).bind fun a _ =>
      Gives.bind_ok skipped (Gives.bind_ok signed ?_)
    exact (Operand.evaluate_of_scan_in other second).bind fun b _ => Gives.of_eq rfl

/-- What is read leaves what it gives. -/
theorem Scan.Gives.left_eq {α : Type} {x : Scan α} {text rest left : Bytes}
    {result : Except Fault α} {a : α} (gives : x.Gives text result rest)
    (read : x text = .ok a left) : left = rest := by
  cases result with
  | ok b =>
    have same : x text = .ok b rest := gives
    rw [same] at read
    cases read
    rfl
  | error f =>
    obtain ⟨_, stopped⟩ := gives
    rw [stopped] at read
    cases read

/-- In front of what is no part of it, what is written of a condition means what was read, and all
of it is read. -/
theorem Condition.evaluate_written {scope : Scope} (other : Scope) {text rest behind : Bytes}
    {c : Condition} (read : scan scope text = .ok c rest) (ends : Ends behind) :
    Attempt.outcome (evaluate other (c.text ++ behind)) =
        Attempt.outcome (evaluate other text) ∧
      ∀ holds left, evaluate other (c.text ++ behind) = .ok holds left → left = behind := by
  have written := evaluate_text other (scan_proper read) ends
  refine ⟨?_, fun holds left evaluated => written.left_eq evaluated⟩
  rw [written.outcome, (evaluate_of_scan_in other read).outcome]

/-- The number of tenths in one. -/
def Operand.ten : Operand := .literal { digits := Bytes.ofString "10" }

theorem Operand.proper_ten : ten.Proper := ⟨by decide, by decide +kernel⟩

theorem Operand.value_ten (scope : Scope) : ten.value scope = .ok 10 := by
  have literal : Literal.value { digits := Bytes.ofString "10" } = .ok 10 := by decide +kernel
  exact literal

/-- The operand that a line waits for is emitted with the factor behind it. -/
theorem Compile.exists_of_wait {d d' : Draft} (waits : wait d = .ok () d') :
    ∃ o, Operand.scan d.scope d.rest = .ok o d'.rest ∧
      d'.emitted = d.emitted ++ [.delay (.binary o .multiply .ten)] := by
  rw [wait, Attempt.bind_apply, operand, Attempt.bind_apply, Attempt.get_apply] at waits
  dsimp only [scanning, Attempt.on] at waits
  cases read : Operand.scan d.scope d.rest with
  | ok o rest =>
    rw [read] at waits
    cases waits
    exact ⟨o, rfl, rfl⟩
  | error f rest =>
    rw [read] at waits
    cases waits

/-- With the factor behind it an operand has ten times its value, if there is such a value. -/
theorem Expression.evaluate_tenfold (scope : Scope) {o : Operand} (proper : o.Proper) :
    (evaluate scope).Gives (binary o .multiply .ten).text
      (o.value scope >>= fun v => Value.ofInt (10 * v.toInt)) [] := by
  have read := evaluate_text scope (e := .binary o .multiply .ten) ⟨proper, Operand.proper_ten⟩
  have times (v : Value) : Operator.multiply.apply v 10 = Value.ofInt (10 * v.toInt) := by
    rw [Operator.apply_multiply, Int.mul_comm]
    rfl
  have value : (binary o .multiply .ten).value scope =
      o.value scope >>= fun v => Value.ofInt (10 * v.toInt) := by
    simp only [Expression.value, Operand.value_ten]
    exact bind_congr times
  rwa [value] at read

open Attempt in
/-- What a compiler writes of a text means what the text says. -/
theorem Expression.written_eq_source (vs : Variables) (readings : Readings) (text : Bytes) :
    let atCompilation : Scope := { vars := vs, readings }
    (∀ e rest, scan atCompilation text = .ok e rest → (∀ b ∈ rest, b = Byte.space) →
      ∀ ws : Variables, let later : Scope := { vars := ws, readings }
        outcome (evaluate later e.text) = outcome (evaluate later text)) ∧
    (∀ c rest, Condition.scan atCompilation text = .ok c rest → (∀ b ∈ rest, b = Byte.space) →
      ∀ (ws : Variables) (n : Nat), let later : Scope := { vars := ws, readings }
        let behind := Byte.comma :: Instruction.labelBytes n
        outcome (Condition.evaluate later (c.text ++ behind)) =
            outcome (Condition.evaluate later text) ∧
          ∀ holds left, Condition.evaluate later (c.text ++ behind) = .ok holds left →
            left = behind) ∧
    ∀ d d' : Draft, d.scope = atCompilation → d.rest = text → Compile.wait d = .ok () d' →
      ∃ o tenths, Operand.scan atCompilation text = .ok o d'.rest ∧
        d'.emitted = d.emitted ++ [.delay tenths] ∧ tenths.text = o.text ++ ofString "*10" ∧
        ∀ ws : Variables, let later : Scope := { vars := ws, readings }
          outcome (evaluate later tenths.text) =
            outcome (Operand.evaluate later text) >>= fun v => Value.ofInt (10 * v.toInt) := by
  refine ⟨?_, ?_, ?_⟩
  · intro e rest read blank ws
    have written := evaluate_text { vars := ws, readings } (scan_proper read)
    exact written.outcome.trans (evaluate_of_scan_in _ read blank).outcome.symm
  · intro c rest read _ ws n
    -- No operand goes on with a comma.
    exact Condition.evaluate_written _ read (ends_cons (by decide))
  · intro d d' placed begins waits
    obtain ⟨o, read, emitted⟩ := Compile.exists_of_wait waits
    rw [placed, begins] at read
    refine ⟨o, .binary o .multiply .ten, read, emitted, rfl, ?_⟩
    intro ws later
    have own := Operand.evaluate_of_scan_in later read
    rw [own.outcome]
    exact (evaluate_tenfold later (Operand.scan_proper read)).outcome

/-- Two signs in a row, a sign behind a comparison, and a wait that is too long for a value. When the
texts were read, the variable had no value yet. -/
theorem Expression.written_eq_source_of_signs :
    let name := Bytes.ofString "x"
    let vs : Variables := { capacity := 2, nameLength := 4, entries := [{ name }] }
    let ws : Variables := { vs with entries := [{ name, value := some 214748365 }] }
    let three : Operand := .literal { sign := some .minus, digits := Bytes.ofString "3" }
    let difference := Expression.binary (.variable name) .subtract three
    let less : Condition := ⟨.variable name, .less, three⟩
    let before : Scope := { vars := vs, readings := {} }
    let later : Scope := { vars := ws, readings := {} }
    let d : Draft := { rest := name, compiler := .ofLimits {}, scope := before }
    scan before (ofString " x - -3 ") = .ok difference (ofString " ") ∧
      difference.text = ofString "x--3" ∧
      Attempt.outcome (evaluate later difference.text) =
        Attempt.outcome (evaluate later (ofString " x - -3 ")) ∧
      Attempt.outcome (evaluate later difference.text) = .ok 214748368 ∧
      Condition.scan before (ofString "x < -3") = .ok less [] ∧
      Attempt.outcome (Condition.evaluate later (less.text ++ ofString ",l12")) =
        Attempt.outcome (Condition.evaluate later (ofString "x < -3")) ∧
      (∃ d', Compile.wait d = .ok () d' ∧ ∃ tenths, d'.emitted = [.delay tenths] ∧
        Attempt.outcome (evaluate later tenths.text) = .error (.of .overflow)) := by
  intro name vs ws three difference less before later d
  have first : scan before (ofString " x - -3 ") = .ok difference (ofString " ") := rfl
  have second : Condition.scan before (ofString "x < -3") = .ok less [] := rfl
  obtain ⟨d', waits⟩ : ∃ d', Compile.wait d = .ok () d' := ⟨_, rfl⟩
  have blank : ∀ b ∈ ofString " ", b = Byte.space := by decide +kernel
  have agree := (written_eq_source vs {} (ofString " x - -3 ")).1 difference _ first blank ws
  have agree' := (written_eq_source vs {} (ofString "x < -3")).2.1 less [] second (by simp) ws 12
  obtain ⟨o, tenths, -, emitted, -, product⟩ := (written_eq_source vs {} name).2.2 d d' rfl rfl waits
  refine ⟨first, by decide +kernel, agree, by decide +kernel, second, ?_, d', waits, tenths, emitted, ?_⟩
  · exact agree'.1
  · exact (product ws).trans (by decide +kernel)

end ControlScript
