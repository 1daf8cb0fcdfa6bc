import ControlScript.Proofs.Arithmetic
import ControlScript.Proofs.Expressions
import Mathlib.Data.List.Induction
import Mathlib.Data.Nat.Digits.Defs

/-!
# Numerals

The digits of a literal are taken in from the first to the last, and a number that has become too
great for a value is given up at once. Since more digits never make a number smaller, nothing is
given up too early; and since what is kept is at most the magnitude of the least value, 64 bits always
hold the number with the next digit. So a literal has the value that its digits and its sign spell,
however many digits there are, or it overflows.

## Main definitions

* `Bytes.numeral`, `Literal.number` — the number that digits spell, and a literal
* `Literal.StaysExact` — taking digits in never wraps

## Main results

* `Literal.magnitude?_eq` — the number of digits, as far as it is the magnitude of a value
* `Literal.staysExact` — the 64 bits are always enough
* `Literal.reads_number` — what reading a literal comes to
-/

namespace ControlScript

namespace Bytes

/-- The number that decimal digits spell, the first of them counting most. -/
def numeral (digits : Bytes) : Nat :=
  Nat.ofDigits 10 (digits.reverse.map fun d => d.toNat - Byte.zero.toNat)

/-- One more digit makes ten times as much of those before it. -/
theorem numeral_concat (digits : Bytes) (d : UInt8) :
    numeral (digits ++ [d]) = 10 * numeral digits + (d.toNat - Byte.zero.toNat) := by
  rw [numeral, List.reverse_concat, List.map_cons, Nat.ofDigits_cons, Nat.add_comm]
  rfl

end Bytes

namespace Literal

open Bytes Value

variable {digits before rest : Bytes} {d : UInt8} {n : Int64}

/-- The whole number that a literal spells. -/
def number (l : Literal) : Int :=
  if l.sign = some .minus then -numeral l.digits else numeral l.digits

/-- Taking in one digit after the other, each product and sum is exact in 64 bits, and so is the
opposite in the end. -/
structure StaysExact (digits : Bytes) : Prop where
  product : ∀ before n, before <+: digits → magnitude? before = some n →
    (n * 10).toInt = 10 * (numeral before : Int)
  sum : ∀ before d n, before ++ [d] <+: digits → magnitude? before = some n →
    (n * 10 + (d - Byte.zero).toUInt64.toInt64).toInt = numeral (before ++ [d])
  opposite : ∀ n, magnitude? digits = some n → (-n).toInt = -(numeral digits : Int)

theorem lt_of_isDigit (digit : Byte.isDigit d = true) : d.toNat - Byte.zero.toNat < 10 := by
  simp only [Byte.isDigit, Bool.and_eq_true, decide_eq_true_eq, UInt8.le_iff_toNat_le] at digit
  simp only [UInt8.reduceToNat] at digit
  change d.toNat - 48 < 10
  omega

/-- A digit is widened to its number. -/
theorem widen_digit (digit : Byte.isDigit d = true) :
    (d - Byte.zero).toUInt64.toInt64 = Int64.ofNat (d.toNat - Byte.zero.toNat) := by
  have above : Byte.zero ≤ d := by
    simp only [Byte.isDigit, Bool.and_eq_true, decide_eq_true_eq] at digit
    exact digit.1
  rw [← UInt8.toNat_sub_of_le d Byte.zero above, ← UInt64.toInt64_ofNat', ← UInt8.toNat_toUInt64,
    UInt64.ofNat_toNat]

/-- The next digit is taken in. -/
theorem next_eq (digits : Bytes) (digit : Byte.isDigit d = true) :
    Int64.ofNat (numeral digits) * 10 + (d - Byte.zero).toUInt64.toInt64 =
      Int64.ofNat (numeral (digits ++ [d])) := by
  rw [widen_digit digit, numeral_concat, Int64.ofNat_add, Int64.ofNat_mul, Int64.mul_comm]
  rfl

/-- A number that was kept, with the next digit, is far below what 64 bits hold. -/
theorem numeral_concat_le (digit : Byte.isDigit d = true) (kept : numeral digits ≤ 2 ^ 31) :
    numeral (digits ++ [d]) ≤ 10 * 2 ^ 31 + 9 := by
  have small := lt_of_isDigit digit
  rw [numeral_concat]
  omega

/-- One step of taking digits in. -/
theorem takeDigit_numeral (digit : Byte.isDigit d = true) (kept : numeral digits ≤ 2 ^ 31) :
    takeDigit (Int64.ofNat (numeral digits)) d =
      if numeral (digits ++ [d]) ≤ 2 ^ 31 then some (Int64.ofNat (numeral (digits ++ [d])))
      else none := by
  have bound := numeral_concat_le digit kept
  have next : (Int64.ofNat (numeral (digits ++ [d]))).toInt = numeral (digits ++ [d]) :=
    Int64.toInt_ofNat_of_lt (by omega)
  have greatest : maxMagnitude.toInt = 2 ^ 31 := by decide
  have compared : Int64.ofNat (numeral (digits ++ [d])) ≤ maxMagnitude ↔
      numeral (digits ++ [d]) ≤ 2 ^ 31 := by
    rw [Int64.le_iff_toInt_le, next, greatest]
    omega
  unfold takeDigit
  dsimp only
  rw [next_eq digits digit]
  simp only [compared]

/-- The number that digits spell is found as far as it is the magnitude of a value. The induction is
on the last digit: once a number is too great, it stays so. -/
theorem magnitude?_eq (decimal : ∀ d ∈ digits, Byte.isDigit d = true) :
    magnitude? digits =
      if numeral digits ≤ 2 ^ 31 then some (Int64.ofNat (numeral digits)) else none := by
  induction digits using List.reverseRecOn with
  | nil => rfl
  | append_singleton digits d ih =>
    obtain ⟨decimal, last⟩ := List.forall_mem_append.mp decimal
    have digit := last d (List.mem_singleton_self d)
    have split : magnitude? (digits ++ [d]) = (magnitude? digits).bind (takeDigit · d) := by
      simp [magnitude?, List.foldlM_append]
    rw [split, ih decimal]
    by_cases kept : numeral digits ≤ 2 ^ 31
    · rw [if_pos kept, Option.bind_some, takeDigit_numeral digit kept]
    · -- What was given up already would only have become greater.
      have greater : ¬numeral (digits ++ [d]) ≤ 2 ^ 31 := by
        rw [numeral_concat]
        omega
      rw [if_neg kept, if_neg greater, Option.bind_none]

/-- What was kept is exact. -/
theorem eq_of_magnitude? (decimal : ∀ d ∈ digits, Byte.isDigit d = true)
    (kept : magnitude? digits = some n) :
    n = Int64.ofNat (numeral digits) ∧ numeral digits ≤ 2 ^ 31 := by
  rw [magnitude?_eq decimal] at kept
  split at kept
  · next small => exact ⟨(Option.some.inj kept).symm, small⟩
  · cases kept

theorem staysExact (decimal : ∀ d ∈ digits, Byte.isDigit d = true) : StaysExact digits where
  product before n starts kept := by
    obtain ⟨rfl, small⟩ := eq_of_magnitude? (fun d member => decimal d (starts.subset member)) kept
    have ten : Int64.ofNat (numeral before) * 10 = Int64.ofNat (numeral before * 10) :=
      (Int64.ofNat_mul (numeral before) 10).symm
    rw [ten, Int64.toInt_ofNat_of_lt (by omega)]
    omega
  sum before d n starts kept := by
    have inside := fun d' member => decimal d' (starts.subset member)
    obtain ⟨decimal, last⟩ := List.forall_mem_append.mp inside
    have digit := last d (List.mem_singleton_self d)
    obtain ⟨rfl, small⟩ := eq_of_magnitude? decimal kept
    have bound := numeral_concat_le digit small
    rw [next_eq before digit, Int64.toInt_ofNat_of_lt (by omega)]
  opposite n kept := by
    obtain ⟨rfl, small⟩ := eq_of_magnitude? decimal kept
    rw [Int64.toInt_neg, Int64.toInt_ofNat_of_lt (by omega)]
    exact Int.bmod_eq_of_le (by omega) (by omega)

/-! ### The value of a literal -/

variable {l : Literal}

/-- What the value of a literal is narrowed from. A number that was given up is no value, whatever
its sign. -/
theorem value_cases (decimal : ∀ d ∈ l.digits, Byte.isDigit d = true) :
    (∃ n : Int64, n.toInt = l.number ∧ l.value = ofWide n) ∨
      ¬InRange l.number ∧ l.value = .error (.of .overflow) := by
  have magnitude := magnitude?_eq decimal
  unfold value number
  by_cases kept : numeral l.digits ≤ 2 ^ 31
  · rw [if_pos kept] at magnitude
    rw [magnitude]
    refine .inl ⟨_, ?_, rfl⟩
    split
    · exact (staysExact decimal).opposite _ magnitude
    · exact Int64.toInt_ofNat_of_lt (by omega)
  · rw [if_neg kept] at magnitude
    rw [magnitude]
    refine .inr ⟨?_, rfl⟩
    unfold InRange
    split <;> omega

/-- A literal has the value that it spells, if there is one. -/
theorem exists_value (decimal : ∀ d ∈ l.digits, Byte.isDigit d = true)
    (inRange : InRange l.number) : ∃ v, l.value = .ok v ∧ v.toInt = l.number := by
  obtain ⟨n, equal, narrows⟩ | ⟨outside, -⟩ := value_cases decimal
  · rw [narrows, ← equal]
    exact exists_ofWide (equal ▸ inRange)
  · exact absurd inRange outside

/-- Any other literal overflows. -/
theorem value_eq_overflow (decimal : ∀ d ∈ l.digits, Byte.isDigit d = true)
    (outside : ¬InRange l.number) : l.value = .error (.of .overflow) := by
  obtain ⟨n, equal, narrows⟩ | ⟨-, overflows⟩ := value_cases decimal
  · rw [narrows, ofWide_eq_overflow_iff, equal]
    exact outside
  · exact overflows

/-- A text of an optional sign, of digits and of a rest that does not go on with them is read up to
the rest. Digits give the value that they spell with their sign, or they overflow if it is none. It
makes no difference how many there are, and taking them in never leaves 64 bits. Without digits there
is no operand. -/
theorem reads_number (scope : Scope) (decimal : ∀ d ∈ l.digits, Byte.isDigit d = true)
    (ends : ∀ b ∈ rest.head?, Byte.isDigit b = false) :
    (l.digits ≠ [] →
      (InRange l.number → ∃ v, v.toInt = l.number ∧ l.value = .ok v ∧
        scan (l.text ++ rest) = .ok l rest ∧
        Operand.evaluate scope (l.text ++ rest) = .ok v rest) ∧
      (¬InRange l.number → scan (l.text ++ rest) = .error (.of .overflow) rest ∧
        Operand.evaluate scope (l.text ++ rest) = .error (.of .overflow) rest)) ∧
    (l.digits = [] → (l.sign = none → ∀ b ∈ rest.head?, b ≠ Byte.minus ∧ b ≠ Byte.plus) →
      scan (l.text ++ rest) = .error (.of .invalidOperand) rest) ∧
    StaysExact l.digits := by
  refine ⟨fun nonempty => ?_, fun none unsigned => ?_, staysExact decimal⟩
  · have proper : l.Proper := ⟨nonempty, decimal⟩
    have read := scan_append decimal ends fun _ => proper.unsigned rest
    rw [if_neg (by simpa using nonempty)] at read
    have operand := Operand.scan_literal scope proper rest
    rw [Attempt.map_apply] at operand
    refine ⟨fun inRange => ?_, fun outside => ?_⟩
    · obtain ⟨v, valued, equal⟩ := exists_value decimal inRange
      rw [valued] at read
      rw [read] at operand
      have gives := Operand.evaluate_of_scan operand
      rw [show (Operand.literal l).value scope = .ok v from valued] at gives
      exact ⟨v, equal, valued, read, gives⟩
    · rw [value_eq_overflow decimal outside] at read
      rw [read] at operand
      exact ⟨read, by rw [Operand.evaluate, Attempt.bind_apply, operand]⟩
  · have read := scan_append decimal ends (by simpa [none] using unsigned)
    rwa [if_pos (by simpa using none)] at read

/-- The least value, with zeros in front of it: its digits alone would spell no value. -/
theorem reads_number_of_least :
    let l : Literal := { sign := some .minus, digits := ofString "002147483648" }
    let scope : Scope := { vars := .ofLimits {}, readings := {} }
    (∀ d ∈ l.digits, Byte.isDigit d = true) ∧
      (∀ b ∈ [Byte.comma].head?, Byte.isDigit b = false) ∧ l.digits ≠ [] ∧ InRange l.number ∧
      ¬InRange (numeral l.digits) ∧
      ∃ v, v.toInt = -2147483648 ∧
        Operand.evaluate scope (l.text ++ [Byte.comma]) = .ok v [Byte.comma] := by
  intro l scope
  have decimal : ∀ d ∈ l.digits, Byte.isDigit d = true := by decide +kernel
  have ends : ∀ b ∈ [Byte.comma].head?, Byte.isDigit b = false := by decide +kernel
  have nonempty : l.digits ≠ [] := by decide +kernel
  have number : l.number = -2147483648 := by decide +kernel
  have inRange : InRange l.number := by rw [number]; decide
  obtain ⟨v, equal, -, -, evaluates⟩ :=
    ((reads_number scope decimal ends).1 nonempty).1 inRange
  exact ⟨decimal, ends, nonempty, inRange, by decide +kernel, v, equal.trans number, evaluates⟩

end Literal

end ControlScript
