import ControlScript.Expression.Operator
import Mathlib.Algebra.Group.Nat.Defs
import Mathlib.Algebra.Ring.Int.Defs

/-!
# Exact arithmetic

An operation on values has the result that it has over the whole numbers, or it stops with a fault
where this is no value. It is computed in 64 bits, which do not wrap for two values; so nothing but
narrowing the result can fail. A remainder is taken only after its quotient, and the least value has
no quotient by `-1`: this is the only operation that stops although its result is a value.

## Main definitions

* `Value.InRange` — the whole numbers that are values
* `Operator.exact` — the result over the whole numbers
* `Operator.LacksQuotient` — the remainder that is not taken

## Main results

* `Operator.inRange_tdiv_iff` — the quotients that are values
* `Operator.exists_wide` — the result in 64 bits is exact
* `Operator.apply_exact` — the outcome of every operation
-/

namespace ControlScript

namespace Value

/-- The whole numbers that are values. -/
def InRange (n : Int) : Prop := -2 ^ 31 ≤ n ∧ n ≤ 2 ^ 31 - 1

instance (n : Int) : Decidable (InRange n) := inferInstanceAs (Decidable (_ ∧ _))

theorem inRange_toInt (v : Value) : InRange v.toInt := by
  have lower := v.le_toInt
  have upper := v.toInt_lt
  unfold InRange
  omega

/-- A number of 64 bits is given up just if it is no value. -/
theorem ofWide_eq_overflow_iff {n : Int64} :
    ofWide n = .error (.of .overflow) ↔ ¬InRange n.toInt := by
  rw [ofWide_eq_error_iff, and_iff_right rfl]
  unfold InRange
  omega

/-- Any other is narrowed to the value equal to it. -/
theorem exists_ofWide {n : Int64} (inRange : InRange n.toInt) :
    ∃ v, ofWide n = .ok v ∧ v.toInt = n.toInt := by
  cases narrowed : ofWide n with
  | ok v => exact ⟨v, rfl, ofWide_eq_ok_iff.mp narrowed⟩
  | error f =>
    obtain ⟨rfl, -⟩ := ofWide_eq_error_iff.mp narrowed
    exact absurd inRange (ofWide_eq_overflow_iff.mp narrowed)

end Value

namespace Operator

open Value

/-- The operators that divide. -/
def divides : Operator → Bool
  | .divide | .modulus => true
  | .add | .subtract | .multiply => false

/-- The result over the whole numbers. A quotient is cut off toward zero, and a remainder is what the
quotient leaves. -/
def exact : Operator → Int → Int → Int
  | .add, x, y => x + y
  | .subtract, x, y => x - y
  | .multiply, x, y => x * y
  | .divide, x, y => x.tdiv y
  | .modulus, x, y => x.tmod y

/-- The remainder that is not taken, since there is no quotient. -/
def LacksQuotient (op : Operator) (a b : Value) : Prop :=
  op = .modulus ∧ a = Int32.minValue ∧ b = -1

variable {x y : Int}

/-- A quotient of values is a value, but for that of the least one by `-1`. -/
theorem inRange_tdiv_iff (inRange : InRange x) (nonzero : y ≠ 0) :
    InRange (x.tdiv y) ↔ ¬(x = -2 ^ 31 ∧ y = -1) := by
  unfold InRange at *
  by_cases minus : y = -1
  · rw [minus, Int.tdiv_neg, Int.tdiv_one]
    omega
  by_cases one : y = 1
  · rw [one, Int.tdiv_one]
    omega
  -- Any other divisor leaves at most the half.
  have half : (x.tdiv y).natAbs ≤ x.natAbs / 2 := by
    rw [Int.natAbs_tdiv]
    exact Nat.div_le_div_left (by omega) (by decide)
  omega

/-- The results of operations on values are far below what 64 bits hold. -/
theorem natAbs_exact_le (op : Operator) (left : InRange x) (right : InRange y) :
    (op.exact x y).natAbs ≤ 2 ^ 62 := by
  have left : x.natAbs ≤ 2 ^ 31 := by unfold InRange at left; omega
  have right : y.natAbs ≤ 2 ^ 31 := by unfold InRange at right; omega
  cases op with
  | add =>
    change (x + y).natAbs ≤ _
    omega
  | subtract =>
    change (x - y).natAbs ≤ _
    omega
  | multiply =>
    calc (x * y).natAbs = x.natAbs * y.natAbs := Int.natAbs_mul x y
      _ ≤ 2 ^ 31 * 2 ^ 31 := Nat.mul_le_mul left right
      _ = 2 ^ 62 := rfl
  | divide =>
    calc (x.tdiv y).natAbs ≤ x.natAbs := Int.natAbs_tdiv_le_natAbs x y
      _ ≤ 2 ^ 31 := left
      _ ≤ 2 ^ 62 := by decide
  | modulus =>
    calc (x.tmod y).natAbs = x.natAbs % y.natAbs := Int.natAbs_tmod x y
      _ ≤ x.natAbs := Nat.mod_le _ _
      _ ≤ 2 ^ 31 := left
      _ ≤ 2 ^ 62 := by decide

/-- So 64 bits do not wrap. -/
theorem bmod_exact (op : Operator) (a b : Value) :
    (op.exact a.toInt b.toInt).bmod (2 ^ 64) = op.exact a.toInt b.toInt := by
  have bound := op.natAbs_exact_le a.inRange_toInt b.inRange_toInt
  exact Int.bmod_eq_of_le (by omega) (by omega)

/-- What an operation narrows is the exact result. -/
theorem exists_wide {op : Operator} {a b : Value} (defined : ¬(op.divides = true ∧ b = 0))
    (whole : ¬op.LacksQuotient a b) :
    ∃ n : Int64, n.toInt = op.exact a.toInt b.toInt ∧ op.apply a b = ofWide n := by
  have wide := op.bmod_exact a b
  cases op with
  | add =>
    refine ⟨a.toInt64 + b.toInt64, ?_, rfl⟩
    rw [Int64.toInt_add, Int32.toInt_toInt64, Int32.toInt_toInt64]
    exact wide
  | subtract =>
    refine ⟨a.toInt64 - b.toInt64, ?_, rfl⟩
    rw [Int64.toInt_sub, Int32.toInt_toInt64, Int32.toInt_toInt64]
    exact wide
  | multiply =>
    refine ⟨a.toInt64 * b.toInt64, ?_, rfl⟩
    rw [Int64.toInt_mul, Int32.toInt_toInt64, Int32.toInt_toInt64]
    exact wide
  | divide =>
    have nonzero : b ≠ 0 := fun zero => defined ⟨rfl, zero⟩
    refine ⟨a.toInt64 / b.toInt64, ?_, if_neg nonzero⟩
    rw [Int64.toInt_div, Int32.toInt_toInt64, Int32.toInt_toInt64]
    exact wide
  | modulus =>
    -- The remainder itself always fits, but it is narrowed only after the quotient.
    have nonzero : b ≠ 0 := fun zero => defined ⟨rfl, zero⟩
    have quotient : (a.toInt64 / b.toInt64).toInt = a.toInt.tdiv b.toInt := by
      rw [Int64.toInt_div, Int32.toInt_toInt64, Int32.toInt_toInt64]
      exact divide.bmod_exact a b
    have inRange : InRange (a.toInt64 / b.toInt64).toInt := by
      rw [quotient, inRange_tdiv_iff a.inRange_toInt fun zero => nonzero (Int32.toInt_inj.mp zero)]
      rintro ⟨least, minus⟩
      exact whole ⟨rfl, Int32.toInt_inj.mp least, Int32.toInt_inj.mp minus⟩
    obtain ⟨q, narrowed, -⟩ := exists_ofWide inRange
    refine ⟨a.toInt64 % b.toInt64, ?_, ?_⟩
    · rw [Int64.toInt_mod, Int32.toInt_toInt64, Int32.toInt_toInt64]
      rfl
    · change (if b = 0 then _ else ofWide (a.toInt64 / b.toInt64) >>= fun _ => _) = _
      rw [if_neg nonzero, narrowed]
      rfl

theorem apply_of_byZero {op : Operator} {a b : Value} (byZero : op.divides = true ∧ b = 0) :
    op.apply a b = .error (.of .divisionByZero) := by
  obtain ⟨divides, rfl⟩ := byZero
  cases op with
  | divide | modulus => rfl
  | add | subtract | multiply => cases divides

theorem apply_of_lacksQuotient {op : Operator} {a b : Value} (lacks : op.LacksQuotient a b) :
    op.apply a b = .error (.of .overflow) := by
  obtain ⟨rfl, rfl, rfl⟩ := lacks
  rfl

/-- An operation that does not stop has its exact result. -/
theorem toInt_of_apply {op : Operator} {a b v : Value} (done : op.apply a b = .ok v) :
    v.toInt = op.exact a.toInt b.toInt := by
  have defined : ¬(op.divides = true ∧ b = 0) := fun byZero => by
    cases done.symm.trans (apply_of_byZero byZero)
  have whole : ¬op.LacksQuotient a b := fun lacks => by
    cases done.symm.trans (apply_of_lacksQuotient lacks)
  obtain ⟨n, equal, narrows⟩ := exists_wide defined whole
  exact (ofWide_eq_ok_iff.mp (narrows.symm.trans done)).trans equal

/-- A quotient and its remainder make up what was divided, and the remainder has the sign of it. -/
theorem divide_modulus {a b q m : Value} (quotient : divide.apply a b = .ok q)
    (remainder : modulus.apply a b = .ok m) :
    q.toInt * b.toInt + m.toInt = a.toInt ∧
      (m.toInt = 0 ∨ m.toInt.sign = a.toInt.sign) := by
  rw [toInt_of_apply quotient, toInt_of_apply remainder]
  refine ⟨Int.tdiv_mul_add_tmod a.toInt b.toInt, ?_⟩
  have sign := Int.sign_tmod a.toInt b.toInt
  split at sign
  · exact .inl (Int.sign_eq_zero_iff_zero.mp sign)
  · exact .inr sign

/-- An operation stops for a division by zero just if it is one. Any other has its exact result if
this is a value, and overflows just if it is not; only the remainder of the least value by `-1`
overflows although it is zero. A quotient and its remainder make up what was divided, and the
remainder has the sign of it. -/
theorem apply_exact (op : Operator) (a b : Value) :
    let result := op.exact a.toInt b.toInt
    let byZero := op.divides = true ∧ b = 0
    (op.apply a b = .error (.of .divisionByZero) ↔ byZero) ∧
    (¬byZero → ¬op.LacksQuotient a b →
      (InRange result → ∃ v, op.apply a b = .ok v ∧ v.toInt = result) ∧
      (op.apply a b = .error (.of .overflow) ↔ ¬InRange result)) ∧
    (op.LacksQuotient a b → op.apply a b = .error (.of .overflow)) ∧
    ∀ q m, divide.apply a b = .ok q → modulus.apply a b = .ok m →
      q.toInt * b.toInt + m.toInt = a.toInt ∧
        (m.toInt = 0 ∨ m.toInt.sign = a.toInt.sign) := by
  intro result byZero
  refine ⟨⟨fun stopped => ?_, apply_of_byZero⟩, fun defined whole => ?_,
    apply_of_lacksQuotient, fun q m => divide_modulus⟩
  · by_contra defined
    by_cases lacks : op.LacksQuotient a b
    · cases stopped.symm.trans (apply_of_lacksQuotient lacks)
    · obtain ⟨n, -, narrows⟩ := exists_wide defined lacks
      cases (ofWide_eq_error_iff.mp (narrows.symm.trans stopped)).1
  · obtain ⟨n, equal, narrows⟩ := exists_wide defined whole
    rw [narrows, ofWide_eq_overflow_iff, equal]
    refine ⟨fun inRange => ?_, Iff.rfl⟩
    rw [show result = n.toInt from equal.symm] at inRange ⊢
    exact exists_ofWide inRange

/-- The remainder of the least value by `-1` is zero, but it is not taken. -/
theorem overflow_of_zero_remainder :
    let least : Value := -2147483648
    modulus.exact least.toInt (-1 : Value).toInt = 0 ∧ InRange 0 ∧
      modulus.apply least (-1) = .error (.of .overflow) := by
  decide

end Operator

end ControlScript
