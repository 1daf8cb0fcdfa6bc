import ControlScript.Scan

/-!
# Values, operators and comparisons

Values are the whole numbers of 32 bits. Arithmetic never wraps: a result that is no value
is an overflow. Quotients are cut off toward zero and a remainder has the sign of what is
divided; a remainder exists only where the quotient does.

Results are computed in 64 bits, which hold every sum, difference, product and quotient of
two values, and are then narrowed.

## Main definitions

* `Value`, `Value.ofWide` — values, and the value equal to a number of 64 bits
* `Operator.apply` — arithmetic
* `Comparison.test` — the order of values
* `Operator.scan?`, `Comparison.scan?` — the signs for them
-/

namespace ControlScript

/-- A whole number from `-2 ^ 31` to `2 ^ 31 - 1`. -/
abbrev Value := Int32

namespace Value

/-- Whether a number of 64 bits is in the range of values. -/
def fits (n : Int64) : Bool := -0x80000000 ≤ n && n ≤ 0x7FFFFFFF

/-- The value equal to a number of 64 bits. -/
def ofWide (n : Int64) : Except Fault Value :=
  if fits n then .ok n.toInt32 else .error (.of .overflow)

theorem fits_iff {n : Int64} : fits n ↔ -0x80000000 ≤ n.toInt ∧ n.toInt < 0x80000000 := by
  have least : (-0x80000000 : Int64).toInt = -0x80000000 := by decide
  have greatest : (0x7FFFFFFF : Int64).toInt = 0x7FFFFFFF := by decide
  simp only [fits, Bool.and_eq_true, decide_eq_true_eq, Int64.le_iff_toInt_le, least, greatest]
  omega

/-- A number has a value just if there is one equal to it. -/
theorem ofWide_eq_ok_iff {n : Int64} {v : Value} : ofWide n = .ok v ↔ v.toInt = n.toInt := by
  have narrowed := Int64.toInt_toInt32 n
  unfold ofWide
  split
  · next range =>
    rw [fits_iff] at range
    rw [Int.bmod_eq_of_le (by omega) (by omega)] at narrowed
    rw [← narrowed, Int32.toInt_inj, Except.ok.injEq, eq_comm]
  · next range =>
    rw [fits_iff] at range
    have lower := v.le_toInt
    have upper := v.toInt_lt
    exact ⟨(nomatch ·), fun same => absurd ⟨by omega, by omega⟩ range⟩

/-- A number without a value equal to it is an overflow. -/
theorem ofWide_eq_error_iff {n : Int64} {f : Fault} :
    ofWide n = .error f ↔
      f = .of .overflow ∧ ¬(-0x80000000 ≤ n.toInt ∧ n.toInt < 0x80000000) := by
  rw [← fits_iff]
  unfold ofWide
  split
  · next range => simp [range]
  · next range => simp [range, eq_comm]

end Value

/-- The operators of arithmetic. -/
inductive Operator where
  | add | subtract | multiply | divide | modulus
deriving DecidableEq, Repr

namespace Operator

/-- The sign of an operator. -/
def sign : Operator → UInt8
  | .add => Byte.plus
  | .subtract => Byte.minus
  | .multiply => Byte.star
  | .divide => 0x2F
  | .modulus => 0x25

/-- All operators. -/
def all : List Operator := [.add, .subtract, .multiply, .divide, .modulus]

/-- Reads an operator, if one is next. -/
def scan? : Scan (Option Operator) := fun rest =>
  match rest with
  | [] => .ok none rest
  | b :: tail =>
    match all.find? (·.sign == b) with
    | some op => .ok (some op) tail
    | none => .ok none rest

/-- The result of an operation. -/
def apply (op : Operator) (a b : Value) : Except Fault Value :=
  let x := a.toInt64
  let y := b.toInt64
  match op with
  | .add => Value.ofWide (x + y)
  | .subtract => Value.ofWide (x - y)
  | .multiply => Value.ofWide (x * y)
  | .divide => if b = 0 then .error (.of .divisionByZero) else Value.ofWide (x / y)
  | .modulus =>
    if b = 0 then .error (.of .divisionByZero)
    else do
      -- The remainder by `-1` is `0` for all, but the least value has no quotient.
      let _ ← Value.ofWide (x / y)
      Value.ofWide (x % y)

theorem scan?_sign (op : Operator) (rest : Bytes) :
    scan? (op.sign :: rest) = .ok (some op) rest := by
  cases op <;> rfl

end Operator

/-- The comparisons of two values. -/
inductive Comparison where
  | equal | notEqual | less | greater | lessEqual | greaterEqual
deriving DecidableEq, Repr

namespace Comparison

/-- The sign of a comparison, as text. -/
def text : Comparison → String
  | .equal => "=="
  | .notEqual => "!="
  | .less => "<"
  | .greater => ">"
  | .lessEqual => "<="
  | .greaterEqual => ">="

/-- The sign of a comparison. -/
def sign (c : Comparison) : Bytes := Bytes.ofString c.text

/-- All comparisons, those with a longer sign first. -/
def all : List Comparison := [.equal, .notEqual, .lessEqual, .greaterEqual, .less, .greater]

/-- Reads a comparison, if one is next. The longest sign that fits is taken. -/
def scan? : Scan (Option Comparison) := fun rest =>
  match all.find? (·.sign.isPrefixOf rest) with
  | some c => .ok (some c) (rest.drop c.sign.length)
  | none => .ok none rest

/-- Whether two values compare as said. -/
def test (c : Comparison) (a b : Value) : Bool :=
  match c with
  | .equal => a == b
  | .notEqual => a != b
  | .less => a < b
  | .greater => b < a
  | .lessEqual => a ≤ b
  | .greaterEqual => b ≤ a

end Comparison

end ControlScript
