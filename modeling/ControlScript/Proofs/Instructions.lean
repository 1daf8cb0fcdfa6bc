import ControlScript.Instruction
import ControlScript.Proofs.Expressions

/-!
# Written instructions

The statement of an instruction can be read again if its expressions can and if the bytes that
it takes over from the source are no control bytes. Labels are told apart by their numbers,
and a label is a name, so no label is taken for the beginning of another.

## Main definitions

* `Instruction.Proper` — an instruction whose statement can be read again

## Main results

* `Instruction.Proper.plain` — the statement of a proper instruction has no control bytes
* `Instruction.labelBytes_injective` — different numbers make different labels
-/

namespace ControlScript

namespace Byte

/-- The encoding of a decimal digit is one byte, which is a digit itself. -/
theorem utf8EncodeChar_of_isDigit {c : Char} (digit : c.isDigit = true) :
    String.utf8EncodeChar c = [c.toUInt8] ∧ isDigit c.toUInt8 = true ∧
      Char.ofNat c.toUInt8.toNat = c := by
  have range := Char.isDigit_iff_toNat.mp digit
  rw [show '0'.toNat = 48 from rfl, show '9'.toNat = 57 from rfl] at range
  have ascii : c.toNat ≤ 127 := by omega
  have small : c.toUInt8.toNat = c.toNat := by
    simp [Char.toUInt8, UInt32.toUInt8]
    omega
  refine ⟨?_, ?_, by rw [small]; exact Char.ofNat_toNat c⟩
  · simp [String.utf8EncodeChar, Char.toUInt8, UInt32.toUInt8, ascii]
  · simp only [isDigit, UInt8.le_iff_toNat_le, small, UInt8.reduceToNat, Bool.and_eq_true,
      decide_eq_true_eq]
    omega

end Byte

namespace Instruction

open Bytes

theorem isDigit_of_mem_toDigits {n : Nat} {c : Char} (member : c ∈ Nat.toDigits 10 n) :
    c.isDigit = true :=
  Nat.isDigit_of_mem_toDigits (by decide) (by decide) member

theorem labelBytes_eq (n : Nat) :
    labelBytes n = 0x6C :: (Nat.toDigits 10 n).map (·.toUInt8) := by
  have digits : ∀ cs : List Char, (∀ c ∈ cs, c.isDigit = true) →
      cs.flatMap String.utf8EncodeChar = cs.map (·.toUInt8) := by
    intro cs isDigit
    rw [List.map_eq_flatMap, List.flatMap_def, List.flatMap_def]
    congr 1
    exact List.map_congr_left fun c member =>
      (Byte.utf8EncodeChar_of_isDigit (isDigit c member)).1
  have first : String.utf8EncodeChar 'l' = [0x6C] := by decide
  rw [labelBytes, labelChars, ofChars, List.flatMap_cons, first,
    digits _ fun c member => isDigit_of_mem_toDigits member]
  rfl

/-- A label is a name. -/
theorem isName_labelBytes (n : Nat) : IsName (labelBytes n) := by
  rw [labelBytes_eq, isName_cons_iff]
  refine ⟨by decide, fun b member => ?_⟩
  obtain ⟨c, digit, rfl⟩ := List.mem_map.mp member
  exact Byte.isNameChar_of_isDigit
    (Byte.utf8EncodeChar_of_isDigit (isDigit_of_mem_toDigits digit)).2.1

/-- Different numbers make different labels. -/
theorem labelBytes_injective : Function.Injective labelBytes := by
  intro a b same
  rw [labelBytes_eq, labelBytes_eq, List.cons.injEq] at same
  have back : ∀ n, ((Nat.toDigits 10 n).map (·.toUInt8)).map (fun d => Char.ofNat d.toNat) =
      Nat.toDigits 10 n := by
    intro n
    rw [List.map_map]
    refine (List.map_congr_left fun c member => ?_).trans (List.map_id _)
    exact (Byte.utf8EncodeChar_of_isDigit (isDigit_of_mem_toDigits member)).2.2
  have digits : Nat.toDigits 10 a = Nat.toDigits 10 b := by
    rw [← back a, ← back b, same.2]
  calc a = Nat.ofDigitChars 10 (Nat.toDigits 10 a) 0 := Nat.ofDigitChars_ten_toDigits.symm
    _ = Nat.ofDigitChars 10 (Nat.toDigits 10 b) 0 := by rw [digits]
    _ = b := Nat.ofDigitChars_ten_toDigits

/-- The expressions of an instruction can be read again from its statement, and the bytes that
it takes over from the source are no control bytes. -/
def Proper : Instruction → Prop
  | .jumpUnless condition _ => condition.Proper
  | .delay tenths => tenths.Proper
  | .setVariable name value => IsName name ∧ value.Proper
  | .writeText text => ∀ b ∈ text, Byte.isControl b = false
  | .writeValue value => value.Proper
  | .raw statement => statement ≠ [] ∧ ∀ b ∈ statement, Byte.isControl b = false
  | _ => True

theorem plain_labelBytes (n : Nat) : ∀ b ∈ labelBytes n, Byte.isControl b = false :=
  fun b member => Byte.isControl_of_isNameChar ((isName_labelBytes n).isNameChar b member)

theorem plain_code (op : Opcode) : ∀ b ∈ op.code, Byte.isControl b = false := by
  cases op <;> decide +kernel

theorem code_ne_nil (op : Opcode) : op.code ≠ [] := by cases op <;> decide

/-- No control byte stands in the statement of a proper instruction. -/
theorem Proper.plain {i : Instruction} (proper : i.Proper) :
    ∀ b ∈ i.text, Byte.isControl b = false := by
  have comma : Byte.isControl Byte.comma = false := by decide
  have equals : Byte.isControl Byte.equals = false := by decide
  intro b member
  cases i with
  | raw statement => exact proper.2 b member
  | jumpUnless condition label =>
    simp only [text, List.mem_append, List.mem_cons] at member
    rcases member with (inCode | inCondition) | rfl | inLabel
    · exact plain_code _ b inCode
    · exact (Condition.Proper.plain proper b inCondition).1
    · exact comma
    · exact plain_labelBytes label b inLabel
  | setVariable name value =>
    simp only [text, List.mem_append, List.mem_cons] at member
    rcases member with (inCode | inName) | rfl | inValue
    · exact plain_code _ b inCode
    · exact Byte.isControl_of_isNameChar (proper.1.isNameChar b inName)
    · exact equals
    · exact proper.2.plain b inValue
  | declare label | jump label =>
    rcases List.mem_append.mp member with inCode | inLabel
    · exact plain_code _ b inCode
    · exact plain_labelBytes label b inLabel
  | delay value | writeValue value =>
    rcases List.mem_append.mp member with inCode | inValue
    · exact plain_code _ b inCode
    · exact Expression.Proper.plain proper b inValue
  | writeText text =>
    rcases List.mem_append.mp member with inCode | inText
    · exact plain_code _ b inCode
    · exact proper b inText
  | clearVariables | writeLine | beginDownload | endDownload | abortDownload | start | halt =>
    exact plain_code _ b member

theorem Proper.text_ne_nil {i : Instruction} (proper : i.Proper) : i.text ≠ [] := by
  cases i
  case raw => exact proper.1
  all_goals simp [text, code_ne_nil]

end Instruction

end ControlScript
