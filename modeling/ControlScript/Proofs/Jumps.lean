import ControlScript.Machine.Statement
import ControlScript.Proofs.Stored

/-!
# Jumps

A jump reads its label, and before that its condition if it has one, and goes on where the label
is declared. A jump whose condition cannot be evaluated does not take place.

## Main results

* `Machine.perform_jump` — a jump
* `Machine.perform_jumpIfFalse` — a jump unless a condition holds
-/

namespace ControlScript

open Instruction

namespace Scan

/-- A label is read from a jump to it. -/
theorem label_labelBytes (label : Nat) :
    Scan.label (labelBytes label) = .ok (labelBytes label) [] := by
  obtain ⟨b, tail, spelled, start, -⟩ := (isName_labelBytes label).exists_cons
  have solid : b ≠ Byte.space := by rintro rfl; exact absurd start (by decide)
  have run := takeWhile_append_of_ends (isName_labelBytes label).isNameChar Bytes.ends_nil
  rw [List.append_nil] at run
  have skipped : skipSpaces (labelBytes label) = .ok 0 (labelBytes label) := by
    rw [spelled]
    exact skipSpaces_of_ne tail solid
  have named : labelBytes label ≠ [] := by rw [spelled]; exact List.cons_ne_nil b tail
  simp [Scan.label, Attempt.bind_apply, skipped, takeWhile, run, named]

/-- A condition and a label are read from a jump. -/
theorem branch_text (scope : Scope) {c : Condition} (proper : c.Proper) (label : Nat) :
    (branch scope).Gives (c.text ++ Byte.comma :: labelBytes label)
      (c.holds scope >>= fun holds => .ok (holds, labelBytes label)) [] := by
  refine (Condition.evaluate_text scope proper (Bytes.ends_cons (by decide))).bind fun holds _ => ?_
  refine Gives.bind_ok (skipSpaces_of_ne _ (by decide)) ?_
  refine Gives.bind_ok (show eat Byte.comma (Byte.comma :: labelBytes label) = _ from rfl) ?_
  exact Gives.bind_ok (label_labelBytes label) (.of_eq rfl)

end Scan

/-- A scan of a statement whose result is known. -/
theorem Command.scanning_of_gives {α : Type} {x : Scan α} {text rest : Bytes}
    {result : Except Fault α} (gives : x.Gives text result rest) (m : Machine) :
    scanning x text m = Attempt.ofExcept (result.map (·, rest)) m := by
  unfold scanning
  cases result with
  | ok a =>
    rw [show x text = .ok a rest from gives]
    rfl
  | error f =>
    obtain ⟨left, stopped⟩ := gives
    rw [stopped]
    rfl

namespace Machine

open Command

variable {label offset : Nat} {m : Machine} (dest : Destination)

/-- A jump goes on where its label is declared. -/
theorem perform_jump (found : m.store.findLabel? (labelBytes label) = some offset) :
    perform .jump (labelBytes label) .program dest m = .ok () { m with pc := offset } := by
  rw [perform, if_neg (by simp)]
  simp only [Attempt.bind_apply, scanning, Scan.label_labelBytes, Attempt.pure_apply, jump,
    Attempt.get_apply, found, Attempt.set_apply]

/-- A jump on a condition takes place just if the condition fails. -/
theorem perform_jumpIfFalse {c : Condition} (proper : c.Proper)
    (found : m.store.findLabel? (labelBytes label) = some offset) :
    match c.holds m.scope with
    | .ok holds => perform .jumpIfFalse (c.text ++ Byte.comma :: labelBytes label) .program dest m =
        .ok () { m with pc := if holds then m.pc else offset }
    | .error f => perform .jumpIfFalse (c.text ++ Byte.comma :: labelBytes label) .program dest m =
        .error f m := by
  simp only [perform, if_neg (show ¬(Opcode.jumpIfFalse.category = .control ∧
    Origin.program = .live) by simp), branch, Attempt.bind_apply, Attempt.get_apply,
    scanning_of_gives (Scan.branch_text m.scope proper label)]
  cases c.holds m.scope with
  | error f => rfl
  | ok holds =>
    cases holds
    · exact show jump (labelBytes label) m = _ by simp [jump, Attempt.bind_apply, found]
    · rfl

end Machine

end ControlScript
