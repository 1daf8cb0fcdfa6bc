import ControlScript.Proofs.Immediate
import ControlScript.Proofs.Marks

/-!
# What a line emits

A line is compiled to some statements of which at most the last one is written by hand, or completes
a download. This is so for every line that a compiler may be given in any state. None of the
statements holds a control byte, so that each of them is read as it was emitted.

## Main definitions

* `Instruction.Inner` — an instruction that cannot complete a download
* `Instruction.Orderly` — what a line is compiled to

## Main results

* `Compiler.orderly_emitted` — every line emits such instructions
-/

namespace ControlScript

namespace Instruction

/-- The letters with which the statements inside a program start. -/
def innerHeads : Bytes := [0x43, 0x56, 0x57]

/-- An instruction that cannot complete a download, whatever stands in front of its statement. -/
def Inner (i : Instruction) : Prop :=
  i = .abortDownload ∨ i.text.head?.any (· ∈ innerHeads) = true

/-- Instructions that can be read as they were emitted, and of which at most the last one can
complete a download. -/
structure Orderly (code : List Instruction) : Prop where
  proper : ∀ i ∈ code, i.Proper
  inner : ∃ first last, code = first ++ last ∧ last.length ≤ 1 ∧ ∀ i ∈ first, i.Inner

variable {code : List Instruction}

theorem orderly_nil : Orderly [] := ⟨List.forall_mem_nil _, [], [], rfl, by simp, by simp⟩

theorem orderly_singleton {i : Instruction} (proper : i.Proper) : Orderly [i] :=
  ⟨by simpa using proper, [], [i], rfl, Nat.le_refl 1, List.forall_mem_nil _⟩

/-- Where no instruction completes a download, none does before the last one. -/
theorem orderly_of_inner (proper : ∀ i ∈ code, i.Proper) (inner : ∀ i ∈ code, i.Inner) :
    Orderly code := ⟨proper, code, [], (List.append_nil code).symm, by simp, inner⟩

theorem Orderly.concat_of_inner {i : Instruction} (proper : ∀ j ∈ code, j.Proper)
    (inner : ∀ j ∈ code, j.Inner) (last : i.Proper) : Orderly (code ++ [i]) :=
  ⟨List.forall_mem_append.mpr ⟨proper, by simpa using last⟩, code, [i], rfl, Nat.le_refl 1, inner⟩

/-- The beginning of a program, where another may be given up for it. -/
theorem orderly_of_begin (inProgram : Bool) :
    Orderly ((if inProgram then [.abortDownload] else []) ++ [.beginDownload]) := by
  have abort : Instruction.abortDownload.Inner := .inl rfl
  refine .concat_of_inner ?_ ?_ trivial
  · split <;> simp [Instruction.Proper]
  · split <;> simp [abort]

theorem inner_jump (label : Nat) : (jump label).Inner := .inr rfl

theorem inner_declare (label : Nat) : (declare label).Inner := .inr rfl

end Instruction

open Instruction

/-- Only a statement that is written by hand may be anything. -/
theorem Action.inner_of_mem_code {a : Action} (made : ∀ statement, a ≠ .raw statement) :
    ∀ i ∈ a.code, i.Inner := by
  match a with
  | .raw statement => exact absurd rfl (made statement)
  | .assign _ _ | .clear | .delay _ | .wait _ | .print (.text _) | .print (.value _)
  | .println none =>
    intro i member
    obtain rfl := List.mem_singleton.mp member
    exact .inr rfl
  | .println (some (.text _)) | .println (some (.value _)) =>
    intro i member
    rcases List.mem_cons.mp member with rfl | member
    · exact .inr rfl
    · obtain rfl := List.mem_singleton.mp member
      exact .inr rfl

theorem Action.orderly_code {a : Action} (proper : a.Proper) : Orderly a.code := by
  by_cases made : ∀ statement, a ≠ .raw statement
  · exact orderly_of_inner proper (inner_of_mem_code made)
  · obtain ⟨statement, same⟩ := not_forall.mp made
    obtain rfl := not_not.mp same
    exact orderly_singleton (proper _ List.mem_cons_self)

/-- A sentence that is not written by hand makes inner instructions. -/
theorem Sentence.makes_inner {s : Sentence} (made : ∀ statement, s ≠ .action (.raw statement)) :
    s.Makes Inner := by
  cases s with
  | action a => exact fun _ => Action.inner_of_mem_code fun statement same => made statement (same ▸ rfl)
  | ifThen holds | whileLoop holds | untilTrue holds => exact fun label => .inr rfl
  | _ => trivial

theorem Sentence.makes_proper {s : Sentence} (proper : s.Proper) : s.Makes Instruction.Proper := by
  cases s with
  | action a => exact fun _ => proper
  | ifThen holds | whileLoop holds | untilTrue holds => exact fun label => proper
  | _ => trivial

namespace Nest

variable {n m : Nest} {l : Line} {code : List Instruction}

/-- A line of a program. -/
theorem orderly_of_accept (proper : l.sentence.Proper) (accepted : n.accept l = some (m, code)) :
    Orderly code := by
  have all : ∀ i ∈ code, i.Proper :=
    forall_mem_accept (fun _ => trivial) (fun _ => trivial) (Sentence.makes_proper proper) accepted
  by_cases made : ∀ statement, l.sentence ≠ .action (.raw statement)
  · exact orderly_of_inner all
      (forall_mem_accept inner_jump inner_declare (Sentence.makes_inner made) accepted)
  · -- What is written by hand stands behind what closes blocks.
    obtain ⟨statement, same⟩ := not_forall.mp made
    have said := not_not.mp same
    simp only [accept, said, obey, Option.bind_eq_some_iff, Option.map_eq_some_iff, Prod.exists,
      Prod.mk.injEq] at accepted
    obtain ⟨_, matched, closers, aligned, _, _, obeyed, -, rfl⟩ := accepted
    split at obeyed
    · cases obeyed
    · cases obeyed
      have closing : ∀ i ∈ closing matched, i.Inner := by
        cases matched with
        | none => exact List.forall_mem_nil _
        | some b => exact forall_mem_closing inner_jump inner_declare b
      refine ⟨all, closers ++ Nest.closing matched, [.raw statement], by simp [Action.code],
        Nat.le_refl 1, List.forall_mem_append.mpr ⟨?_, closing⟩⟩
      exact forall_mem_align inner_jump inner_declare aligned

end Nest

theorem Sentence.Answers.orderly {s : Sentence} {code : List Instruction} (answers : s.Answers code)
    (proper : s.Proper) : Orderly code := by
  cases s
  case action a =>
    obtain rfl : code = a.code := answers
    exact Action.orderly_code proper
  case immediate =>
    rcases answers with rfl | rfl <;> exact orderly_singleton trivial
  all_goals exact answers.elim

namespace Compiler

/-- A line that is heeded. -/
theorem orderly_of_heed {c after : Compiler} {l : Line} {code : List Instruction}
    (proper : l.sentence.Proper) (heeded : c.heed l = some (after, code)) : Orderly code := by
  by_cases inside : l.sentence.isFrame = false
  · rw [heed_of_not_isFrame _ inside, Option.map_eq_some_iff] at heeded
    obtain ⟨⟨n, emitted⟩, accepted, same⟩ := heeded
    cases same
    exact Nest.orderly_of_accept proper accepted
  · unfold heed at heeded
    cases said : l.sentence with
    | begin =>
      simp only [said, Option.some.injEq, Prod.mk.injEq] at heeded
      obtain ⟨-, rfl⟩ := heeded
      exact orderly_of_begin c.compiling
    | finish =>
      simp only [said] at heeded
      split at heeded
      · simp only [Option.map_eq_some_iff, Prod.exists, Prod.mk.injEq] at heeded
        obtain ⟨n, closers, finished, -, rfl⟩ := heeded
        exact .concat_of_inner
          (Nest.forall_mem_finish (fun _ => trivial) (fun _ => trivial) finished)
          (Nest.forall_mem_finish inner_jump inner_declare finished) trivial
      · cases heeded
    | _ => simp [said, Sentence.isFrame] at inside

/-- What a line is compiled to, whatever the state of the compiler is. -/
theorem orderly_emitted (c : Compiler) (vars : Variables) (readings : Readings) (text : String) :
    Orderly (c.compileLine vars readings text).emitted := by
  by_cases faultless : (c.compileLine vars readings text).fault = none
  · by_cases begins : Keyword.ofText? text = some .begin
    · obtain ⟨after, compiled⟩ := exists_compileLine_of_begin begins faultless
      rw [compiled]
      exact orderly_of_begin c.compiling
    · cases inProgram : c.compiling
      · obtain ⟨l, vars', code, read, compiled, answers⟩ :=
          exists_answer_of_accepted inProgram begins faultless
        rw [compiled]
        cases l with
        | none =>
          obtain rfl : code = [] := answers
          exact orderly_nil
        | some l => exact answers.orderly (Line.read?_proper read)
      · obtain ⟨l, vars', read, heeded⟩ := exists_of_accepted (.inl inProgram) faultless
        cases l with
        | none =>
          rw [compileLine_of_blank read]
          exact orderly_nil
        | some l =>
          obtain ⟨after, code, heeded⟩ := heeded l rfl
          rw [compileLine_of_heed (.inl inProgram) read heeded]
          exact orderly_of_heed (Line.read?_proper read) heeded
  · have emitted := emitted_of_refused faultless
    dsimp only at emitted
    rw [emitted]
    split
    · exact orderly_singleton trivial
    · exact orderly_nil

end Compiler

end ControlScript
