import ControlScript.Proofs.Emission
import Mathlib.Logic.Relation

/-!
# Well-framed streams

Whatever line a compiler is given, the bytes that it emits can be cut into statements again. Text
from the source gets into them at many places, in quotes, as a name or a number, or as a statement
that is written by hand; it never brings a control byte with it, and inside a program no statement
starts as those that manage the download do.

A line with a fault emits nothing. The one exception is an `end` that is refused: it gives the
download up, and from then on no program is started until another one has been begun.

## Main definitions

* `Bytes.MadeOf` — a stream that consists of given statements
* `Compiler.Continues` — a line that begins no program

## Main results

* `Instruction.madeOf_encode` — proper instructions make such a stream
* `Compiler.depth_of_left` — a compiler that has left a program has no block open
* `Compiler.fault_of_run_later` — the word that starts the program stays refused
* `Compiler.wellFramed_compileLine` — what a line emits
-/

namespace ControlScript

/-- A stream consists of the statements. Each of them holds something, and no control byte, and is
followed by the byte that ends it. -/
structure Bytes.MadeOf (statements : List Bytes) (stream : Bytes) : Prop where
  joined : stream = statements.flatMap (· ++ [Byte.statementEnd])
  nonempty : ∀ statement ∈ statements, statement ≠ []
  plain : ∀ statement ∈ statements, ∀ b ∈ statement, Byte.isControl b = false

/-- Proper instructions are written as a stream of their statements. -/
theorem Instruction.madeOf_encode {code : List Instruction} (proper : ∀ i ∈ code, i.Proper) :
    Bytes.MadeOf (code.map text) (encode code) where
  joined := by rw [encode, List.flatMap_map]
  nonempty := List.forall_mem_map.mpr fun i member => (proper i member).text_ne_nil
  plain := List.forall_mem_map.mpr fun i member => (proper i member).plain

/-- Only a line that ends a program leads out of it, and that one empties the stack. -/
theorem Compile.Worked.depth_of_left {c last : Compiler} {refused : Bool}
    (worked : Worked c refused last) (inProgram : c.compiling = true)
    (left : last.compiling = false) : last.depth = 0 := by
  have kept (same : last.compiling = c.compiling) : last.depth = 0 := by
    cases left.symm.trans (same.trans inProgram)
  cases worked with
  | spared => exact kept rfl
  | begun => cases left
  | ended => rfl
  | misaligned aligned => exact kept aligned.marks.1
  | stated aligned stated => exact kept (stated.marks.1.trans aligned.marks.1)

namespace Compiler

variable {c d : Compiler} {vars : Variables} {readings : Readings} {text : String}

/-- A compiler that has left a program has no block open. -/
theorem depth_of_left (inProgram : c.compiling = true)
    (left : (c.compileLine vars readings text).compiler.compiling = false) :
    (c.compileLine vars readings text).compiler.depth = 0 := by
  obtain ⟨last, mark, worked, compiled⟩ := exists_worked c vars readings text
  rw [compiled] at left ⊢
  exact worked.depth_of_left (c.compiling_countLine.trans inProgram) left

/-- A compiler is given a line that begins no program, or that has a fault. -/
def Continues (c d : Compiler) : Prop :=
  ∃ vars readings text, d = (c.compileLine vars readings text).compiler ∧
    (Keyword.ofText? text = some .begin → (c.compileLine vars readings text).fault ≠ none)

/-- Once a faulty program has been left, the word that starts the program is refused until another
one is begun. The induction is on the lines in between, which leave the mark where it is. -/
theorem fault_of_run_later (outside : c.compiling = false) (marked : c.programError = true)
    (later : Relation.ReflTransGen Continues c d) (runs : Keyword.ofText? text = some .run) :
    (d.compileLine vars readings text).fault ≠ none := by
  have stays : d.compiling = false ∧ d.programError = true := by
    induction later with
    | refl => exact ⟨outside, marked⟩
    | tail _ line ih =>
      obtain ⟨vars, readings, text, rfl, noBegin⟩ := line
      exact marked_compileLine ih.1 ih.2 noBegin
  exact fault_of_run runs stays.2

/-- A line without a fault emits statements, and one that stays inside a program emits none that
starts with `R`. A line with a fault emits nothing, unless it has led out of a program: then it
emits the statement that gives the download up, the program is marked, no block is open, and the
word that starts the program is refused until another program is begun. -/
theorem wellFramed_compileLine (c : Compiler) (vars : Variables) (readings : Readings)
    (text : String) :
    let compiled := c.compileLine vars readings text
    let stream := Instruction.encode compiled.emitted
    (compiled.fault = none → ∃ statements, Bytes.MadeOf statements stream ∧
      (c.compiling = true → compiled.compiler.compiling = true →
        Keyword.ofText? text ≠ some .begin →
          ∀ statement ∈ statements, statement.head?.any (Byte.spells 'R') = false)) ∧
    (compiled.fault ≠ none →
      let left := c.compiling && !compiled.compiler.compiling
      stream = (if left then Bytes.ofString "RA" ++ [Byte.statementEnd] else []) ∧
      (left = true → compiled.compiler.programError = true ∧ compiled.compiler.depth = 0 ∧
        ∀ later, Relation.ReflTransGen Continues compiled.compiler later →
          ∀ vars readings text, Keyword.ofText? text = some .run →
            (later.compileLine vars readings text).fault ≠ none)) := by
  intro compiled stream
  refine ⟨fun accepted => ?_, fun faulty => ?_⟩
  · have made := Instruction.madeOf_encode (c.orderly_emitted vars readings text).proper
    refine ⟨_, made, fun inProgram stays noBegin => ?_⟩
    obtain ⟨code, kept, ⟨-, emitted, -⟩ | ⟨left, -⟩⟩ :=
      emitted_of_accepted inProgram noBegin accepted
    · rw [emitted]
      exact List.forall_mem_map.mpr fun i member => (kept i member).isStored
    · cases stays.symm.trans left
  · have emitted := emitted_of_refused faulty
    intro left
    refine ⟨?_, fun hasLeft => ?_⟩
    · rw [show stream = _ from congrArg Instruction.encode emitted]
      -- The statement is `RA`, whose letters are those of its opcode.
      exact apply_ite Instruction.encode (left = true) [.abortDownload] []
    · obtain ⟨inProgram, outside⟩ : c.compiling = true ∧ compiled.compiler.compiling = false := by
        simpa [left] using hasLeft
      have marked := (emitted_of_fault inProgram faulty).2
      refine ⟨marked, depth_of_left inProgram outside, ?_⟩
      intro later lines vars readings text runs
      exact fault_of_run_later outside marked lines runs

end Compiler

end ControlScript
