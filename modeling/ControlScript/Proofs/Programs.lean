import ControlScript.Proofs.Recognition
import ControlScript.Proofs.Transcripts

/-!
# Accepted programs

A program is accepted just if its lines form a script, and it is compiled to the code for that
script. The compiler itself never sees the script: it goes from line to line with a stack of open
blocks, the indentation of the line before and a mark that a block was just opened.

## Main definitions

* `Compiler.Spells` — the lines of a text form a script

## Main results

* `Compiler.compileAll_of_forms`, `Compiler.exists_forms_of_accepted` — the two directions
* `Compiler.exists_spells_of_accepted` — an accepted program has a script
* `Compiler.accepted_iff_forms` — what is accepted, and what it is compiled to
-/

namespace ControlScript.Compiler

variable {c : Compiler} {vars : Variables} {readings : Readings} {texts : List String}
  {start indent : Nat} {lines : List Line}

theorem heard_program (inProgram : Bool) (start indent : Nat)
    (inside : ∀ l ∈ lines, l.sentence.isFrame = false) :
    Heard inProgram ({ indent := start, sentence := .begin } ::
      (lines ++ [{ indent, sentence := .finish }])) := by
  have later : Heard true (lines ++ [{ indent, sentence := .finish }]) := by
    induction lines with
    | nil => exact ⟨.inl rfl, trivial⟩
    | cons l lines ih =>
      have apart : l.sentence ≠ .finish := fun said => by
        simpa [said, Sentence.isFrame] using inside l List.mem_cons_self
      refine ⟨.inl rfl, ?_⟩
      rw [show (l.sentence == .begin || (true && l.sentence != .finish)) = true by simp [apart]]
      exact ih fun m member => inside m (List.mem_cons_of_mem l member)
  exact ⟨.inr rfl, later⟩

/-- A program whose lines form a script, and whose end stands at the outermost indentation, is
accepted and compiled to the code for the script. -/
theorem compileAll_of_forms {script : Script} (inside : ∀ l ∈ lines, l.sentence.isFrame = false)
    (read : c.readAll? vars readings texts = some ({ indent := start, sentence := .begin } ::
      (lines ++ [{ indent := 0, sentence := .finish }])))
    (formed : Forms c.blocks.limit 0 false 0 lines script) :
    (c.compileAll vars readings texts).faults = [] ∧
      (c.compileAll vars readings texts).emitted =
        (if c.compiling then [.abortDownload] else []) ++
          .beginDownload :: (script.code 0 0 ++ [.endDownload]) ∧
      (c.compileAll vars readings texts).compiler.nextLabel = script.labels ∧
      (c.compileAll vars readings texts).compiler.compiling = false ∧
      (c.compileAll vars readings texts).compiler.depth = 0 ∧
      (c.compileAll vars readings texts).compiler.programError = false := by
  obtain ⟨-, heeded⟩ := compileAll_of_readAll? rfl (heard_program c.compiling start 0 inside) read
  rw [heedAll_program c start 0 inside] at heeded
  obtain ⟨n, m, emitted, owed, accepted, finished, code, labels⟩ := Nest.finish_of_forms formed
  obtain ⟨faultless, emitted, same⟩ := heeded _ _ (by
    rw [accepted, Option.bind_some]
    simp only [finished, Option.map_some]
    rfl)
  refine ⟨faultless, ?_, ?_, ?_, ?_, ?_⟩
  · rw [emitted, ← code, List.append_assoc]
  · rw [← labels]
    exact congrArg nextLabel same
  · exact congrArg compiling same
  · exact congrArg depth same
  · exact congrArg programError same

/-- The lines of an accepted program form a script, and its end stands at the outermost
indentation. -/
theorem exists_forms_of_accepted (inside : ∀ l ∈ lines, l.sentence.isFrame = false)
    (read : c.readAll? vars readings texts = some ({ indent := start, sentence := .begin } ::
      (lines ++ [{ indent, sentence := .finish }])))
    (accepted : (c.compileAll vars readings texts).faults = []) :
    indent = 0 ∧ ∃ script, Forms c.blocks.limit 0 false 0 lines script := by
  obtain ⟨refused, -⟩ :=
    compileAll_of_readAll? rfl (heard_program c.compiling start indent inside) read
  rw [heedAll_program c start indent inside] at refused
  rw [← Nest.finish_iff]
  by_contra unfinished
  refine refused ?_ accepted
  rw [Option.bind_eq_none_iff]
  rintro ⟨n, code⟩ taken
  rw [Option.map_eq_none_iff]
  cases finished : n.finish indent with
  | none => rfl
  | some result => exact absurd ⟨result.1, result.2, by rw [taken]; exact finished⟩ unfinished

/-- What the lines of a program say is read from the texts between the two that frame it. -/
theorem exists_text_of_inside {opening closing : String} {body : List String}
    (frames : Frames opening body closing) (inside : ∀ l ∈ lines, l.sentence.isFrame = false)
    (read : c.readAll? vars readings (opening :: (body ++ [closing])) =
      some ({ indent := start, sentence := .begin } ::
        (lines ++ [{ indent, sentence := .finish }]))) :
    ∀ l ∈ lines, ∃ text ∈ body, ∃ limit scope after,
      Line.read? limit scope text = some (some l, after) := by
  intro l member
  obtain ⟨text, among, found⟩ := exists_text_of_readAll? read l (by simp [member])
  obtain ⟨limit, scope, after, said⟩ := found
  have words := Line.ofText?_of_read? said
  have plain := inside l member
  refine ⟨text, ?_, limit, scope, after, said⟩
  rcases List.mem_cons.mp among with rfl | later
  · rw [words.1.mpr frames.opens] at plain
    cases plain
  · rcases List.mem_append.mp later with inBody | last
    · exact inBody
    · rw [List.mem_singleton.mp last] at words
      rw [words.2.mpr frames.closes] at plain
      cases plain

/-- The lines of a text form a script: a program is begun, and ended at the outermost
indentation. -/
def Spells (c : Compiler) (vars : Variables) (readings : Readings) (texts : List String)
    (script : Script) : Prop :=
  ∃ start lines, c.readAll? vars readings texts = some ({ indent := start, sentence := .begin } ::
      (lines ++ [{ indent := 0, sentence := .finish }])) ∧
    (∀ l ∈ lines, l.sentence.isFrame = false) ∧ Forms c.blocks.limit 0 false 0 lines script

/-- The lines of an accepted program form a script. -/
theorem exists_spells_of_accepted {opening closing : String} {body : List String}
    (frames : Frames opening body closing)
    (accepted : (c.compileAll vars readings (opening :: (body ++ [closing]))).faults = []) :
    ∃ script, c.Spells vars readings (opening :: (body ++ [closing])) script := by
  obtain ⟨start, lines, indent, read, inside⟩ := exists_readAll?_of_accepted frames accepted
  obtain ⟨rfl, script, formed⟩ := exists_forms_of_accepted inside read accepted
  exact ⟨script, start, lines, read, inside, formed⟩

/-- A text that can be read as a program is accepted just if its lines form a script and its end
stands at the outermost indentation. It is compiled to the code for that script, between the
statements that begin and end a download. -/
theorem accepted_iff_forms (inside : ∀ l ∈ lines, l.sentence.isFrame = false)
    (read : c.readAll? vars readings texts = some ({ indent := start, sentence := .begin } ::
      (lines ++ [{ indent, sentence := .finish }]))) :
    ((c.compileAll vars readings texts).faults = [] ↔
        indent = 0 ∧ ∃ script, Forms c.blocks.limit 0 false 0 lines script) ∧
      ∀ script, indent = 0 → Forms c.blocks.limit 0 false 0 lines script →
        (c.compileAll vars readings texts).emitted =
          (if c.compiling then [.abortDownload] else []) ++
            .beginDownload :: (script.code 0 0 ++ [.endDownload]) ∧
        (c.compileAll vars readings texts).compiler.nextLabel = script.labels ∧
        (c.compileAll vars readings texts).compiler.compiling = false := by
  refine ⟨⟨exists_forms_of_accepted inside read, ?_⟩, ?_⟩
  · rintro ⟨rfl, script, formed⟩
    exact (compileAll_of_forms inside read formed).1
  · rintro script rfl formed
    obtain ⟨-, emitted, labels, idle, -⟩ := compileAll_of_forms inside read formed
    exact ⟨emitted, labels, idle⟩

/-- A loop in the first branch of a conditional, both closed by the word for the other branch. -/
theorem accepted_loop_in_branch :
    ((ofLimits {}).compileAll (.ofLimits {}) {}
      ["begin", "if 1 < 2", "  forever", "    break", "else", "  clear", "end"]).faults = [] ∧
    ((ofLimits {}).compileAll (.ofLimits {}) {}
      ["begin", "if 1 < 2", "  forever", "    break", "else", "  clear", "end"]).emitted =
      [.beginDownload,
        .jumpUnless ⟨.literal ⟨none, [0x31]⟩, .less, .literal ⟨none, [0x32]⟩⟩ 0,
        .declare 2, .jump 3, .jump 2, .declare 3,
        .jump 1, .declare 0, .clearVariables, .declare 1, .endDownload] := by
  let holds : Condition := ⟨.literal ⟨none, [0x31]⟩, .less, .literal ⟨none, [0x32]⟩⟩
  have formed : Forms 16 0 false 0 [⟨0, .ifThen holds⟩, ⟨2, .forever⟩, ⟨4, .breakLoop⟩,
      ⟨0, .elseThen⟩, ⟨2, .action .clear⟩]
      (.ifElse holds (.foreverLoop (.breakLoop .done) .done) (.action .clear .done) .done) :=
    .ifElse (by decide) (by decide) (List.cons_ne_nil _ _)
      (.foreverLoop (by decide) (by decide) (List.cons_ne_nil _ _) (.breakLoop .done) (.inl rfl)
        .done)
      (by decide) (List.cons_ne_nil _ _) (.action rfl .done) (.inl rfl) .done
  have read : (ofLimits {}).readAll? (.ofLimits {}) {}
      ["begin", "if 1 < 2", "  forever", "    break", "else", "  clear", "end"] =
        some (⟨0, .begin⟩ :: ([⟨0, .ifThen holds⟩, ⟨2, .forever⟩, ⟨4, .breakLoop⟩,
          ⟨0, .elseThen⟩, ⟨2, .action .clear⟩] ++ [⟨0, .finish⟩])) := by
    decide +kernel
  have program := accepted_iff_forms (by decide) read
  exact ⟨program.1.mpr ⟨rfl, _, formed⟩, (program.2 _ rfl formed).1⟩

end ControlScript.Compiler
