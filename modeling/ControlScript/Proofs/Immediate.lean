import ControlScript.Proofs.Transcripts

/-!
# Lines outside of programs

A line that stands in no program is compiled to the instructions for what it says, and leaves the
compiler as it was. Whatever needs a program around it is refused, and so is an end without a
beginning.

## Main definitions

* `Sentence.Answers` — what a sentence outside of programs is compiled to

## Main results

* `Compiler.exists_answer_of_accepted` — a line outside of programs that has no fault
-/

namespace ControlScript

/-- What a sentence outside of programs is compiled to. -/
def Sentence.Answers (code : List Instruction) : Sentence → Prop
  | .action a => code = a.code
  | .immediate => code = [.start] ∨ code = [.halt]
  | _ => False

namespace Compile

variable {d e : Draft}

theorem align_of_outside (outside : d.compiler.compiling = false) (indent : Nat) :
    align indent d = .ok none d := by
  simp [align, Attempt.bind_apply, compiler, outside]

theorem success?_requireProgram_of_outside (outside : d.compiler.compiling = false) :
    Attempt.success? (requireProgram d) = none := by
  simp [requireProgram, Attempt.bind_apply, compiler, outside]

/-- What needs a program around it is refused. -/
theorem success?_of_requires {x : Compile Unit} (outside : d.compiler.compiling = false) :
    Attempt.success? ((requireProgram >>= fun _ => x) d) = none := by
  rw [Attempt.success?_bind, success?_requireProgram_of_outside outside]
  rfl

/-- Where no block is closed, nothing is emitted for it. -/
theorem closeBlock_none (d : Draft) : closeBlock none d = .ok () d := by
  simp [closeBlock, emitAll]

/-- Outside of programs, an action is read and then emitted. -/
theorem exists_of_action {α : Type} (x : Parse α) (action : α → Action)
    (stored : ∀ a, (action a).isRemote = false)
    (done : Attempt.success? ((closeBlock none >>= fun _ =>
      parsing x >>= fun a => emitAll (action a).code) d) = some ((), e)) :
    ∃ s p code, Attempt.success? ((do return Sentence.action (action (← x)) : Parse _) d.passage) =
      some (s, p) ∧ e = d.after p d.compiler.nest code ∧ s.Answers code := by
  rw [success?_action x action stored none 0] at done
  simp only [Option.bind_eq_some_iff, Option.map_eq_some_iff, Prod.exists, Prod.mk.injEq] at done
  obtain ⟨s, p, read, n, code, obeyed, -, rfl⟩ := done
  refine ⟨s, p, code, read, ?_⟩
  simp only [bind_pure_comp, Attempt.success?_map, Option.map_eq_some_iff, Prod.exists,
    Prod.mk.injEq] at read
  obtain ⟨a, _, -, rfl, rfl⟩ := read
  simp only [Nest.obey, stored, Bool.false_eq_true, if_false, Option.some.injEq, Prod.mk.injEq]
    at obeyed
  obtain ⟨rfl, rfl⟩ := obeyed
  exact ⟨rfl, rfl⟩

/-- Outside of programs, a statement is read, and what it says is emitted. -/
theorem exists_of_statement {k : Option Keyword} {indent : Nat}
    (outside : d.compiler.compiling = false)
    (done : Attempt.success? (statement k none indent d) = some ((), e)) :
    ∃ s p code, Attempt.success? (Parse.sentence k d.passage) = some (s, p) ∧
      e = d.after p d.compiler.nest code ∧ s.Answers code := by
  have closed {x : Compile Unit} : (closeBlock none >>= fun _ => x) d = x d := by
    rw [Attempt.bind_apply, closeBlock_none]
  by_cases acts : k.all Keyword.isAction = true
  · obtain ⟨α, x, action, stored, said, form⟩ := exists_action_eq acts
    rw [form] at done
    rw [said]
    exact exists_of_action x action stored done
  -- Of what is left, all but the words for a running program need a program around them.
  cases k with
  | none => exact absurd rfl acts
  | some k =>
    cases k
    case set | delay | wait | print | println | clear => exact absurd rfl acts
    case elseThen | untilTrue | endif | endwhile =>
      cases (success?_of_requires outside).symm.trans done
    case ifThen | whileLoop | doLoop | forever | breakLoop | continueLoop =>
      change Attempt.success? ((closeBlock none >>= fun _ => _) d) = _ at done
      rw [closed] at done
      cases (success?_of_requires outside).symm.trans done
    case run =>
      change Attempt.success? ((closeBlock none >>= fun _ => run) d) = _ at done
      rw [closed] at done
      simp only [run, forbidProgram, Attempt.success?_bind, success?_compiler, Option.bind_some,
        outside, Bool.false_eq_true, if_false, Attempt.pure_apply, Attempt.success?_ok] at done
      split at done
      · cases done
      · cases done
        exact ⟨.immediate, d.passage, [.start], rfl, rfl, .inl rfl⟩
    case stop =>
      change Attempt.success? ((closeBlock none >>= fun _ => stop) d) = _ at done
      rw [closed] at done
      simp only [stop, forbidProgram, Attempt.success?_bind, success?_compiler, Option.bind_some,
        outside, Bool.false_eq_true, if_false, Attempt.pure_apply, Attempt.success?_ok] at done
      cases done
      exact ⟨.immediate, d.passage, [.halt], rfl, rfl, .inr rfl⟩
    case begin | finish =>
      cases done

/-- Outside of programs, a raw statement is read and emitted as it is. -/
theorem exists_of_raw {indent : Nat} (outside : d.compiler.compiling = false)
    (done : Attempt.success? (raw indent d) = some ((), e)) :
    ∃ s code, Attempt.success? (Parse.raw d.passage) = some (s, d.passage) ∧
      e = d.after d.passage d.compiler.nest code ∧ s.Answers code := by
  simp only [raw, Attempt.success?_bind, align_of_outside outside, closeBlock_none,
    Attempt.success?_ok, Option.bind_some, Attempt.get_apply] at done
  have rest : d.passage.rest = d.rest := rfl
  by_cases nothing : d.rest.isEmpty = true
  · simp [nothing] at done
  · simp only [nothing, Bool.false_eq_true, if_false, Attempt.success?_bind, success?_compiler,
      Option.bind_some, outside, Bool.false_and] at done
    cases done
    refine ⟨.action (.raw d.rest), [.raw d.rest], ?_, rfl, rfl⟩
    simp only [Parse.raw, Attempt.success?_bind, Attempt.get_apply, Attempt.success?_ok,
      Option.bind_some, rest, nothing, Bool.false_eq_true, if_false, Attempt.pure_apply]

/-- Outside of programs, a sentence that begins none is read, and what it says is emitted. -/
theorem exists_of_command {indent : Nat} (outside : d.compiler.compiling = false)
    (noBegin : Keyword.ofLine? d.rest ≠ some .begin)
    (done : Attempt.success? (command indent d) = some ((), e)) :
    ∃ s p code, Attempt.success? (Parse.command d.passage) = some (s, p) ∧
      e = d.after p d.compiler.nest code ∧ s.Answers code := by
  obtain ⟨p, named, -⟩ := Parse.exists_keyword_eq d.passage
  rw [success?_command_of_keyword indent named] at done
  rw [Parse.success?_command named]
  rw [show d.passage.rest = d.rest from rfl] at done ⊢
  generalize Keyword.ofLine? d.rest = k at noBegin done
  have outside' : (d.withPassage p).compiler.compiling = false := outside
  by_cases isFinish : k = some .finish
  · -- There is no program to end.
    subst isFinish
    simp [endProgram, outside'] at done
  -- Words other than `begin` and `end` are all compiled in the same way.
  have stated : Attempt.success? ((align indent >>= fun matched => statement k matched indent >>=
      fun _ => scanning Scan.skipSpaces >>= fun _ => endOfLine) (d.withPassage p)) =
        some ((), e) := by
    cases k with
    | none => exact done
    | some k => cases k <;> first | exact done | contradiction
  simp only [Attempt.success?_bind (align indent), align_of_outside outside', Attempt.success?_ok,
    Option.bind_some, Attempt.success?_bind (statement _ _ _), Option.bind_eq_some_iff,
    Prod.exists] at stated
  obtain ⟨_, closed, stated, last⟩ := stated
  obtain ⟨s, q, code, said, rfl, answers⟩ := exists_of_statement outside' stated
  replace last : (if (q.rest.dropWhile (· == Byte.space)).isEmpty then _ else none) = some ((), e) :=
    (success?_skipSpaces_endOfLine _).symm.trans last
  split at last
  · next blank =>
    cases last
    refine ⟨s, { q with rest := q.rest.dropWhile (· == Byte.space) }, code, ?_, rfl, answers⟩
    have said' : Attempt.success? (Parse.sentence k p) = some (s, q) := said
    rw [said']
    exact if_pos blank
  · cases last

/-- Outside of programs, a line that begins none is read, and what it says is emitted. -/
theorem exists_of_line (outside : d.compiler.compiling = false)
    (noBegin : Keyword.ofLine? (d.rest.dropWhile (· == Byte.space)) ≠ some .begin)
    (done : Attempt.success? (line d) = some ((), e)) :
    ∃ l p code, Attempt.success? (Parse.line d.passage) = some (l, p) ∧
      e = d.after p d.compiler.nest code ∧
      l.elim (code = []) fun said => said.sentence.Answers code := by
  rw [line_apply] at done
  rw [Parse.success?_line, show d.passage.rest = d.rest from rfl]
  dsimp only at done ⊢
  split at done
  · next silent =>
    rw [if_pos silent]
    cases done
    refine ⟨none, _, [], rfl, ?_, rfl⟩
    exact Draft.withPassage_eq_after d { d.passage with rest := d.rest.dropWhile (· == Byte.space) }
  next speaks =>
  split at done
  · cases done
  next plain =>
  rw [if_neg speaks, if_neg plain, Parse.success?_rawOrCommand]
  dsimp only
  split at done
  · next star =>
    obtain ⟨s, code, said, rfl, answers⟩ := exists_of_raw
      (d := { d with rest := (d.rest.dropWhile (· == Byte.space)).tail }) outside done
    rw [if_pos star]
    exact ⟨_, _, code, congrArg (Option.map _) said, rfl, answers⟩
  · next noStar =>
    obtain ⟨s, q, code, said, rfl, answers⟩ := exists_of_command
      (d := { d with rest := d.rest.dropWhile (· == Byte.space) }) outside noBegin done
    rw [if_neg noStar]
    exact ⟨_, q, code, congrArg (Option.map _) said, rfl, answers⟩

end Compile

namespace Compiler

variable {c : Compiler} {vars : Variables} {readings : Readings} {text : String}

/-- A line outside of programs that begins none and has no fault is read, and it is compiled to
the instructions for what it says. The compiler stays as it was. -/
theorem exists_answer_of_accepted (outside : c.compiling = false)
    (noBegin : Keyword.ofText? text ≠ some .begin)
    (accepted : (c.compileLine vars readings text).fault = none) :
    ∃ l vars' code, Line.read? c.lineLength { vars, readings } text = some (l, vars') ∧
      c.compileLine vars readings text =
        { compiler := c, vars := vars', emitted := code, fault := none } ∧
      l.elim (code = []) fun said => said.sentence.Answers code := by
  have counted : c.countLine = c := by simp [countLine, outside]
  cases done : c.draft { vars, readings } text with
  | error f d => simp [compileLine, counted, done] at accepted
  | ok u d =>
    have compiled : c.compileLine vars readings text = {
        compiler := d.compiler
        vars := d.scope.vars
        emitted := d.emitted
        fault := none } := by
      simp [compileLine, counted, done]
    unfold draft at done
    split at done
    · cases done
    · next fits =>
      let start : Draft :=
        { rest := Bytes.ofChars (trimEnd text.toList), compiler := c, scope := { vars, readings } }
      obtain ⟨l, p, code, read, rfl, answers⟩ := Compile.exists_of_line (d := start) outside noBegin
        (Attempt.success?_eq_some_iff.mpr done)
      refine ⟨l, p.scope.vars, code, ?_, compiled, answers⟩
      have read' : Attempt.success? (Parse.line start.passage) = some (l, p) := read
      have start_eq : start.passage =
        { rest := Bytes.ofChars (trimEnd text.toList), scope := { vars, readings } } := rfl
      rw [start_eq] at read'
      rw [Line.read?, if_neg fits, read']
      rfl

end Compiler

end ControlScript
