import ControlScript.Proofs.Closed
import ControlScript.Proofs.Drafts

/-!
# The marks of a compiler

Between two lines a compiler remembers whether they belong to a program and whether the current or
the last program has a fault. Only the lines that frame a program touch these marks, apart from
what happens to a line with a fault; and from a program no line leads out without being its end.

## Main definitions

* `Compile.Steady` — work that leaves both marks as they are

## Main results

* `Compile.line_cases` — what a line does to the marks
* `Compiler.compileLine_cases` — the same, with the fault of the line taken into account
* `Compiler.marked_compileLine`, `Compiler.fault_of_run` — after a program with a fault no program is
  started until another one is begun
* `Compiler.emitted_of_refused` — what a line with a fault is compiled to
* `Compiler.emitted_of_accepted`, `Compiler.emitted_of_fault` — what the lines of a program are
  compiled to
-/

namespace ControlScript

open Attempt

namespace Compile

variable {α β : Type}

/-- Work that neither enters nor leaves a program and does not touch the mark of a faulty one. -/
def Steady (x : Compile α) : Prop :=
  ∀ d, (reached (x d)).compiler.compiling = d.compiler.compiling ∧
    (reached (x d)).compiler.programError = d.compiler.programError

theorem Within.steady {x : Compile α} (spares : x.Within Spared) : x.Steady := by
  intro d
  rw [spares.compiler_eq d]
  exact ⟨rfl, rfl⟩

theorem Steady.bind {x : Compile α} {next : α → Compile β} (first : x.Steady)
    (second : ∀ a, (next a).Steady) : Steady (x >>= next) := by
  intro d
  have before := first d
  rw [bind_apply]
  cases done : x d with
  | ok a e =>
    rw [done] at before
    have after := second a e
    exact ⟨after.1.trans before.1, after.2.trans before.2⟩
  | error f e =>
    rw [done] at before
    exact before

theorem Aligned.marks {c next : Compiler} {indent : Nat} {result : Option (Option Block)}
    (aligned : Aligned indent c result next) :
    next.compiling = c.compiling ∧ next.programError = c.programError := by
  cases aligned <;> exact ⟨rfl, rfl⟩

theorem Stated.marks {c next : Compiler} {indent : Nat} {matched : Option Block}
    (stated : Stated matched indent c next) :
    next.compiling = c.compiling ∧ next.programError = c.programError := by
  cases stated <;> exact ⟨rfl, rfl⟩

/-- The rules of indentation concern the blocks alone. -/
theorem steady_align (indent : Nat) : (align indent).Steady :=
  fun d => (aligned_align indent d).marks

/-- No statement but those that frame a program touches the marks. -/
theorem steady_statement (k : Option Keyword) (matched : Option Block) (indent : Nat) :
    (statement k matched indent).Steady := fun d => (stated_statement k matched indent d).marks

theorem steady_raw (indent : Nat) : (raw indent).Steady :=
  (steady_align indent).bind fun matched => (allows_spared.behind_raw matched).steady

/-- What the work on a line may have done to the marks, depending on the keyword of the line. -/
def Framing (d : Draft) (k : Option Keyword) (r : EStateM.Result Fault Draft Unit) : Prop :=
  ((reached r).compiler.compiling = d.compiler.compiling ∧
      (reached r).compiler.programError = d.compiler.programError) ∨
    (k = some .begin ∧ fault? r = none ∧ (reached r).compiler.compiling = true) ∨
    (k = some .finish ∧ d.compiler.compiling = true ∧
      (fault? r = none ∨ (reached r).compiler.programError = true))

/-- A line that begins a program touches nothing if it fails. -/
theorem beginProgram_cases (d : Draft) : reached (beginProgram d) = d ∨
    fault? (beginProgram d) = none ∧ (reached (beginProgram d)).compiler.compiling = true := by
  unfold beginProgram endOfLine
  rw [bind_apply, bind_apply, get_apply]
  by_cases ended : d.rest.isEmpty = true
  · refine .inr ?_
    simp only [ended, if_true, pure_apply, bind_apply, compiler]
    split <;> exact ⟨rfl, rfl⟩
  · simp [ended]

/-- A line that ends a program and fails leaves the mark of a faulty one. -/
theorem endProgram_cases (indent : Nat) (d : Draft) :
    reached (endProgram indent d) = d ∨ d.compiler.compiling = true ∧
      (fault? (endProgram indent d) = none ∨
        (reached (endProgram indent d)).compiler.programError = true) := by
  unfold endProgram
  by_cases inProgram : d.compiler.compiling = true
  · refine .inr ⟨inProgram, ?_⟩
    simp only [inProgram, Bool.not_true, Bool.false_eq_true, if_false]
    cases lastChecks indent d with
    | ok _ e => exact .inl rfl
    | error f e => exact .inr rfl
  · simp [inProgram]

theorem command_cases (indent : Nat) (d : Draft) :
    Framing d (Keyword.ofLine? d.rest) (command indent d) := by
  obtain ⟨rest, read⟩ := exists_keyword_eq d
  -- Words other than `begin` and `end` do not touch the marks.
  have steady (k : Option Keyword) : Steady (do
      let matched ← align indent
      statement k matched indent
      let _ ← scanning Scan.skipSpaces
      endOfLine) :=
    (steady_align indent).bind fun matched => (steady_statement k matched indent).bind fun _ =>
      allows_spared.behind_statement.steady
  unfold command
  rw [bind_apply, read]
  cases Keyword.ofLine? d.rest with
  | none => exact .inl (steady none { d with rest })
  | some k =>
    cases k
    case begin =>
      rcases beginProgram_cases { d with rest } with same | faultless
      · exact .inl (by rw [same]; exact ⟨rfl, rfl⟩)
      · exact .inr (.inl ⟨rfl, faultless⟩)
    case finish =>
      rcases endProgram_cases indent { d with rest } with same | ended
      · exact .inl (by rw [same]; exact ⟨rfl, rfl⟩)
      · exact .inr (.inr ⟨rfl, ended⟩)
    all_goals exact .inl (steady _ { d with rest })

/-- A line leaves the marks as they are unless it begins a program or ends one. -/
theorem line_cases (d : Draft) :
    Framing d (Keyword.ofLine? (d.rest.dropWhile (· == Byte.space))) (line d) := by
  rw [line_apply]
  dsimp only
  split
  · exact .inl ⟨rfl, rfl⟩
  split
  · exact .inl ⟨rfl, rfl⟩
  split
  · exact .inl (steady_raw _ { d with rest := (d.rest.dropWhile (· == Byte.space)).tail })
  · exact command_cases _ { d with rest := d.rest.dropWhile (· == Byte.space) }

/-- A line with a keyword is compiled as a command, if there is no control byte in it. -/
theorem line_of_keyword {d : Draft} {k : Keyword}
    (named : Keyword.ofLine? (d.rest.dropWhile (· == Byte.space)) = some k) :
    fault? (line d) ≠ none ∨ ∃ indent,
      line d = command indent { d with rest := d.rest.dropWhile (· == Byte.space) } := by
  obtain ⟨b, tail, spelled, letter⟩ := Keyword.exists_cons_of_ofLine? named
  have hash : b ≠ Byte.hash := fun same => absurd letter (by rw [same]; decide)
  have star : b ≠ Byte.star := fun same => absurd letter (by rw [same]; decide)
  rw [line_apply, spelled]
  by_cases control : (b :: tail).any Byte.isControl = true
  · refine .inl ?_
    simp [hash, control, fault?]
  · refine .inr ⟨(d.rest.takeWhile (· == Byte.space)).length, ?_⟩
    simp [hash, star, control]

/-- The word that starts the program is refused after a program with a fault. -/
theorem fault?_line_of_run {d : Draft}
    (runs : Keyword.ofLine? (d.rest.dropWhile (· == Byte.space)) = some .run)
    (faulty : d.compiler.programError = true) : fault? (line d) ≠ none := by
  -- What is done after steady work still finds the mark.
  have later {α : Type} {x : Compile α} {next : α → Compile Unit} (steady : x.Steady) {e : Draft}
      (marked : e.compiler.programError = true)
      (refused : ∀ a (f : Draft), f.compiler.programError = true → fault? (next a f) ≠ none) :
      fault? ((x >>= next) e) ≠ none := by
    have kept := (steady e).2.trans marked
    rw [bind_apply]
    cases done : x e with
    | ok a f =>
      rw [done] at kept
      exact refused a f kept
    | error g f => exact Option.some_ne_none g
  rcases line_of_keyword runs with stopped | ⟨indent, compiled⟩
  · exact stopped
  obtain ⟨rest, read⟩ :=
    exists_keyword_eq { d with rest := d.rest.dropWhile (· == Byte.space) }
  rw [compiled, command, bind_apply, read, runs]
  refine later (steady_align indent) faulty fun matched e marked => ?_
  have started : fault? (statement (some .run) matched indent e) ≠ none := by
    refine later (allows_spared.closeBlock matched).steady marked fun _ f marked =>
      later allows_spared.forbidProgram.steady marked fun _ g marked => ?_
    rw [bind_apply, compiler]
    dsimp only
    rw [if_pos marked]
    exact Option.some_ne_none _
  rw [bind_apply]
  cases done : statement (some .run) matched indent e with
  | ok u f =>
    rw [done] at started
    exact absurd rfl started
  | error g f => exact Option.some_ne_none g

end Compile

namespace Compiler

variable {c : Compiler} {vars : Variables} {readings : Readings} {text : String}

/-- A line leaves the marks as they are unless it begins a program, ends one, or has a fault and
stands in one. Only an `end` leads out of a program. -/
theorem compileLine_cases (c : Compiler) (vars : Variables) (readings : Readings) (text : String) :
    let compiled := c.compileLine vars readings text
    (compiled.compiler.compiling = c.compiling ∧
      (c.compiling = false → compiled.compiler.programError = c.programError)) ∨
    (Keyword.ofText? text = some .begin ∧ compiled.fault = none ∧
      compiled.compiler.compiling = true) ∨
    (Keyword.ofText? text = some .finish ∧ c.compiling = true ∧
      (compiled.fault = none ∨ compiled.compiler.programError = true)) := by
  -- A line that is too long changes nothing, whatever it says.
  have framing : Compile.Framing
      { rest := Bytes.ofChars (trimEnd text.toList), compiler := c.countLine
        scope := { vars, readings } }
      (Keyword.ofText? text) (c.countLine.draft { vars, readings } text) := by
    unfold draft
    dsimp only
    split
    · exact .inl ⟨rfl, rfl⟩
    · exact Compile.line_cases _
  unfold Compile.Framing at framing
  rw [compiling_countLine, programError_countLine] at framing
  unfold compileLine
  dsimp only
  cases done : c.countLine.draft { vars, readings } text with
  | ok u d =>
    rw [done] at framing
    rcases framing with ⟨same, kept⟩ | ⟨begins, -, inProgram⟩ | ⟨ends, inProgram, -⟩
    · exact .inl ⟨same, fun _ => kept⟩
    · exact .inr (.inl ⟨begins, rfl, inProgram⟩)
    · exact .inr (.inr ⟨ends, inProgram, .inl rfl⟩)
  | error f d =>
    rw [done] at framing
    rcases framing with ⟨same, kept⟩ | ⟨-, faultless, -⟩ | ⟨ends, inProgram, faultless | marked⟩
    · -- A fault marks the program only if the line still stands in one.
      refine .inl ⟨same, fun outside => ?_⟩
      rw [outside] at same
      change (d.compiler.compiling || d.compiler.programError) = c.programError
      rw [show d.compiler.compiling = false from same, Bool.false_or]
      exact kept
    · cases faultless
    · cases faultless
    · refine .inr (.inr ⟨ends, inProgram, .inr ?_⟩)
      change (d.compiler.compiling || d.compiler.programError) = true
      rw [show d.compiler.programError = true from marked, Bool.or_true]

/-- Outside of a program, no line but one that begins another takes the mark of a faulty one away. -/
theorem marked_compileLine (outside : c.compiling = false) (marked : c.programError = true)
    (noBegin : Keyword.ofText? text = some .begin → (c.compileLine vars readings text).fault ≠ none) :
    (c.compileLine vars readings text).compiler.compiling = false ∧
      (c.compileLine vars readings text).compiler.programError = true := by
  rcases compileLine_cases c vars readings text with
    ⟨same, error⟩ | ⟨begins, faultless, -⟩ | ⟨-, inProgram, -⟩
  · exact ⟨same.trans outside, (error outside).trans marked⟩
  · exact absurd faultless (noBegin begins)
  · cases inProgram.symm.trans outside

/-- After a program with a fault the word that starts the program is refused. -/
theorem fault_of_run (runs : Keyword.ofText? text = some .run) (faulty : c.programError = true) :
    (c.compileLine vars readings text).fault ≠ none := by
  have refused : fault? (c.countLine.draft { vars, readings } text) ≠ none := by
    unfold draft
    dsimp only
    split
    · exact nofun
    · exact Compile.fault?_line_of_run runs (c.programError_countLine.trans faulty)
  unfold compileLine
  dsimp only
  cases done : c.countLine.draft { vars, readings } text with
  | ok u d =>
    rw [done] at refused
    exact absurd rfl refused
  | error f d => exact nofun

end Compiler

namespace Nest

variable {P : Instruction → Prop} {n m : Nest} {indent : Nat} {matched : Option Block}
  {code : List Instruction}

theorem forall_mem_closing (jump : ∀ label, P (.jump label)) (declare : ∀ label, P (.declare label))
    (b : Block) : ∀ i ∈ b.closing, P i := by
  unfold Block.closing
  split <;> simp [jump, declare]

/-- What closes blocks are jumps and declarations. -/
theorem forall_mem_align (jump : ∀ label, P (.jump label)) (declare : ∀ label, P (.declare label))
    (aligned : n.align indent = some (m, matched, code)) : ∀ i ∈ code, P i := by
  unfold align at aligned
  split at aligned
  · split at aligned
    · cases aligned
    · cases aligned
      exact List.forall_mem_nil _
  split at aligned
  · cases aligned
  split at aligned
  · cases aligned
    exact List.forall_mem_nil _
  · dsimp only at aligned
    split at aligned
    · cases aligned
    split at aligned
    · cases aligned
      intro i member
      obtain ⟨b, -, closes⟩ := List.mem_flatMap.mp member
      exact forall_mem_closing jump declare b i closes
    · cases aligned

theorem forall_mem_obey {s : Sentence} (jump : ∀ label, P (.jump label))
    (declare : ∀ label, P (.declare label)) (said : s.Makes P)
    (obeyed : n.obey matched indent s = some (m, code)) : ∀ i ∈ code, P i := by
  have closes : ∀ i ∈ closing matched, P i := by
    cases matched with
    | none => exact List.forall_mem_nil _
    | some b => exact forall_mem_closing jump declare b
  cases s with
  | action a =>
    simp only [obey] at obeyed
    split at obeyed
    · cases obeyed
    · next stored =>
      cases obeyed
      exact List.forall_mem_append.mpr ⟨closes, said (by simpa using stored)⟩
  | breakLoop | continueLoop =>
    simp only [obey, Option.map_eq_some_iff, Prod.mk.injEq] at obeyed
    obtain ⟨loop, -, -, rfl⟩ := obeyed
    exact List.forall_mem_append.mpr ⟨closes, by simp [jump]⟩
  | ifThen holds | whileLoop holds =>
    simp only [obey, Option.map_eq_some_iff, Prod.mk.injEq] at obeyed
    obtain ⟨_, -, -, rfl⟩ := obeyed
    exact List.forall_mem_append.mpr ⟨closes, by simpa [declare] using said _⟩
  | elseThen =>
    simp only [obey, Option.bind_eq_some_iff, Option.map_eq_some_iff, Prod.mk.injEq] at obeyed
    obtain ⟨_, -, _, -, -, rfl⟩ := obeyed
    simp [jump, declare]
  | endif | endwhile =>
    simp only [obey, close, Option.map_eq_some_iff, Prod.mk.injEq] at obeyed
    obtain ⟨b, -, -, rfl⟩ := obeyed
    exact forall_mem_closing jump declare b
  | forever =>
    simp only [obey] at obeyed
    split at obeyed
    · cases obeyed
      exact closes
    · simp only [Option.map_eq_some_iff, Prod.mk.injEq] at obeyed
      obtain ⟨_, -, -, rfl⟩ := obeyed
      exact List.forall_mem_append.mpr ⟨closes, by simp [declare]⟩
  | doLoop =>
    simp only [obey, Option.map_eq_some_iff, Prod.mk.injEq] at obeyed
    obtain ⟨_, -, -, rfl⟩ := obeyed
    exact List.forall_mem_append.mpr ⟨closes, by simp [declare]⟩
  | untilTrue holds =>
    simp only [obey, Option.map_eq_some_iff, Prod.mk.injEq] at obeyed
    obtain ⟨_, -, -, rfl⟩ := obeyed
    exact List.forall_mem_cons.mpr ⟨said _, by simp [declare]⟩
  | immediate | begin | finish => cases obeyed

/-- What holds of the instructions for a sentence, and of jumps and declarations, holds of what a
line with the sentence is compiled to. -/
theorem forall_mem_accept {l : Line} (jump : ∀ label, P (.jump label))
    (declare : ∀ label, P (.declare label)) (said : l.sentence.Makes P)
    (accepted : n.accept l = some (m, code)) : ∀ i ∈ code, P i := by
  simp only [accept, Option.bind_eq_some_iff, Option.map_eq_some_iff, Prod.exists,
    Prod.mk.injEq] at accepted
  obtain ⟨_, _, _, aligned, _, _, obeyed, -, rfl⟩ := accepted
  exact List.forall_mem_append.mpr
    ⟨forall_mem_align jump declare aligned, forall_mem_obey jump declare said obeyed⟩

theorem forall_mem_finish (jump : ∀ label, P (.jump label)) (declare : ∀ label, P (.declare label))
    (finished : n.finish indent = some (m, code)) : ∀ i ∈ code, P i := by
  simp only [finish, Option.bind_eq_some_iff, Prod.exists] at finished
  obtain ⟨_, matched, _, aligned, last⟩ := finished
  split at last
  · cases last
    refine List.forall_mem_append.mpr ⟨forall_mem_align jump declare aligned, ?_⟩
    cases matched with
    | none => exact List.forall_mem_nil _
    | some b => exact forall_mem_closing jump declare b
  · cases last

end Nest

namespace Compiler

variable {c : Compiler} {vars : Variables} {readings : Readings} {text : String}

/-- A line that begins a program. -/
theorem exists_compileLine_of_begin (opens : Keyword.ofText? text = some .begin)
    (accepted : (c.compileLine vars readings text).fault = none) :
    ∃ after, c.compileLine vars readings text =
      { compiler := c.countLine.begun
        vars := after
        emitted := (if c.compiling then [.abortDownload] else []) ++ [.beginDownload]
        fault := none } := by
  obtain ⟨l, after, read, heeded⟩ := exists_of_accepted (.inr opens) accepted
  cases l with
  | none => cases (Line.ofText?_of_blank read).symm.trans opens
  | some l =>
    have said := (Line.ofText?_of_read? read).1.mpr opens
    refine ⟨after, compileLine_of_heed (.inr said) read ?_⟩
    simp [heed, said]

/-- What a line of a program is compiled to becomes part of the program, but for the statement
that the end of the program is compiled to. -/
theorem emitted_of_accepted (inProgram : c.compiling = true)
    (noBegin : Keyword.ofText? text ≠ some .begin)
    (accepted : (c.compileLine vars readings text).fault = none) :
    let compiled := c.compileLine vars readings text
    ∃ code : List Instruction, (∀ i ∈ code, i.Kept) ∧
      ((Keyword.ofText? text ≠ some .finish ∧ compiled.emitted = code ∧
          compiled.compiler.compiling = true ∧ compiled.compiler.programError = c.programError) ∨
        (compiled.compiler.compiling = false ∧ compiled.emitted = code ++ [.endDownload] ∧
          c.programError = false)) := by
  obtain ⟨l, vars', read, heeded⟩ := exists_of_accepted (.inl inProgram) accepted
  have error := c.programError_countLine
  cases l with
  | none =>
    rw [compileLine_of_blank read]
    exact ⟨[], List.forall_mem_nil _,
      .inl ⟨by simp [Line.ofText?_of_blank read], rfl, by simpa using inProgram, error⟩⟩
  | some l =>
    obtain ⟨after, code, heeded⟩ := heeded l rfl
    rw [compileLine_of_heed (.inl inProgram) read heeded]
    have words := Line.ofText?_of_read? read
    have jump (label : Nat) : (Instruction.jump label).Kept := ⟨trivial, rfl⟩
    have declare (label : Nat) : (Instruction.declare label).Kept := ⟨trivial, rfl⟩
    -- Only the end of the program adds a statement that is not part of it.
    by_cases last : l.sentence = .finish
    · simp only [heed, last] at heeded
      split at heeded
      · next faultless =>
        simp only [Option.map_eq_some_iff, Prod.exists, Prod.mk.injEq] at heeded
        obtain ⟨n, closers, finished, rfl, rfl⟩ := heeded
        refine ⟨closers, Nest.forall_mem_finish jump declare finished, .inr ⟨rfl, rfl, ?_⟩⟩
        simp only [error, Bool.and_eq_true, Bool.not_eq_true'] at faultless
        exact faultless.2
      · cases heeded
    · have inside : l.sentence.isFrame = false :=
        Sentence.isFrame_eq_false_iff.mpr ⟨fun same => noBegin (words.1.mp same), last⟩
      rw [heed_of_not_isFrame _ inside, Option.map_eq_some_iff] at heeded
      obtain ⟨⟨n, emitted⟩, accepted, same⟩ := heeded
      cases same
      have makes := (Line.read?_proper read).makes_kept
      exact ⟨_, Nest.forall_mem_accept jump declare makes accepted,
        .inl ⟨fun ends => last (words.2.mpr ends), rfl, by simpa using inProgram, error⟩⟩

/-- A faulty line is compiled to nothing, unless it leads out of a program: then it is compiled to
the statement that gives the download up. -/
theorem emitted_of_refused (faulty : (c.compileLine vars readings text).fault ≠ none) :
    let compiled := c.compileLine vars readings text
    compiled.emitted =
      if c.compiling && !compiled.compiler.compiling then [.abortDownload] else [] := by
  cases done : c.countLine.draft { vars, readings } text with
  | ok u d => exact absurd (by simp [compileLine, done]) faulty
  | error f d => simp [compileLine, done]

/-- A faulty line of a program is compiled to nothing, and to the end of the download if it ends
the program. In both cases the program is marked. -/
theorem emitted_of_fault (inProgram : c.compiling = true)
    (faulty : (c.compileLine vars readings text).fault ≠ none) :
    let compiled := c.compileLine vars readings text
    compiled.emitted = (if compiled.compiler.compiling then [] else [.abortDownload]) ∧
      compiled.compiler.programError = true := by
  have emitted := emitted_of_refused faulty
  have marks := compileLine_cases c vars readings text
  dsimp only at emitted marks ⊢
  rw [inProgram, Bool.true_and] at emitted
  refine ⟨?_, ?_⟩
  · rw [emitted]
    cases (c.compileLine vars readings text).compiler.compiling <;> rfl
  · rcases marks with ⟨same, -⟩ | ⟨-, faultless, -⟩ | ⟨-, -, faultless | marked⟩
    · -- The line stays in the program, which is marked for its fault.
      cases done : c.countLine.draft { vars, readings } text with
      | ok u d => exact absurd (by simp [compileLine, done]) faulty
      | error f d =>
        have stays : d.compiler.compiling = true := by
          rw [← inProgram, ← same]
          simp [compileLine, done]
        simp [compileLine, done, stays]
    · exact absurd faultless faulty
    · exact absurd faultless faulty
    · exact marked

end Compiler

end ControlScript
