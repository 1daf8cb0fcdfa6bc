import ControlScript.Proofs.Lines

/-!
# Transcripts

What a compiler makes of line after line. A transcript collects what the lines are compiled to
and their faults; a text is accepted if there are none.

## Main definitions

* `Transcript`, `Compiler.compileAll` — line after line
* `Compiler.readAll?` — what the lines say, each with the variables that it finds
* `Compiler.heedAll` — heeding line after line

## Main results

* `Compiler.compileLine_of_heed` — a line that is heeded is compiled to what that emits
* `Compiler.exists_of_accepted` — a line of a program without a fault is read and heeded
* `Compiler.compileAll_of_readAll?` — a text that can be read is accepted just if it is heeded
* `Compiler.exists_readAll?_of_accepted` — a program that is accepted can be read
-/

namespace ControlScript

namespace Compiler

variable {c : Compiler} {vars : Variables} {readings : Readings} {text : String}

/-- In a program, the work on a line succeeds just if the line is read and heeded. -/
theorem success?_draft (scope : Scope)
    (heard : c.compiling = true ∨ Keyword.ofText? text = some .begin) :
    ((Attempt.success? (c.draft scope text)).map fun (_, d) =>
        (d.compiler, d.scope.vars, d.emitted)) =
      (Line.read? c.lineLength scope text).bind fun (l, vars) =>
        match l with
        | none => some (c, vars, [])
        | some l => (c.heed l).map fun (after, code) => (after, vars, code) := by
  unfold draft Line.read?
  split
  · rfl
  · rw [Compile.success?_line heard]
    simp only [Option.map_bind, Option.bind_map, Function.comp_def]
    refine Option.bind_congr ?_
    rintro ⟨l, p⟩ -
    cases l with
    | none => rfl
    | some l =>
      rw [Option.map_map]
      rfl

/-- A line that is heeded, in a program or as the first of one, is compiled to what that
emits. -/
theorem compileLine_of_heed {l : Line} {after : Compiler} {code : List Instruction}
    {vars' : Variables} (heard : c.compiling = true ∨ l.sentence = .begin)
    (read : Line.read? c.lineLength { vars, readings } text = some (some l, vars'))
    (heeded : c.countLine.heed l = some (after, code)) :
    c.compileLine vars readings text =
      { compiler := after, vars := vars', emitted := code, fault := none } := by
  have heard' : c.countLine.compiling = true ∨ Keyword.ofText? text = some .begin := by
    rw [compiling_countLine]
    exact heard.imp_right fun begins => (Line.ofText?_of_read? read).1.mp begins
  have success := success?_draft { vars, readings } heard'
  rw [lineLength_countLine, read] at success
  simp only [Option.bind_some, heeded, Option.map_some, Option.map_eq_some_iff, Prod.exists,
    Prod.mk.injEq] at success
  obtain ⟨_, d, done, rfl, rfl, rfl⟩ := success
  rw [Attempt.success?_eq_some_iff] at done
  simp [compileLine, done]

/-- A line that says nothing is counted and changes nothing else. -/
theorem compileLine_of_blank {vars' : Variables}
    (read : Line.read? c.lineLength { vars, readings } text = some (none, vars')) :
    c.compileLine vars readings text =
      { compiler := c.countLine, vars := vars', emitted := [], fault := none } := by
  unfold Line.read? at read
  split at read
  · cases read
  next fits =>
    simp only [Option.map_eq_some_iff, Prod.exists, Prod.mk.injEq] at read
    obtain ⟨_, p, parsed, rfl, rfl⟩ := read
    let start : Draft :=
      { rest := Bytes.ofChars (trimEnd text.toList)
        compiler := c.countLine
        scope := { vars, readings } }
    have done : c.countLine.draft { vars, readings } text = .ok () (start.withPassage p) := by
      rw [draft, lineLength_countLine, if_neg fits, ← Attempt.success?_eq_some_iff]
      exact Compile.success?_line_of_blank (d := start) parsed
    rw [compileLine, done]
    rfl

/-- A line of a program without a fault is read, and heeded if it says anything. -/
theorem exists_of_accepted (heard : c.compiling = true ∨ Keyword.ofText? text = some .begin)
    (accepted : (c.compileLine vars readings text).fault = none) :
    ∃ l vars', Line.read? c.lineLength { vars, readings } text = some (l, vars') ∧
      ∀ said ∈ l, ∃ after code, c.countLine.heed said = some (after, code) := by
  have heard' : c.countLine.compiling = true ∨ Keyword.ofText? text = some .begin := by
    rwa [compiling_countLine]
  have success := success?_draft { vars, readings } heard'
  rw [lineLength_countLine] at success
  cases done : c.countLine.draft { vars, readings } text with
  | error f d => simp [compileLine, done] at accepted
  | ok u d =>
    rw [done, Attempt.success?_ok, Option.map_some, eq_comm, Option.bind_eq_some_iff] at success
    obtain ⟨⟨l, vars'⟩, read, heeded⟩ := success
    refine ⟨l, vars', read, fun said member => ?_⟩
    rw [Option.mem_def.mp member] at heeded
    simp only [Option.map_eq_some_iff, Prod.exists] at heeded
    obtain ⟨after, code, heeded, -⟩ := heeded
    exact ⟨after, code, heeded⟩

/-- A line of a program that can be read has a fault if it is not heeded. -/
theorem fault_of_not_heeded {l : Line} {vars' : Variables}
    (heard : c.compiling = true ∨ Keyword.ofText? text = some .begin)
    (read : Line.read? c.lineLength { vars, readings } text = some (some l, vars'))
    (unheeded : c.countLine.heed l = none) : (c.compileLine vars readings text).fault ≠ none := by
  intro accepted
  obtain ⟨_, _, again, heeded⟩ := exists_of_accepted heard accepted
  cases read.symm.trans again
  obtain ⟨_, _, heeded⟩ := heeded l rfl
  cases unheeded.symm.trans heeded

end Compiler

/-- What a text is compiled to. -/
structure Transcript where
  /-- The compiler after the last line. -/
  compiler : Compiler
  /-- The variables after the last line. -/
  vars : Variables
  emitted : List Instruction := []
  /-- What is wrong with the lines, in their order. -/
  faults : List Fault := []
deriving DecidableEq, Repr

namespace Compiler

/-- Compiles line after line. -/
def compileAll (c : Compiler) (vars : Variables) (readings : Readings) : List String → Transcript
  | [] => { compiler := c, vars }
  | text :: texts =>
    let first := c.compileLine vars readings text
    let later := first.compiler.compileAll first.vars readings texts
    { later with
      emitted := first.emitted ++ later.emitted
      faults := first.fault.toList ++ later.faults }

/-- What the lines of a text say, if each of them is well formed on its own when it is reached.
Blank lines and comments say nothing. -/
def readAll? (c : Compiler) (vars : Variables) (readings : Readings) :
    List String → Option (List Line)
  | [] => some []
  | text :: texts =>
    (Line.read? c.lineLength { vars, readings } text).bind fun (l, _) =>
      let first := c.compileLine vars readings text
      (first.compiler.readAll? first.vars readings texts).map fun lines => l.toList ++ lines

/-- What is read line after line is read from one of the lines. -/
theorem exists_text_of_readAll? {c : Compiler} {vars : Variables} {readings : Readings}
    {texts : List String} {lines : List Line}
    (read : c.readAll? vars readings texts = some lines) :
    ∀ l ∈ lines, ∃ text ∈ texts, ∃ limit scope after,
      Line.read? limit scope text = some (some l, after) := by
  induction texts generalizing c vars lines with
  | nil =>
    cases read
    exact List.forall_mem_nil _
  | cons text texts ih =>
    simp only [readAll?, Option.bind_eq_some_iff, Option.map_eq_some_iff, Prod.exists] at read
    obtain ⟨l, vars', first, more, later, rfl⟩ := read
    intro m member
    rcases List.mem_append.mp member with now | inMore
    · rw [Option.mem_toList.mp now] at first
      exact ⟨text, List.mem_cons_self, _, _, vars', first⟩
    · obtain ⟨text', member', found⟩ := ih later m inMore
      exact ⟨text', List.mem_cons_of_mem text member', found⟩

/-- Heeds line after line. -/
def heedAll (c : Compiler) : List Line → Option (Compiler × List Instruction)
  | [] => some (c, [])
  | l :: lines =>
    (c.heed l).bind fun (after, code) =>
      (after.heedAll lines).map fun (last, more) => (last, code ++ more)

theorem heedAll_append (c : Compiler) (before after : List Line) :
    c.heedAll (before ++ after) = (c.heedAll before).bind fun (d, code) =>
      (d.heedAll after).map fun (last, more) => (last, code ++ more) := by
  induction before generalizing c with
  | nil => simp [heedAll]
  | cons l before ih =>
    simp only [List.cons_append, heedAll, ih, Option.bind_assoc, Option.bind_map,
      Option.map_bind, Function.comp_def, Option.map_map, List.append_assoc]

/-- In a program, the lines inside it concern the nest alone. -/
theorem heedAll_of_inside (c : Compiler) {lines : List Line}
    (inside : ∀ l ∈ lines, l.sentence.isFrame = false) :
    c.heedAll lines = (c.nest.acceptAll lines).map fun (n, code) => (c.withNest n, code) := by
  induction lines generalizing c with
  | nil => rfl
  | cons l lines ih =>
    have rest (n : Nest) := ih (c.withNest n)
      fun m member => inside m (List.mem_cons_of_mem l member)
    simp [heedAll, Nest.acceptAll, heed_of_not_isFrame c (inside l List.mem_cons_self), rest,
      Option.bind_map, Option.map_bind, Function.comp_def]

/-- The compiler without the number of its line, on which nothing but the wording of faults
depends. -/
def unnumbered (c : Compiler) : Compiler := { c with lineNumber := 0 }

@[simp] theorem unnumbered_countLine (c : Compiler) : c.countLine.unnumbered = c.unnumbered := by
  unfold countLine
  split <;> rfl

theorem heed_unnumbered (c : Compiler) (l : Line) :
    c.unnumbered.heed l = (c.heed l).map fun (after, code) => (after.unnumbered, code) := by
  by_cases inside : l.sentence.isFrame = false
  · rw [heed_of_not_isFrame _ inside, heed_of_not_isFrame _ inside, Option.map_map]
    rfl
  · unfold heed
    cases said : l.sentence with
    | begin => rfl
    | finish =>
      simp only
      rw [show c.unnumbered.compiling = c.compiling from rfl,
        show c.unnumbered.programError = c.programError from rfl]
      split
      · rw [Option.map_map]
        rfl
      · rfl
    | _ => simp [said, Sentence.isFrame] at inside

/-- Whether every line finds a program under way or begins one. -/
def Heard (inProgram : Bool) : List Line → Prop
  | [] => True
  | l :: lines =>
    (inProgram = true ∨ l.sentence = .begin) ∧
      Heard (l.sentence == .begin || (inProgram && l.sentence != .finish)) lines

/-- Whether a program is under way after a line that was heeded. -/
theorem compiling_of_heed {c after : Compiler} {l : Line} {code : List Instruction}
    (heeded : c.heed l = some (after, code)) :
    after.compiling = (l.sentence == .begin || (c.compiling && l.sentence != .finish)) := by
  by_cases inside : l.sentence.isFrame = false
  · obtain ⟨noBegin, noEnd⟩ := Sentence.isFrame_eq_false_iff.mp inside
    rw [heed_of_not_isFrame _ inside] at heeded
    simp only [Option.map_eq_some_iff, Prod.exists, Prod.mk.injEq] at heeded
    obtain ⟨n, _, -, rfl, -⟩ := heeded
    rw [beq_eq_false_iff_ne.mpr noBegin, bne_iff_ne.mpr noEnd, Bool.false_or, Bool.and_true]
    rfl
  · unfold heed at heeded
    cases said : l.sentence with
    | begin =>
      simp only [said, Option.some.injEq, Prod.mk.injEq] at heeded
      obtain ⟨rfl, -⟩ := heeded
      rfl
    | finish =>
      simp only [said] at heeded
      split at heeded
      · simp only [Option.map_eq_some_iff, Prod.exists, Prod.mk.injEq] at heeded
        obtain ⟨n, _, -, rfl, -⟩ := heeded
        simp [leave]
      · cases heeded
    | _ => simp [said, Sentence.isFrame] at inside

/-- Compilers that differ in the number of the line alone heed the same lines, and differ in no more
afterwards. -/
theorem heed_cases {c d : Compiler} (same : d.unnumbered = c.unnumbered) (l : Line) :
    (d.heed l = none ∧ c.countLine.heed l = none) ∨
      ∃ after reached code, d.heed l = some (after, code) ∧
        c.countLine.heed l = some (reached, code) ∧ after.unnumbered = reached.unnumbered := by
  have alike : d.unnumbered.heed l = c.countLine.unnumbered.heed l := by
    rw [same, unnumbered_countLine]
  rw [heed_unnumbered, heed_unnumbered] at alike
  cases heeded : d.heed l with
  | none =>
    rw [heeded, Option.map_none, eq_comm, Option.map_eq_none_iff] at alike
    exact .inl ⟨rfl, alike⟩
  | some result =>
    obtain ⟨after, _⟩ := result
    rw [heeded, Option.map_some, eq_comm, Option.map_eq_some_iff] at alike
    obtain ⟨⟨reached, code⟩, done, equal⟩ := alike
    obtain ⟨alike, rfl⟩ := Prod.mk.injEq _ _ _ _ ▸ equal
    exact .inr ⟨after, reached, code, rfl, done, alike.symm⟩

/-- A text that can be read is compiled to what heeding its lines emits, and it has a fault if
one of them is not heeded. The number of the line makes no difference. The induction is on the text,
where blank lines say nothing. -/
theorem compileAll_of_readAll? {c d : Compiler} {vars : Variables} {readings : Readings}
    {texts : List String} {lines : List Line} (same : d.unnumbered = c.unnumbered)
    (heard : Heard c.compiling lines) (read : c.readAll? vars readings texts = some lines) :
    (d.heedAll lines = none → (c.compileAll vars readings texts).faults ≠ []) ∧
      ∀ after code, d.heedAll lines = some (after, code) →
        (c.compileAll vars readings texts).faults = [] ∧
        (c.compileAll vars readings texts).emitted = code ∧
        (c.compileAll vars readings texts).compiler.unnumbered = after.unnumbered := by
  induction texts generalizing c d vars lines with
  | nil =>
    cases read
    refine ⟨nofun, fun after code heeded => ?_⟩
    cases heeded
    exact ⟨rfl, rfl, same.symm⟩
  | cons text texts ih =>
    simp only [readAll?, Option.bind_eq_some_iff, Option.map_eq_some_iff, Prod.exists] at read
    obtain ⟨l, vars', first, more, later, rfl⟩ := read
    cases l with
    | none =>
      have compiled := compileLine_of_blank first
      rw [compiled] at later
      have rest := ih (d := d) (by simpa using same) (by simpa using heard) later
      simpa [compileAll, compiled] using rest
    | some l =>
      obtain ⟨now, next⟩ := heard
      have keyword : c.compiling = true ∨ Keyword.ofText? text = some .begin :=
        now.imp_right (Line.ofText?_of_read? first).1.mp
      obtain ⟨heeded, refused⟩ | ⟨after, reached, code, heeded, done, alike⟩ := heed_cases same l
      · have faulty := fault_of_not_heeded keyword first refused
        exact ⟨fun _ => by simp [compileAll, faulty], fun after code all => by
          simp [heedAll, heeded] at all⟩
      · have compiled := compileLine_of_heed now first done
        rw [compiled] at later
        have heard : Heard reached.compiling more := by
          rw [compiling_of_heed done, compiling_countLine]
          exact next
        obtain ⟨refused, done⟩ := ih (d := after) alike heard later
        have first : d.heedAll (l :: more) = (after.heedAll more).map fun (last, rest) =>
            (last, code ++ rest) := by
          simp [heedAll, heeded]
        have split : c.compileAll vars readings (text :: texts) =
            { reached.compileAll vars' readings texts with
              emitted := code ++ (reached.compileAll vars' readings texts).emitted } := by
          simp [compileAll, compiled]
        rw [show (some l).toList ++ more = l :: more from rfl, first, split]
        refine ⟨fun none => refused (Option.map_eq_none_iff.mp none), fun last all heeded => ?_⟩
        simp only [Option.map_eq_some_iff, Prod.exists, Prod.mk.injEq] at heeded
        obtain ⟨_, rest, heeded, rfl, rfl⟩ := heeded
        obtain ⟨faultless, emitted, alike⟩ := done _ _ heeded
        exact ⟨faultless, by rw [emitted], alike⟩

/-- A program is heeded just if its nest accepts the lines inside it and can be finished. -/
theorem heedAll_program (c : Compiler) (start indent : Nat) {body : List Line}
    (inside : ∀ l ∈ body, l.sentence.isFrame = false) :
    c.heedAll ({ indent := start, sentence := .begin } :: (body ++
        [{ indent, sentence := .finish }])) =
      (Nest.acceptAll { limit := c.blocks.limit } body).bind fun (n, code) =>
        (n.finish indent).map fun (m, more) => ((c.begun.withNest m).leave,
          (if c.compiling then [.abortDownload] else []) ++
            .beginDownload :: (code ++ (more ++ [.endDownload]))) := by
  have last (n : Nest) : (c.begun.withNest n).heed { indent, sentence := .finish } =
      (n.finish indent).map fun (m, more) =>
        ((c.begun.withNest m).leave, more ++ [.endDownload]) := rfl
  rw [heedAll, show c.heed { indent := start, sentence := .begin } = some (c.begun,
    (if c.compiling then [.abortDownload] else []) ++ [.beginDownload]) from rfl]
  simp only [Option.bind_some, heedAll_append, heedAll_of_inside _ inside, heedAll,
    Function.comp_def, last, Option.map_eq_bind, Option.bind_assoc,
    Option.bind_some, List.append_nil, List.append_assoc, List.singleton_append]
  rfl

end Compiler

/-- A text that begins and ends one program. -/
structure Frames (opening : String) (body : List String) (closing : String) : Prop where
  opens : Keyword.ofText? opening = some .begin
  closes : Keyword.ofText? closing = some .finish
  inside : ∀ text ∈ body, Keyword.ofText? text ≠ some .begin ∧
    Keyword.ofText? text ≠ some .finish

namespace Compiler

variable {c : Compiler} {vars : Variables} {readings : Readings}

/-- What is accepted inside a program, up to its end, can be read. -/
theorem exists_readAll?_of_inside {body : List String} {closing : String}
    (inProgram : c.compiling = true) (closes : Keyword.ofText? closing = some .finish)
    (inside : ∀ text ∈ body, Keyword.ofText? text ≠ some .begin ∧
      Keyword.ofText? text ≠ some .finish)
    (accepted : (c.compileAll vars readings (body ++ [closing])).faults = []) :
    ∃ lines indent, c.readAll? vars readings (body ++ [closing]) =
      some (lines ++ [{ indent, sentence := .finish }]) ∧
        ∀ l ∈ lines, l.sentence.isFrame = false := by
  induction body generalizing c vars with
  | nil =>
    simp only [List.nil_append, compileAll, List.append_nil, Option.toList_eq_nil_iff] at accepted
    obtain ⟨l, vars', read, -⟩ := exists_of_accepted (.inl inProgram) accepted
    cases l with
    | none => cases (Line.ofText?_of_blank read).symm.trans closes
    | some l =>
      obtain ⟨indent, s⟩ := l
      obtain rfl : s = .finish := (Line.ofText?_of_read? read).2.mpr closes
      exact ⟨[], indent, by simp [readAll?, read], by simp⟩
  | cons text body ih =>
    simp only [List.cons_append, compileAll, List.append_eq_nil_iff, Option.toList_eq_nil_iff]
      at accepted
    obtain ⟨l, vars', read, heeded⟩ := exists_of_accepted (.inl inProgram) accepted.1
    cases l with
    | none =>
      have compiled := compileLine_of_blank read
      rw [compiled] at accepted
      obtain ⟨lines, indent, later, plain⟩ := ih (by simpa using inProgram)
        (fun t member => inside t (List.mem_cons_of_mem text member)) accepted.2
      refine ⟨lines, indent, ?_, plain⟩
      simp [readAll?, read, compiled, later]
    | some l =>
      obtain ⟨after, code, heeded⟩ := heeded l rfl
      have compiled := compileLine_of_heed (.inl inProgram) read heeded
      rw [compiled] at accepted
      have words := Line.ofText?_of_read? read
      have apart : l.sentence ≠ .begin ∧ l.sentence ≠ .finish := by
        obtain ⟨noBegin, noEnd⟩ := inside text List.mem_cons_self
        exact ⟨fun same => noBegin (words.1.mp same), fun same => noEnd (words.2.mp same)⟩
      have plain := Sentence.isFrame_eq_false_iff.mpr apart
      have inProgram' : after.compiling = true := by
        rw [compiling_of_heed heeded, compiling_countLine, inProgram]
        simp [bne_iff_ne.mpr apart.2]
      obtain ⟨lines, indent, later, rest⟩ := ih inProgram'
        (fun t member => inside t (List.mem_cons_of_mem text member)) accepted.2
      refine ⟨l :: lines, indent, ?_, List.forall_mem_cons.mpr ⟨plain, rest⟩⟩
      simp [readAll?, read, compiled, later]

/-- A program that is accepted from its beginning to its end can be read. -/
theorem exists_readAll?_of_accepted {opening closing : String} {body : List String}
    (frames : Frames opening body closing)
    (accepted : (c.compileAll vars readings (opening :: (body ++ [closing]))).faults = []) :
    ∃ start lines indent, c.readAll? vars readings (opening :: (body ++ [closing])) =
      some ({ indent := start, sentence := .begin } ::
          (lines ++ [{ indent, sentence := .finish }])) ∧
        ∀ l ∈ lines, l.sentence.isFrame = false := by
  simp only [compileAll, List.append_eq_nil_iff, Option.toList_eq_nil_iff] at accepted
  obtain ⟨l, vars', read, heeded⟩ := exists_of_accepted (.inr frames.opens) accepted.1
  cases l with
  | none => cases (Line.ofText?_of_blank read).symm.trans frames.opens
  | some l =>
    obtain ⟨start, s⟩ := l
    obtain rfl : s = .begin := (Line.ofText?_of_read? read).1.mpr frames.opens
    obtain ⟨after, code, heeded⟩ := heeded _ rfl
    have compiled := compileLine_of_heed (.inr rfl) read heeded
    have inProgram : after.compiling = true := by rw [compiling_of_heed heeded]; rfl
    rw [compiled] at accepted
    obtain ⟨lines, indent, later, plain⟩ :=
      exists_readAll?_of_inside inProgram frames.closes frames.inside accepted.2
    exact ⟨start, lines, indent, by simp [readAll?, read, compiled, later], plain⟩

end Compiler

end ControlScript
