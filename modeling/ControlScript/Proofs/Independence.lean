import ControlScript.Proofs.Emission
import ControlScript.Proofs.OpenBlocks
import ControlScript.Proofs.Programs
import ControlScript.Proofs.Wording

/-!
# A program does not depend on what came before it

What an accepted program is compiled to depends on its text alone. What the compiler has been given
before, the variables that there are and the readings may have the program refused, but they do not
show in the statements, nor in what the compiler remembers afterwards. Only a program that was left
unfinished shows: it is given up first.

## Main results

* `Compiler.frames_of_accepted` — no line of an accepted program ends it but the last
* `Compiler.readAll?_unique` — a text is read as the same lines, whatever came before
* `Compiler.compiled_alike` — two compilers with the same program
-/

namespace ControlScript.Compiler

variable {limits : Limits} {c d : Compiler} {vars vars' : Variables} {readings readings' : Readings}
  {opening closing : String} {body texts : List String} {faulty faulty' : Bool}

/-- Outside of a program an end is refused, and so is a text that ends with one and begins none. -/
theorem faults_of_outside (outside : c.compiling = false)
    (closes : Keyword.ofText? closing = some .finish)
    (noBegin : ∀ text ∈ body, Keyword.ofText? text ≠ some .begin) :
    (c.compileAll vars readings (body ++ [closing])).faults ≠ [] := by
  intro accepted
  induction body generalizing c vars with
  | nil =>
    simp only [List.nil_append, compileAll, List.append_nil, Option.toList_eq_nil_iff] at accepted
    -- The end is all that is left, and outside of a program nothing answers it.
    have stray : Keyword.ofText? closing ≠ some .begin := by rw [closes]; decide
    obtain ⟨l, vars', code, read, -, answers⟩ := exists_answer_of_accepted outside stray accepted
    cases l with
    | none => cases (Line.ofText?_of_blank read).symm.trans closes
    | some l =>
      rw [Option.elim_some, (Line.ofText?_of_read? read).2.mpr closes] at answers
      exact answers
  | cons text body ih =>
    simp only [List.cons_append, compileAll, List.append_eq_nil_iff, Option.toList_eq_nil_iff]
      at accepted
    obtain ⟨l, vars', code, -, compiled, -⟩ :=
      exists_answer_of_accepted outside (noBegin text List.mem_cons_self) accepted.1
    rw [compiled] at accepted
    exact ih outside (fun t member => noBegin t (List.mem_cons_of_mem text member)) accepted.2

/-- If a program is accepted up to its last line, which ends it, no line before ends it. -/
theorem ne_finish_of_accepted (inProgram : c.compiling = true)
    (closes : Keyword.ofText? closing = some .finish)
    (noBegin : ∀ text ∈ body, Keyword.ofText? text ≠ some .begin)
    (accepted : (c.compileAll vars readings (body ++ [closing])).faults = []) :
    ∀ text ∈ body, Keyword.ofText? text ≠ some .finish := by
  induction body generalizing c vars with
  | nil => exact List.forall_mem_nil _
  | cons text body ih =>
    simp only [List.cons_append, compileAll, List.append_eq_nil_iff, Option.toList_eq_nil_iff]
      at accepted
    obtain ⟨here, later⟩ := List.forall_mem_cons.mp noBegin
    obtain ⟨code, -, ⟨goesOn, -, inProgram', -⟩ | ⟨idle, -, -⟩⟩ :=
      emitted_of_accepted inProgram here accepted.1
    · exact List.forall_mem_cons.mpr ⟨goesOn, ih inProgram' later accepted.2⟩
    -- If the line ended the program, the end that is still to come would be refused.
    · exact absurd accepted.2 (faults_of_outside idle closes later)

/-- A text that begins a program, begins no other and ends with an end, and that is accepted, frames
one program. -/
theorem frames_of_accepted (opens : Keyword.ofText? opening = some .begin)
    (noBegin : ∀ text ∈ body, Keyword.ofText? text ≠ some .begin)
    (closes : Keyword.ofText? closing = some .finish)
    (accepted : (c.compileAll vars readings (opening :: (body ++ [closing]))).faults = []) :
    Frames opening body closing := by
  refine ⟨opens, closes, fun text member => ⟨noBegin text member, ?_⟩⟩
  simp only [compileAll, List.append_eq_nil_iff, Option.toList_eq_nil_iff] at accepted
  obtain ⟨after, compiled⟩ := exists_compileLine_of_begin opens accepted.1
  rw [compiled] at accepted
  exact ne_finish_of_accepted rfl closes noBegin accepted.2 text member

/-- A text is read as the same lines, whatever came before and whatever names refer to. -/
theorem readAll?_unique {lines lines' : List Line}
    (read : c.readAll? vars readings texts = some lines)
    (read' : d.readAll? vars' readings' texts = some lines') : lines = lines' := by
  induction texts generalizing c d vars vars' lines lines' with
  | nil =>
    cases read
    cases read'
    rfl
  | cons text texts ih =>
    simp only [readAll?, Option.bind_eq_some_iff, Option.map_eq_some_iff, Prod.exists]
      at read read'
    obtain ⟨l, _, said, more, later, rfl⟩ := read
    obtain ⟨l', _, said', more', later', rfl⟩ := read'
    -- What a line says is a matter of its text, though names are looked up on the way.
    rw [Line.Says.unique ⟨_, _, _, said⟩ ⟨_, _, _, said'⟩, ih later later']

/-- What is emitted to give up the program that a compiler is in, if it is in one. -/
def givingUp (c : Compiler) : List Instruction := if c.compiling then [.abortDownload] else []

/-- Two compilers with the same limits that accept the same program compile it to the same bytes,
and they remember the same afterwards, whatever they have been given before. If one of them was in
another program, that is given up first. -/
theorem compiled_alike (reached : Reached limits faulty c) (reached' : Reached limits faulty' d)
    (opens : Keyword.ofText? opening = some .begin)
    (noBegin : ∀ text ∈ body, Keyword.ofText? text ≠ some .begin)
    (closes : Keyword.ofText? closing = some .finish)
    (accepted : (c.compileAll vars readings (opening :: (body ++ [closing]))).faults = [])
    (accepted' : (d.compileAll vars' readings' (opening :: (body ++ [closing]))).faults = []) :
    let s := c.compileAll vars readings (opening :: (body ++ [closing]))
    let t := d.compileAll vars' readings' (opening :: (body ++ [closing]))
    (∃ bytes, Instruction.encode s.emitted = Instruction.encode c.givingUp ++ bytes ∧
      Instruction.encode t.emitted = Instruction.encode d.givingUp ++ bytes) ∧
      s.compiler.nextLabel = t.compiler.nextLabel ∧ s.compiler.depth = t.compiler.depth ∧
      s.compiler.compiling = t.compiler.compiling ∧
      s.compiler.programError = t.compiler.programError := by
  intro s t
  have frames := frames_of_accepted opens noBegin closes accepted
  obtain ⟨script, start, lines, read, inside, formed⟩ := exists_spells_of_accepted frames accepted
  -- The other compiler reads the same lines, which form the same script.
  obtain ⟨_, _, _, read', -⟩ := exists_readAll?_of_accepted frames accepted'
  rw [← readAll?_unique read read'] at read'
  -- The script was formed within the limit of the first compiler, which is that of the other.
  have formed' : Forms d.blocks.limit 0 false 0 lines script := by
    rwa [limit_of_reached reached', ← limit_of_reached reached]
  obtain ⟨-, emitted, labels, idle, depth, faultless⟩ := compileAll_of_forms inside read formed
  obtain ⟨-, emitted', labels', idle', depth', faultless'⟩ :=
    compileAll_of_forms inside read' formed'
  refine ⟨⟨Instruction.encode (.beginDownload :: (script.code 0 0 ++ [.endDownload])), ?_, ?_⟩,
    labels.trans labels'.symm, depth.trans depth'.symm, idle.trans idle'.symm,
    faultless.trans faultless'.symm⟩
  · rw [emitted, Instruction.encode_append, givingUp]
  · rw [emitted', Instruction.encode_append, givingUp]

/-- One compiler has not seen a line, the other is in a loop of another program that has a fault. -/
theorem compiled_alike_of_restart :
    let c := ofLimits {}
    let first := c.compileLine (.ofLimits {}) {} "begin"
    let second := first.compiler.compileLine first.vars {} "do"
    let third := second.compiler.compileLine second.vars {} "println 1"
    let d := third.compiler
    let text := "begin" :: (["if 1<2", "  x=1"] ++ ["end"])
    let s := c.compileAll (.ofLimits {}) {} text
    let t := d.compileAll third.vars {} text
    Reached {} true d ∧ s.faults = [] ∧ t.faults = [] ∧
      Instruction.encode t.emitted = Instruction.encode [.abortDownload] ++
        Instruction.encode s.emitted ∧ s.compiler.nextLabel = t.compiler.nextLabel := by
  intro c first second third d text s t
  have outcomes : first.fault = none ∧ second.fault = none ∧ third.fault ≠ none := by
    decide +kernel
  have reached : Reached {} true d :=
    ((Reached.start.accepted _ _ _ outcomes.1).accepted _ _ _ outcomes.2.1).refused _ _ _
      outcomes.2.2
  have accepted : (c.compileAll (.ofLimits {}) {}
      ("begin" :: (["if 1<2", "  x=1"] ++ ["end"]))).faults = [] := by decide +kernel
  have accepted' : (d.compileAll third.vars {}
      ("begin" :: (["if 1<2", "  x=1"] ++ ["end"]))).faults = [] := by decide +kernel
  have frames : Frames "begin" ["if 1<2", "  x=1"] "end" :=
    ⟨by decide +kernel, by decide +kernel, by decide +kernel⟩
  have idle : c.givingUp = [] := by decide +kernel
  have restarts : d.givingUp = [.abortDownload] := by decide +kernel
  have fresh : Reached {} false c := .start
  clear_value third c
  obtain ⟨⟨bytes, emitted, emitted'⟩, labels, -⟩ := compiled_alike fresh reached frames.opens
    (fun text member => (frames.inside text member).1) frames.closes accepted accepted'
  refine ⟨reached, accepted, accepted', ?_, labels⟩
  calc Instruction.encode t.emitted = Instruction.encode d.givingUp ++ bytes := emitted'
    _ = Instruction.encode [.abortDownload] ++ (Instruction.encode c.givingUp ++ bytes) := by
      rw [restarts, idle]
      rfl
    _ = Instruction.encode [.abortDownload] ++ Instruction.encode s.emitted := by rw [← emitted]

end ControlScript.Compiler
