import ControlScript.Proofs.Changes
import ControlScript.Proofs.Downloads
import ControlScript.Proofs.Execution
import ControlScript.Proofs.Faults
import ControlScript.Proofs.References

/-!
# What a compiler emits, a machine can carry out

Statements are written by the compiler and read by the machine, which know nothing of each other.
Still a statement that was emitted for a line without fault is read for what it was emitted for,
whenever and wherever it is executed. What can go wrong then are the values, the variables and
labels that are there, and the store: nothing that is wrong with the statement itself.

## Main definitions

* `Cause.dynamic` — what can go wrong with a statement that is in order
* `Machine.Faces` — the next tick takes up the statement of an instruction
* `Compiler.Used` — a table of variables that a compiler and a machine have used

## Main results

* `Machine.cause_of_perform` — performing an instruction
* `Compiler.statements_agree` — every statement that a line is compiled to
-/

namespace ControlScript

open Attempt

/-- What can go wrong when a statement is executed that is in order. -/
def Cause.dynamic : List Cause :=
  [.overflow, .divisionByZero, .unassignedVariable, .variableNotFound, .noRoomForVariable,
    .labelNotFound, .noProgram, .storageFailure]

/-- What is wrong with a statement itself is not among it. -/
example : ∀ cause ∈ [Cause.syntaxError, .invalidOperand, .missingOperator, .invalidIdentifier,
    .missingDestination, .invalidReading, .nameTooLong], cause ∉ Cause.dynamic := by decide

section

variable {scope : Scope} {f : Fault}

theorem Operand.mem_dynamic_of_value {o : Operand} (proper : o.Proper)
    (offered : o.Offered scope.readings) (stopped : o.value scope = .error f) :
    f.cause ∈ Cause.dynamic := by
  match o with
  | .literal l =>
    rw [Literal.cause_of_value stopped]
    decide
  | .reading name =>
    obtain ⟨value, there⟩ := Readings.exists_read? offered
    simp only [Operand.value, there] at stopped
    cases stopped
  | .variable name =>
    obtain missing | ⟨place, -, unassigned⟩ := bind_eq_error stopped
    · rw [Variables.cause_of_find_of_isName proper missing]
      decide
    · rcases Variables.cause_of_get unassigned with cause | cause <;> (rw [cause]; decide)

theorem Expression.mem_dynamic_of_value {e : Expression} (proper : e.Proper)
    (offered : ∀ o ∈ e.operands, o.Offered scope.readings) (stopped : e.value scope = .error f) :
    f.cause ∈ Cause.dynamic := by
  match e with
  | .single operand =>
    exact Operand.mem_dynamic_of_value proper (List.forall_mem_singleton.mp offered) stopped
  | .binary left operator right =>
    obtain failed | ⟨a, -, rest⟩ := bind_eq_error stopped
    · exact Operand.mem_dynamic_of_value proper.1 (offered left (by simp [operands])) failed
    obtain failed | ⟨b, -, applied⟩ := bind_eq_error rest
    · exact Operand.mem_dynamic_of_value proper.2 (offered right (by simp [operands])) failed
    · rcases Operator.cause_of_apply applied with cause | cause <;> (rw [cause]; decide)

theorem Condition.mem_dynamic_of_holds {c : Condition} (proper : c.Proper)
    (offered : ∀ o ∈ c.operands, o.Offered scope.readings) (stopped : c.holds scope = .error f) :
    f.cause ∈ Cause.dynamic := by
  obtain failed | ⟨a, -, rest⟩ := bind_eq_error stopped
  · exact Operand.mem_dynamic_of_value proper.1 (offered c.left (by simp [operands])) failed
  obtain failed | ⟨b, -, compared⟩ := bind_eq_error rest
  · exact Operand.mem_dynamic_of_value proper.2 (offered c.right (by simp [operands])) failed
  · cases compared

/-- A variable whose name is not too long is made if there is room for it. -/
theorem Variables.cause_of_findOrCreate {vs : Variables} {name : Bytes} (named : name.IsName)
    (short : name.length ≤ vs.nameLength) (failed : fault? (findOrCreate name vs) = some f) :
    f.cause = .noRoomForVariable := by
  unfold findOrCreate at failed
  split at failed
  · cases failed
  · next missing =>
    rw [if_pos (cause_of_find_of_isName named missing)] at failed
    simp only [create, show Bytes.identifier? name = some name from named,
      if_neg (Nat.not_lt.mpr short)] at failed
    split at failed
    · cases failed
      rfl
    · cases failed

theorem Variables.cause_of_set {vs : Variables} {slot : Nat} {value : Value}
    (failed : fault? (set slot value vs) = some f) : f.cause = .variableNotFound := by
  unfold set at failed
  split at failed
  · cases failed
    rfl
  · cases failed

theorem Store.cause_of_clear {s : Store} (failed : fault? (Store.clear s) = some f) :
    f.cause = .storageFailure := by
  obtain failed | ⟨_, t, -, failed⟩ := exists_of_fault?_bind failed
  · cases failed
  · unfold save at failed
    dsimp only at failed
    split at failed
    · cases failed
      rfl
    · cases failed

end

namespace Machine

open Command Instruction

variable {m : Machine} {i : Instruction} {op : Opcode} {f : Fault}

theorem cause_of_jump {label : Bytes} (failed : fault? (jump label m) = some f) :
    f.cause = .labelNotFound := by
  obtain failed | ⟨m, n, -, failed⟩ := exists_of_fault?_bind failed
  · cases failed
  · cases found : m.store.findLabel? label with
    | none =>
      simp only [found] at failed
      cases failed
      rfl
    | some offset =>
      simp only [found] at failed
      cases failed

/-- A scan whose result is known stops with the fault of that result. -/
theorem eq_of_scanning {α : Type} {x : Scan α} {text rest : Bytes} {result : Except Fault α}
    (gives : x.Gives text result rest) (failed : fault? (scanning x text m) = some f) :
    result = .error f := by
  rw [scanning_of_gives gives] at failed
  cases result with
  | ok a => cases failed
  | error g =>
    cases failed
    rfl

theorem eq_of_expression {e : Expression} (proper : e.Proper)
    (failed : fault? (expression e.text m) = some f) : e.value m.scope = .error f := by
  rw [expression_text proper] at failed
  cases valued : e.value m.scope with
  | ok v =>
    rw [valued] at failed
    cases failed
  | error g =>
    rw [valued] at failed
    cases failed
    rfl

/-- A jump that depends on a condition. -/
theorem mem_dynamic_of_branch {c : Condition} {label : Nat} {outcome : Bool} (proper : c.Proper)
    (offered : ∀ o ∈ c.operands, o.Offered m.scope.readings)
    (failed : fault? (branch outcome (c.text ++ Byte.comma :: labelBytes label) m) = some f) :
    f.cause ∈ Cause.dynamic := by
  obtain failed | ⟨n, _, same, failed⟩ := exists_of_fault?_bind failed
  · cases failed
  cases same
  obtain failed | ⟨⟨⟨holds, label⟩, left⟩, n, -, failed⟩ := exists_of_fault?_bind failed
  -- Reading the condition and the label may fail only for the values in the condition.
  · obtain failed | ⟨holds, -, read⟩ :=
      bind_eq_error (eq_of_scanning (Scan.branch_text m.scope proper label) failed)
    · exact Condition.mem_dynamic_of_holds proper offered failed
    · cases read
  · dsimp only at failed
    split at failed
    · rw [cause_of_jump failed]
      decide
    · cases failed

/-- An assignment to a variable for whose name there is room. -/
theorem mem_dynamic_of_setVariable {name : Bytes} {e : Expression} (named : name.IsName)
    (short : name.length ≤ m.vars.nameLength) (proper : e.Proper)
    (offered : ∀ o ∈ e.operands, o.Offered m.scope.readings)
    (failed : fault? (setVariable (name ++ Byte.equals :: e.text) m) = some f) :
    f.cause ∈ Cause.dynamic := by
  rw [setVariable_text named proper] at failed
  cases valued : e.value m.scope with
  | error g =>
    rw [valued] at failed
    cases failed
    exact Expression.mem_dynamic_of_value proper offered valued
  | ok v =>
    rw [valued] at failed
    obtain failed | ⟨⟨slot, length⟩, n, -, failed⟩ := exists_of_fault?_bind failed
    · rw [onVariables, fault?_on] at failed
      rw [Variables.cause_of_findOrCreate named short failed]
      decide
    · dsimp only at failed
      rw [onVariables, fault?_on] at failed
      rw [Variables.cause_of_set failed]
      decide

theorem cause_of_beginDownload {dest : Destination}
    (failed : fault? (beginDownload dest m) = some f) : f.cause = .storageFailure := by
  obtain failed | ⟨_, n, -, failed⟩ := exists_of_fault?_bind failed
  · cases failed
  obtain failed | ⟨_, n, -, failed⟩ := exists_of_fault?_bind failed
  · rw [onStore, fault?_on] at failed
    exact Store.cause_of_clear failed
  · cases failed

theorem cause_of_startProgram {dest : Destination}
    (failed : fault? (startProgram dest m) = some f) : f.cause = .noProgram := by
  obtain failed | ⟨n, _, same, failed⟩ := exists_of_fault?_bind failed
  · cases failed
  split at failed
  · cases failed
    rfl
  · cases failed

/-- Performing an instruction whose expressions can be read and whose readings are there. -/
theorem cause_of_perform (named : i.opcode? = some op) (proper : i.Proper)
    (suits : i.Suits m.vars.nameLength m.readings) {dest : Destination}
    (failed : fault? (perform op (i.text.drop 2) .program dest m) = some f) :
    f.cause ∈ Cause.dynamic := by
  have offered : ∀ o ∈ i.operands, o.Offered m.scope.readings := suits.offered
  unfold perform at failed
  -- The origin is the program, so no statement is refused for where it comes from.
  rw [if_neg (fun both => nomatch both.2)] at failed
  cases i with
  | raw statement => cases named
  | declare | clearVariables | writeText | writeLine | endDownload | abortDownload | halt =>
    cases named
    cases failed
  | jump label =>
    cases named
    rw [text, drop_code _ (by decide)] at failed
    obtain failed | ⟨a, n, -, failed⟩ := exists_of_fault?_bind failed
    · cases eq_of_scanning (.of_eq (Scan.label_labelBytes label)) failed
    · rw [cause_of_jump failed]
      decide
  | jumpUnless condition label =>
    cases named
    rw [text, List.append_assoc, drop_code _ (by decide)] at failed
    exact mem_dynamic_of_branch proper offered failed
  | delay e | writeValue e =>
    cases named
    rw [text, drop_code _ (by decide)] at failed
    obtain failed | ⟨v, n, -, failed⟩ := exists_of_fault?_bind failed
    · exact Expression.mem_dynamic_of_value proper offered (eq_of_expression proper failed)
    · cases failed
  | setVariable name e =>
    cases named
    rw [text, List.append_assoc, drop_code _ (by decide)] at failed
    exact mem_dynamic_of_setVariable proper.1 (suits.short name e rfl) proper.2 offered failed
  | beginDownload =>
    cases named
    rw [cause_of_beginDownload failed]
    decide
  | start =>
    cases named
    rw [cause_of_startProgram failed]
    decide

/-- The next tick takes up the statement of an instruction, which is not too long. -/
structure Faces (m : Machine) (i : Instruction) : Prop where
  due : m.IsDue
  stored : ∃ before after, m.store.program = before ++ (i.text ++ Byte.statementEnd :: after) ∧
    m.pc = before.length
  short : i.text.length ≤ m.limits.statementLength

/-- The statement is executed, and its fault is what the tick reports. -/
theorem Faces.exists_tick_eq (faces : m.Faces i) (plain : ∀ b ∈ i.text, Byte.isControl b = false) :
    ∃ pc, m.tick = (m.goneTo pc).execute i.text .program m.owner ∧
      m.tickFault? = (fault? ((m.goneTo pc).attempt i.text .program m.owner)).map
        (·.inSource (Utf8.decode i.text)) := by
  obtain ⟨before, after, stored, pc⟩ := faces.stored
  have whole : decide (m.limits.statementLength < i.text.length) = false :=
    decide_eq_false (Nat.not_lt.mpr faces.short)
  have found := Store.fetch?_statement m.limits.statementLength stored plain
  rw [← pc, List.take_of_length_le faces.short, whole] at found
  refine ⟨m.pc + i.text.length + 1, ?_, ?_⟩
  · rw [tick_of_fetch? faces.due found]
    rfl
  · rw [tickFault?, if_pos faces.due, found, Option.bind_some, taken]
    dsimp only
    rw [if_neg Bool.false_ne_true]
    cases (m.goneTo (m.pc + i.text.length + 1)).attempt i.text .program m.owner <;> rfl

/-- What can go wrong with an instruction that the program has come to. -/
theorem Faces.mem_dynamic (faces : m.Faces i) (proper : i.Proper)
    (suits : i.Suits m.vars.nameLength m.readings) (reported : m.tickFault? = some f) :
    f.cause ∈ Cause.dynamic := by
  obtain ⟨op, named⟩ := suits.named
  obtain ⟨pc, -, fault⟩ := faces.exists_tick_eq proper.plain
  rw [reported, eq_comm, Option.map_eq_some_iff] at fault
  obtain ⟨g, failed, rfl⟩ := fault
  -- The statement is traced before it is performed; that adds to the output and no more.
  obtain ⟨outbox, traced⟩ := exists_diagnose_eq (m.goneTo pc) 3 m.owner (Utf8.decode i.text)
  have read := ofStatement?_of_opcode? named
  simp only [attempt, traced, read] at failed
  have cause : g.cause ∈ Cause.dynamic :=
    cause_of_perform (m := { m.goneTo pc with outbox }) named proper suits failed
  exact cause

/-- Whatever a machine does, no name becomes too long. -/
theorem allowsAll_becomes : AllowsAll fun m n => m.vars.Becomes n.vars where
  refl _ := .refl _
  trans := .trans
  vars _ _ becomes := becomes
  outbox _ _ := .refl _
  diagnostics _ _ := .refl _
  program _ _ := .refl _
  position _ _ _ := .refl _
  coin _ _ := .refl _
  line _ _ _ := .refl _
  stored _ _ _ _ := .refl _

end Machine

namespace Compiler

/-- A compiler, and a table of variables that nothing but it and a machine has used. -/
inductive Used : Compiler → Variables → Prop
  | start (limits : Limits) (capacity nameLength : Nat) :
    Used (.ofLimits limits) { capacity, nameLength }
  | line {c : Compiler} {vs : Variables} (used : Used c vs) (readings : Readings) (text : String) :
    Used (c.compileLine vs readings text).compiler (c.compileLine vs readings text).vars
  | byte {c : Compiler} {m : Machine} (used : Used c m.vars) (b : UInt8) (dest : Destination) :
    Used c (m.receive b dest).vars
  | tick {c : Compiler} {m : Machine} (used : Used c m.vars) : Used c m.tick.vars

/-- No name in such a table is too long. -/
theorem Used.fitting {c : Compiler} {vs : Variables} (used : Used c vs) : vs.Fitting := by
  induction used with
  | start => exact nofun
  | @line c vs _ readings text ih => exact (c.becomes_compileLine vs readings text).fitting ih
  | @byte c m _ b dest ih => exact (Machine.allowsAll_becomes.receive m b dest).fitting ih
  | @tick c m _ ih =>
    have delays := Machine.allowsAll_becomes.delay fun _ _ => .refl _
    exact (Machine.allowsAll_becomes.tick delays m).fitting ih

/-- Every statement of a line without fault that is not written by hand is read for the opcode that
it was emitted for. Whenever the program comes to it, in whatever table of variables with names of
the same length and with whatever readings added, only what depends on values, variables, labels and
the store can go wrong. -/
theorem statements_agree {c : Compiler} {vs : Variables} {readings : Readings} {text : String}
    (used : c.Used vs) (notRaw : Line.rawStatement? text = none)
    (accepted : (c.compileLine vs readings text).fault = none) :
    ∀ i ∈ (c.compileLine vs readings text).emitted,
      (∃ op, i.opcode? = some op ∧ Opcode.ofStatement? i.text = some op) ∧
      ∀ m : Machine, m.vars.nameLength = vs.nameLength → readings.Grows m.readings → m.Faces i →
        (∃ pc, m.tick = (m.goneTo pc).execute i.text .program m.owner) ∧
          ∀ f, m.tickFault? = some f → f.cause ∈ Cause.dynamic := by
  intro i emitted
  have proper := (c.orderly_emitted vs readings text).proper i emitted
  have suits := suits_emitted used.fitting notRaw accepted i emitted
  obtain ⟨op, named⟩ := suits.named
  have read := Instruction.ofStatement?_text named []
  rw [List.append_nil] at read
  refine ⟨⟨op, named, read⟩, fun m sameLength grows faces => ⟨?_, fun f reported => ?_⟩⟩
  · obtain ⟨pc, ticked, -⟩ := faces.exists_tick_eq proper.plain
    exact ⟨pc, ticked⟩
  -- The names had room in the table of the compiler, so they have in one with the same room.
  · rw [← sameLength] at suits
    exact faces.mem_dynamic proper (suits.of_grows grows) reported

/-- The double of a reading is assigned. The reading was small when the line was compiled, and
another one was added, but when the program comes to the statement it is too great. -/
theorem statements_agree_of_reading :
    let t := Bytes.ofString "T"
    let readings := Readings.register {} t 1
    let began := (ofLimits {}).compileLine (.ofLimits {}) readings "begin"
    let compiled := began.compiler.compileLine began.vars readings "n = @t * 2"
    let i := Instruction.setVariable (Bytes.ofString "n") (.binary (.reading (Bytes.ofString "t"))
      .multiply (.literal { digits := Bytes.ofString "2" }))
    let later := (readings.register (Bytes.ofString "v") 5).register t 0x7FFFFFFF
    let start : Machine :=
      { Machine.ofLimits {} (.ofRegion (List.replicate 50 0) .volatile) 0 with readings }
    let m : Machine :=
      { (((start.enter "begin").1.enter "n = @t * 2").1.enter "end").1 with readings := later }
    began.compiler.Used began.vars ∧ Line.rawStatement? "n = @t * 2" = none ∧
      compiled.fault = none ∧ compiled.emitted = [i] ∧
      m.vars.nameLength = began.vars.nameLength ∧ readings.Grows m.readings ∧ m.Faces i ∧
      m.tickFault?.map (·.cause) = some .overflow ∧
      Opcode.ofStatement? i.text = some .setVariable ∧
      ∀ f, m.tickFault? = some f → f.cause ∈ Cause.dynamic := by
  intro t readings began compiled i later start m
  have used : began.compiler.Used began.vars := .line (.start {} 20 10) readings "begin"
  have notRaw : Line.rawStatement? "n = @t * 2" = none := by decide +kernel
  have accepted : compiled.fault = none := by decide +kernel
  have emitted : compiled.emitted = [i] := by decide +kernel
  have sameLength : m.vars.nameLength = began.vars.nameLength := by decide +kernel
  have grows : readings.Grows m.readings :=
    .tail (.tail .refl ⟨Bytes.ofString "v", 5, rfl⟩) ⟨t, 0x7FFFFFFF, by decide +kernel⟩
  have faces : m.Faces i :=
    ⟨by decide +kernel, ⟨[], [], by decide +kernel, by decide +kernel⟩, by decide +kernel⟩
  have overflows : m.tickFault?.map (·.cause) = some .overflow := by decide +kernel
  have inside : i ∈ compiled.emitted := emitted ▸ List.mem_singleton_self i
  obtain ⟨⟨op, named, read⟩, agrees⟩ := statements_agree used notRaw accepted i inside
  obtain rfl : op = .setVariable := (Option.some.inj named).symm
  exact ⟨used, notRaw, accepted, emitted, sameLength, grows, faces, overflows, read,
    (agrees m sameLength grows faces).2⟩

end Compiler

end ControlScript
