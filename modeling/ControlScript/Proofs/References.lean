import ControlScript.Proofs.Emission
import ControlScript.Proofs.Wording
import Mathlib.Logic.Relation

/-!
# What emitted instructions refer to

An instruction refers to readings by its operands, and an assignment names a variable. A compiler
looks them up before it emits the instruction. Readings stay where they are when others are added,
and no name in the table of variables is too long; so what was looked up once is in order for good.

## Main definitions

* `Readings.Offers`, `Readings.Grows` — a reading is there under a name; readings are only added
* `Instruction.operands` — the operands of an instruction
* `Instruction.Suits` — an instruction that is not written by hand, with readings that are there and
  names that are not too long

## Main results

* `Readings.Offers.of_grows` — a reading stays
* `Compiler.suits_emitted` — every instruction of a line is such
-/

namespace ControlScript

open Attempt

namespace Readings

variable {rs : Readings} {name : Bytes}

/-- There is a reading with the name at the start of a text. -/
def Offers (rs : Readings) (text : Bytes) : Prop := ∃ place, rs.find? text = some place

/-- Readings are added, or given another value. -/
def Grows : Readings → Readings → Prop :=
  Relation.ReflTransGen fun rs rs' => ∃ name value, rs' = rs.register name value

theorem offers_iff : rs.Offers name ↔ ∃ short, Bytes.identifier? name = some short ∧
    ∃ r ∈ rs.entries, Bytes.upper r.name = Bytes.upper short := by
  unfold Offers find?
  cases Bytes.identifier? name with
  | none => simp
  | some short =>
    have found :
        (∃ place, rs.entries.findIdx? (Bytes.upper ·.name == Bytes.upper short) = some place) ↔
          ∃ r ∈ rs.entries, Bytes.upper r.name = Bytes.upper short := by
      rw [← Option.isSome_iff_exists, List.findIdx?_isSome, List.any_eq_true]
      simp only [beq_iff_eq]
    cases placed : rs.entries.findIdx? (Bytes.upper ·.name == Bytes.upper short) <;>
      simpa [placed] using found

/-- A reading that takes the place of another has the same name. -/
theorem Offers.register (offers : rs.Offers name) (other : Bytes) (value : Value) :
    (rs.register other value).Offers name := by
  obtain ⟨short, named, r, member, same⟩ := offers_iff.mp offers
  refine offers_iff.mpr ⟨short, named, ?_⟩
  unfold Readings.register
  split
  · next place found =>
    obtain ⟨inside, equal, -⟩ := List.findIdx?_eq_some_iff_getElem.mp found
    obtain ⟨k, there, rfl⟩ := List.getElem_of_mem member
    -- The reading itself may be the one that is replaced; then the new one answers to its name.
    by_cases replaced : place = k
    · subst replaced
      refine ⟨{ name := other, value }, List.mem_set there _, ?_⟩
      rw [← beq_iff_eq.mp equal]
      exact same
    · refine ⟨rs.entries[k], List.mem_of_getElem? (i := k) ?_, same⟩
      rw [List.getElem?_set_ne replaced, List.getElem?_eq_getElem there]
  · exact ⟨r, List.mem_append_left _ member, same⟩

theorem Offers.of_grows {rs' : Readings} (offers : rs.Offers name) (grows : rs.Grows rs') :
    rs'.Offers name := by
  induction grows with
  | refl => exact offers
  | tail _ last ih =>
    obtain ⟨other, value, rfl⟩ := last
    exact ih.register other value

/-- A reading that is there has a value. -/
theorem exists_read? (offers : rs.Offers name) :
    ∃ value, ((rs.find? name).bind fun (place, _) => rs.read? place) = some value := by
  obtain ⟨⟨place, length⟩, found⟩ := offers
  have inside : place < rs.entries.length := by
    unfold find? at found
    split at found
    · cases found
    · split at found
      · cases found
      · next placed =>
        cases found
        exact (List.findIdx?_eq_some_iff_getElem.mp placed).1
  exact ⟨rs.entries[place].value, by simp [found, read?, inside]⟩

end Readings

/-! ## Operands -/

/-- The reading that an operand names is there. -/
def Operand.Offered (readings : Readings) : Operand → Prop
  | .reading name => readings.Offers name
  | _ => True

/-- The operands of an expression. -/
def Expression.operands : Expression → List Operand
  | .single operand => [operand]
  | .binary left _ right => [left, right]

/-- The operands of a condition. -/
def Condition.operands (c : Condition) : List Operand := [c.left, c.right]

section

variable {scope : Scope} {text rest : Bytes}

theorem Operand.scan_offered {o : Operand} (read : scan scope text = .ok o rest) :
    o.Offered scope.readings := by
  rw [scan_apply] at read
  split at read
  · cases read
  · split_ifs at read
    · obtain ⟨name, -, -, rfl, -⟩ := exists_of_scanVariable read
      trivial
    · rw [map_apply] at read
      split at read
      · cases read
        trivial
      · cases read
    · obtain ⟨name, -, -, rfl, offered⟩ := exists_of_scanReading read
      exact offered

theorem Expression.scan_offered {e : Expression} (read : scan scope text = .ok e rest) :
    ∀ o ∈ e.operands, o.Offered scope.readings := by
  rw [← success?_eq_some_iff] at read
  simp only [scan, success?_bind, Option.bind_eq_some_iff, Prod.exists] at read
  obtain ⟨left, _, first, _, _, -, operator, _, -, chosen⟩ := read
  have offered := Operand.scan_offered (success?_eq_some_iff.mp first)
  cases operator with
  | none =>
    cases chosen
    exact List.forall_mem_singleton.mpr offered
  | some operator =>
    simp only [success?_bind, Option.bind_eq_some_iff, Prod.exists] at chosen
    obtain ⟨right, _, second, last⟩ := chosen
    cases last
    exact List.forall_mem_cons.mpr ⟨offered,
      List.forall_mem_singleton.mpr (Operand.scan_offered (success?_eq_some_iff.mp second))⟩

theorem Condition.scan_offered {c : Condition} (read : scan scope text = .ok c rest) :
    ∀ o ∈ c.operands, o.Offered scope.readings := by
  rw [← success?_eq_some_iff] at read
  simp only [scan, success?_bind, Option.bind_eq_some_iff, Prod.exists] at read
  obtain ⟨left, _, first, _, _, -, comparison, _, -, chosen⟩ := read
  cases comparison with
  | none => cases chosen
  | some comparison =>
    simp only [success?_bind, Option.bind_eq_some_iff, Prod.exists] at chosen
    obtain ⟨right, _, second, last⟩ := chosen
    cases last
    exact List.forall_mem_cons.mpr ⟨Operand.scan_offered (success?_eq_some_iff.mp first),
      List.forall_mem_singleton.mpr (Operand.scan_offered (success?_eq_some_iff.mp second))⟩

end

namespace Instruction

/-- The operands of an instruction. -/
def operands : Instruction → List Operand
  | .jumpUnless condition _ => condition.operands
  | .delay value | .setVariable _ value | .writeValue value => value.operands
  | _ => []

/-- What a machine must not miss to carry an instruction out: the readings that it refers to, and
room for the name of its variable. An instruction that is written by hand may miss anything. -/
structure Suits (nameLength : Nat) (readings : Readings) (i : Instruction) : Prop where
  named : ∃ op, i.opcode? = some op
  offered : ∀ o ∈ i.operands, o.Offered readings
  short : ∀ name value, i = .setVariable name value → name.length ≤ nameLength

variable {nameLength : Nat} {readings : Readings} {i : Instruction}

/-- What suits a machine suits it also when readings were added. -/
theorem Suits.of_grows {readings' : Readings} (suits : i.Suits nameLength readings)
    (grows : readings.Grows readings') : i.Suits nameLength readings' := by
  refine { suits with offered := fun o member => ?_ }
  have offered := suits.offered o member
  match o with
  | .reading name => exact Readings.Offers.of_grows offered grows
  | .variable name | .literal l => trivial

/-- An instruction that assigns nothing. -/
theorem suits_of_operands {op : Opcode} (named : i.opcode? = some op)
    (offered : ∀ o ∈ i.operands, o.Offered readings) (other : op ≠ .setVariable) :
    i.Suits nameLength readings := by
  refine ⟨⟨op, named⟩, offered, ?_⟩
  rintro name value rfl
  exact absurd (Option.some.inj named).symm other

/-- An instruction that refers to nothing. -/
theorem suits_of_nil {op : Opcode} (named : i.opcode? = some op) (none : i.operands = [])
    (other : op ≠ .setVariable) : i.Suits nameLength readings :=
  suits_of_operands named (by simp [none]) other

end Instruction

open Instruction

namespace Parse

variable {p q : Passage}

theorem suits_of_printed {what : Printed} {nameLength : Nat}
    (read : success? (printed p) = some (what, q)) :
    what.instruction.Suits nameLength p.scope.readings := by
  obtain ⟨content, rfl, -, -⟩ | ⟨e, rfl, valued⟩ := exists_of_printed read
  · exact suits_of_operands rfl (List.forall_mem_nil _) (by decide)
  · obtain ⟨_, scanned, -⟩ := exists_of_scoped valued
    exact suits_of_operands rfl (Expression.scan_offered scanned) (by decide)

/-- What is read of a sentence makes instructions that suit a machine with the same names and
readings. -/
theorem Reads.suits {s : Sentence} (reads : Reads p s q) (fitting : p.scope.vars.Fitting) :
    s.Makes (Suits p.scope.vars.nameLength p.scope.readings) := by
  cases reads with
  | ifThen read | whileLoop read | untilTrue read =>
    obtain ⟨_, scanned, -⟩ := exists_of_scoped read
    exact fun label => suits_of_operands rfl (Condition.scan_offered scanned) (by decide)
  | delay read =>
    obtain ⟨_, scanned, -⟩ := exists_of_scoped read
    exact fun _ => List.forall_mem_singleton.mpr
      (suits_of_operands rfl (Expression.scan_offered scanned) (by decide))
  | wait read =>
    obtain ⟨_, scanned, -⟩ := exists_of_scoped read
    refine fun _ => List.forall_mem_singleton.mpr (suits_of_operands rfl ?_ (by decide))
    exact List.forall_mem_cons.mpr
      ⟨Operand.scan_offered scanned, List.forall_mem_singleton.mpr trivial⟩
  | print read => exact fun _ => List.forall_mem_singleton.mpr (suits_of_printed read)
  | println read =>
    exact fun _ => List.forall_mem_cons.mpr ⟨suits_of_printed read,
      List.forall_mem_singleton.mpr (suits_of_nil rfl rfl (by decide))⟩
  | @assign name value _ read =>
    obtain ⟨named, rest, place, vars, made, valued⟩ := exists_of_assignment read
    obtain ⟨_, scanned, -⟩ := exists_of_scoped valued
    have offered := Expression.scan_offered scanned
    -- The variable was found or made when the line was compiled, so its name has room.
    have becomes := p.scope.vars.becomes_findOrCreate name
    rw [made, reached_ok] at becomes
    have short := (becomes.fitting fitting).length_le named (Variables.find_made made)
    refine fun _ => List.forall_mem_singleton.mpr ⟨⟨_, rfl⟩, offered, ?_⟩
    rintro name' value' same
    cases same
    exact short.trans_eq becomes.nameLength
  | bare bare =>
    match s with
    | .action .clear | .action (.println none) =>
      exact fun _ => List.forall_mem_singleton.mpr (suits_of_nil rfl rfl (by decide))
    | .breakLoop | .continueLoop | .elseThen | .endif | .endwhile | .forever | .doLoop
    | .immediate | .begin | .finish => trivial

end Parse

namespace Compiler

variable {c : Compiler} {vars : Variables} {readings : Readings} {text : String}

section

variable {P : Instruction → Prop}

/-- The first line of a program gives up the one before, if there is one. -/
theorem forall_mem_begun (aborts : P .abortDownload) (begins : P .beginDownload)
    (inProgram : Bool) :
    ∀ i ∈ (if inProgram then [Instruction.abortDownload] else []) ++ [.beginDownload], P i := by
  cases inProgram <;> simp [begins, aborts]

/-- Outside of a program only actions are accepted, and what is done at once. -/
theorem forall_mem_answer {s : Sentence} {code : List Instruction} (starts : P .start)
    (halts : P .halt) (makes : s.Makes P)
    (raw : ∀ statement, s = .action (.raw statement) → P (.raw statement))
    (answers : s.Answers code) : ∀ i ∈ code, P i := by
  cases s with
  | action a =>
    obtain rfl : code = a.code := answers
    cases a with
    -- A raw statement that manages a download is no part of a program, and so not of what the
    -- sentence makes there.
    | raw statement => exact List.forall_mem_singleton.mpr (raw statement rfl)
    | _ => exact makes rfl
  | immediate => rcases answers with rfl | rfl <;> simpa
  | _ => exact answers.elim

/-- Inside a program a line goes to the open blocks, unless it begins or ends a program. -/
theorem forall_mem_heed {l : Line} {after : Compiler} {code : List Instruction}
    (jump : ∀ label, P (.jump label)) (declare : ∀ label, P (.declare label))
    (aborts : P .abortDownload) (begins : P .beginDownload) (ends : P .endDownload)
    (makes : l.sentence.Makes P) (heeded : c.heed l = some (after, code)) : ∀ i ∈ code, P i := by
  by_cases inside : l.sentence.isFrame = false
  · rw [heed_of_not_isFrame _ inside, Option.map_eq_some_iff] at heeded
    obtain ⟨⟨n, emitted⟩, done, same⟩ := heeded
    cases same
    exact Nest.forall_mem_accept jump declare makes done
  · unfold heed at heeded
    cases said : l.sentence with
    | begin =>
      simp only [said, Option.some.injEq, Prod.mk.injEq] at heeded
      obtain ⟨-, rfl⟩ := heeded
      exact forall_mem_begun aborts begins c.compiling
    | finish =>
      simp only [said] at heeded
      split at heeded
      · simp only [Option.map_eq_some_iff, Prod.exists, Prod.mk.injEq] at heeded
        obtain ⟨n, closers, finished, -, rfl⟩ := heeded
        exact List.forall_mem_append.mpr ⟨Nest.forall_mem_finish jump declare finished,
          List.forall_mem_singleton.mpr ends⟩
      · cases heeded
    | _ => simp [said, Sentence.isFrame] at inside

/-- What holds of the instructions for what a line says, and of those for blocks and for the frame
of a program, holds of all that the line emits. -/
theorem forall_mem_emitted (jump : ∀ label, P (.jump label))
    (declare : ∀ label, P (.declare label))
    (frame : ∀ i ∈ [Instruction.beginDownload, .endDownload, .abortDownload, .start, .halt], P i)
    (makes : ∀ l vars', Line.read? c.lineLength { vars, readings } text = some (some l, vars') →
      l.sentence.Makes P)
    (raw : ∀ indent statement vars', Line.read? c.lineLength { vars, readings } text =
      some (some { indent, sentence := .action (.raw statement) }, vars') → P (.raw statement))
    (accepted : (c.compileLine vars readings text).fault = none) :
    ∀ i ∈ (c.compileLine vars readings text).emitted, P i := by
  simp only [List.forall_mem_cons] at frame
  obtain ⟨begins, ends, aborts, starts, halts, -⟩ := frame
  by_cases opens : Keyword.ofText? text = some .begin
  · obtain ⟨after, compiled⟩ := exists_compileLine_of_begin opens accepted
    rw [compiled]
    exact forall_mem_begun aborts begins c.compiling
  cases inProgram : c.compiling with
  | false =>
    obtain ⟨l, vars', code, read, compiled, answers⟩ :=
      exists_answer_of_accepted inProgram opens accepted
    rw [compiled]
    cases l with
    | none =>
      obtain rfl : code = [] := answers
      exact List.forall_mem_nil _
    | some l =>
      obtain ⟨indent, s⟩ := l
      refine forall_mem_answer starts halts (makes _ vars' read) (fun statement said => ?_) answers
      subst said
      exact raw indent statement vars' read
  | true =>
    obtain ⟨l, vars', read, heeded⟩ := exists_of_accepted (.inl inProgram) accepted
    cases l with
    | none =>
      rw [compileLine_of_blank read]
      exact List.forall_mem_nil _
    | some l =>
      obtain ⟨after, code, heeded⟩ := heeded l rfl
      rw [compileLine_of_heed (.inl inProgram) read heeded]
      exact forall_mem_heed jump declare aborts begins ends (makes l vars' read) heeded

end

/-- Every instruction of a line that has no fault suits a machine with the same readings. -/
theorem suits_emitted (fitting : vars.Fitting) (notRaw : Line.rawStatement? text = none)
    (accepted : (c.compileLine vars readings text).fault = none) :
    ∀ i ∈ (c.compileLine vars readings text).emitted, i.Suits vars.nameLength readings := by
  refine forall_mem_emitted (P := Suits vars.nameLength readings)
    (fun _ => suits_of_nil rfl rfl (by decide)) (fun _ => suits_of_nil rfl rfl (by decide))
    (fun i member => ?_) (fun l vars' read => ?_) (fun indent statement vars' read => ?_) accepted
  · simp only [List.mem_cons, List.not_mem_nil, or_false] at member
    rcases member with rfl | rfl | rfl | rfl | rfl <;>
      exact suits_of_nil rfl rfl (by decide)
  · obtain ⟨p, q, scope, -, said⟩ := Line.exists_of_read? notRaw read
    have suits := (Parse.reads_of_sentence said).suits (by rw [scope]; exact fitting)
    rwa [scope] at suits
  · cases notRaw.symm.trans (Line.rawStatement?_of_read? read)

end Compiler

end ControlScript
