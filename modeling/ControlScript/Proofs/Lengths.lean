import ControlScript.Proofs.Logged
import ControlScript.Proofs.OpenBlocks
import ControlScript.Proofs.References
import ControlScript.Proofs.Ticks

/-!
# How long statements are

A compiler looks at the length of a line, and a machine at that of a statement; nobody looks at the
length of what a line is compiled to. Most of it is no longer than the line: the letters of a
statement take no more room than the keyword, and spaces are left out. An assignment has no keyword,
and a jump has a label, which is nowhere in the line. So two things may come out longer, and by how
much is told from the line and the label.

## Main definitions

* `Attempt.Takes` — a computation takes as much from a text as its result weighs
* `Sentence.least` — what every line with a sentence has at least
* `Instruction.allowance` — what a statement has at most

## Main results

* `Operand.takes_scan`, `Expression.takes_scan`, `Condition.takes_scan` — what is read is not longer
  written
* `Parse.takes_sentence`, `Line.least_le` — a sentence, and the line that says it
* `Compiler.allowance_of_accepted` — what a line emits, and what becomes of it in a machine
-/

namespace ControlScript

open Attempt

namespace Attempt

variable {σ α β : Type} {size : σ → Nat} {weight : α → Nat}

/-- A computation takes from a state at least as much as its result weighs. -/
def Takes (size : σ → Nat) (weight : α → Nat) (x : Attempt σ α) : Prop :=
  ∀ s a t, x s = .ok a t → weight a + size t ≤ size s

theorem takes_pure {a : α} (nothing : weight a = 0) :
    Takes size weight (pure a : Attempt σ α) := by
  intro s b t done
  cases done
  rw [nothing, Nat.zero_add]

theorem takes_fail (cause : Cause) : Takes size weight (fail cause : Attempt σ α) := by
  intro s a t done
  cases done

theorem takes_failNoting (cause : Cause) (note : String) :
    Takes size weight (failNoting cause note : Attempt σ α) := by
  intro s a t done
  cases done

theorem takes_ofExcept {result : Except Fault α} (nothing : ∀ a, weight a = 0) :
    Takes size weight (ofExcept result : Attempt σ α) := by
  cases result with
  | ok a => exact takes_pure (nothing a)
  | error f =>
    intro s b t done
    cases done

/-- What is taken in the end is taken by one part after the other. -/
theorem Takes.bind {weight' : β → Nat} {x : Attempt σ α} {next : α → Attempt σ β}
    (first : x.Takes size weight) (second : ∀ a, (next a).Takes size (weight' · - weight a)) :
    (x >>= next).Takes size weight' := by
  intro s b t done
  rw [bind_apply] at done
  cases read : x s with
  | error f u =>
    rw [read] at done
    cases done
  | ok a u =>
    rw [read] at done
    have before := first s a u read
    have after : weight' b - weight a + size t ≤ size u := second a u b t done
    omega

/-- What comes first may be read from any little. -/
theorem Takes.behind {weight' : β → Nat} {x : Attempt σ α} {next : α → Attempt σ β}
    (first : x.Takes size fun _ => 0) (second : ∀ a, (next a).Takes size weight') :
    (x >>= next).Takes size weight' := first.bind second

theorem Takes.mono {weight' : α → Nat} {x : Attempt σ α} (takes : x.Takes size weight)
    (less : ∀ a, weight' a ≤ weight a) : x.Takes size weight' := by
  intro s a t done
  have taken := takes s a t done
  have lighter := less a
  omega

end Attempt

/-! ### Scans -/

namespace Scan

theorem takes_takeWhile (isMember : UInt8 → Bool) :
    (takeWhile isMember).Takes List.length List.length := by
  intro text run rest read
  cases read
  rw [← List.length_append, List.takeWhile_append_dropWhile]

theorem takes_skipSpaces : skipSpaces.Takes List.length fun _ => 0 :=
  ((takes_takeWhile _).mono fun _ => Nat.zero_le _).bind fun _ => takes_pure rfl

theorem takes_eat (byte : UInt8) : (eat byte).Takes List.length Bool.toNat := by
  intro text ate rest read
  unfold eat at read
  split at read
  · next first =>
    cases read
    cases text with
    | nil => cases first
    | cons b text => simp [Nat.add_comm]
  · cases read
    simp

theorem takes_name : name.Takes List.length List.length := by
  refine (takes_takeWhile _).bind fun word => ?_
  split
  · exact takes_pure (Nat.sub_self _)
  · exact takes_fail _

end Scan

namespace Literal

theorem takes_scanSign : scanSign.Takes List.length fun sign => (signText sign).length := by
  intro text sign rest read
  unfold scanSign at read
  split at read
  · cases read
    exact (Nat.zero_add _).le
  · split_ifs at read <;> cases read <;> simp [signText, Nat.add_comm]

theorem takes_scan : scan.Takes List.length (·.text.length) := by
  refine takes_scanSign.bind fun sign => (Scan.takes_takeWhile _).bind fun digits => ?_
  -- What has been read is judged now, and no more is read for it.
  have judged : Takes List.length
      (fun l : Literal => l.text.length - (signText sign).length - digits.length) (do
        let _ ← Attempt.ofExcept (value { sign, digits })
        return { sign, digits } : Scan Literal) := by
    refine Takes.behind (takes_ofExcept fun _ => rfl) fun _ => takes_pure ?_
    have all : (text { sign, digits }).length = (signText sign).length + digits.length :=
      List.length_append
    omega
  dsimp only
  split
  · exact Takes.behind (takes_fail _) fun _ => judged
  · exact judged

end Literal

namespace Operand

/-- An operand is read from at least as much as is written of it. -/
theorem takes_scan (scope : Scope) : (scan scope).Takes List.length (·.text.length) := by
  intro text o rest read
  -- The spaces in front are read as well, and nothing is written of them.
  have spaces := (List.dropWhile_suffix (l := text) (· == Byte.space)).length_le
  rw [scan_apply] at read
  cases spelled : text.dropWhile (· == Byte.space) with
  | nil =>
    rw [spelled] at read
    cases read
  | cons b tail =>
    rw [spelled] at read spaces
    refine Nat.le_trans ?_ spaces
    dsimp only at read
    split_ifs at read
    · obtain ⟨name, -, split, rfl, -⟩ := exists_of_scanVariable read
      rw [split]
      exact List.length_append.ge
    · rw [map_apply] at read
      cases scanned : Literal.scan (b :: tail) with
      | ok l left =>
        rw [scanned] at read
        cases read
        exact Literal.takes_scan _ _ _ scanned
      | error f left =>
        rw [scanned] at read
        cases read
    · obtain ⟨name, -, rfl, rfl, -⟩ := exists_of_scanReading read
      simp only [Operand.text, List.length_cons, List.length_append]
      omega

end Operand

theorem Operator.takes_scan? : scan?.Takes List.length fun op => op.elim 0 fun _ => 1 := by
  intro text op rest read
  unfold scan? at read
  split at read
  · cases read
    exact (Nat.zero_add _).le
  · split at read <;> cases read <;> simp [Nat.add_comm]

theorem Comparison.takes_scan? :
    scan?.Takes List.length fun c => c.elim 0 (·.sign.length) := by
  intro text c rest read
  unfold scan? at read
  split at read
  · next c found =>
    cases read
    have starts := List.find?_some found
    have room := (List.isPrefixOf_iff_prefix.mp starts).length_le
    dsimp only [Option.elim_some]
    rw [List.length_drop]
    omega
  · cases read
    exact (Nat.zero_add _).le

theorem Expression.takes_scan (scope : Scope) :
    (scan scope).Takes List.length (·.text.length) := by
  refine (Operand.takes_scan scope).bind fun left => Scan.takes_skipSpaces.bind fun _ =>
    Operator.takes_scan?.bind fun op => ?_
  cases op with
  | none => exact takes_pure (by simp [text])
  | some op =>
    refine (Operand.takes_scan scope).bind fun right => takes_pure ?_
    simp only [text, Option.elim_some, List.length_append, List.length_cons]
    omega

theorem Condition.takes_scan (scope : Scope) :
    (scan scope).Takes List.length (·.text.length) := by
  refine (Operand.takes_scan scope).bind fun left => Scan.takes_skipSpaces.bind fun _ =>
    Comparison.takes_scan?.bind fun comparison => ?_
  cases comparison with
  | none => exact takes_failNoting _ _
  | some comparison =>
    refine (Operand.takes_scan scope).bind fun right => takes_pure ?_
    simp only [text, Option.elim_some, List.length_append]
    omega

/-! ### Sentences -/

/-- What is left of a passage. -/
def Passage.length (p : Passage) : Nat := p.rest.length

namespace Parse

variable {p q : Passage}

theorem takes_scanning {α : Type} {weight : α → Nat} {x : Scan α}
    (takes : x.Takes List.length weight) : (scanning x).Takes Passage.length weight := by
  intro p a q read
  unfold scanning Attempt.on at read
  cases scanned : x p.rest with
  | ok b rest =>
    rw [scanned] at read
    cases read
    exact takes _ _ _ scanned
  | error f rest =>
    rw [scanned] at read
    cases read

theorem takes_get {weight : Passage → Nat} (nothing : ∀ p, weight p = 0) :
    (get : Parse Passage).Takes Passage.length weight := by
  intro p a q read
  cases read
  rw [nothing, Nat.zero_add]

theorem takes_onVariables {α : Type} (x : Attempt Variables α) :
    (onVariables x).Takes Passage.length fun _ => 0 := by
  intro p a q read
  unfold onVariables Attempt.on at read
  rw [Nat.zero_add]
  split at read <;> cases read
  exact le_rfl

theorem takes_scoped {α : Type} {weight : α → Nat} {x : Scope → Scan α}
    (takes : ∀ scope, (x scope).Takes List.length weight) :
    (get >>= fun p : Passage => scanning (x p.scope)).Takes Passage.length weight :=
  (takes_get fun _ => rfl).bind fun p => takes_scanning (takes p.scope)

theorem takes_operand : operand.Takes Passage.length (·.text.length) :=
  takes_scoped Operand.takes_scan

theorem takes_expression : expression.Takes Passage.length (·.text.length) :=
  takes_scoped Expression.takes_scan

theorem takes_condition : condition.Takes Passage.length (·.text.length) :=
  takes_scoped Condition.takes_scan

theorem takes_assignment :
    assignment.Takes Passage.length fun target => target.1.length + 1 + target.2.text.length := by
  refine (takes_scanning Scan.takes_name).bind fun name =>
    (takes_scanning Scan.takes_skipSpaces).bind fun _ =>
      (takes_scanning (Scan.takes_eat _)).bind fun isAssignment => ?_
  cases isAssignment with
  | false => exact takes_failNoting _ _
  | true =>
    refine (takes_onVariables _).bind fun _ => takes_expression.bind fun value => takes_pure ?_
    dsimp only [Bool.toNat_true]
    omega

theorem takes_quotedText :
    quotedText.Takes Passage.length (·.instruction.text.length - Opcode.writeText.code.length) := by
  refine Takes.behind (takes_scanning fun text _ rest read => ?_) fun _ =>
    (takes_scanning (Scan.takes_takeWhile _)).bind fun content =>
      (takes_scanning (Scan.takes_eat _)).bind fun isClosed => ?_
  · cases read
    simp
  · cases isClosed with
    | false => exact takes_fail _
    | true => exact takes_pure (by simp [Printed.instruction, Instruction.text])

/-- What is printed is read from at least as much as stands behind the letters of its statement. -/
theorem takes_printed : printed.Takes Passage.length (·.instruction.text.length - 2) := by
  refine Takes.behind (takes_scanning fun text _ rest read => ?_) fun first => ?_
  · cases read
    simp
  cases first with
  | none => exact takes_fail _
  | some b =>
    dsimp only
    split
    · exact takes_quotedText
    · refine takes_expression.bind fun e => takes_pure ?_
      simp [Printed.instruction, Instruction.text, show Opcode.writeValue.code.length = 2 by decide]

end Parse

/-- A number of bytes that every line with a sentence has at least. -/
def Sentence.least : Sentence → Nat
  | .action (.assign name value) => name.length + 1 + value.text.length
  | .action (.print what) | .action (.println (some what)) => what.instruction.text.length
  | .action (.delay tenths) => 2 + tenths.text.length
  | .action (.wait seconds) => 5 + seconds.text.length
  | .action (.raw statement) => 1 + statement.length
  | .ifThen holds | .whileLoop holds | .untilTrue holds => 3 + holds.text.length
  | _ => 2

/-- The bytes that the keyword of a line takes, with the space that keeps it from what follows. -/
def Keyword.span : Option Keyword → Nat
  | none => 0
  | some k => k.word.length + 1

/-- A line with a keyword is the keyword alone or goes on behind a space. -/
theorem Keyword.exists_of_ofLine? {line : Bytes} {k : Keyword} (named : ofLine? line = some k) :
    ∃ first, first.length = k.word.length ∧
      (line = first ∨ ∃ rest, line = first ++ Byte.space :: rest) := by
  have spelled : k.word = Bytes.upper (line.takeWhile (· != Byte.space)) := by
    simpa using List.find?_some named
  have whole := List.takeWhile_append_dropWhile (p := (· != Byte.space)) (l := line)
  refine ⟨line.takeWhile (· != Byte.space), by rw [spelled, Bytes.length_upper], ?_⟩
  cases left : line.dropWhile (· != Byte.space) with
  | nil =>
    rw [left, List.append_nil] at whole
    exact .inl whole.symm
  | cons b rest =>
    have space : b = Byte.space := by
      simpa using Bytes.head?_dropWhile (· != Byte.space) line b (by rw [left]; rfl)
    rw [left, space] at whole
    exact .inr ⟨rest, whole.symm⟩

theorem Keyword.two_le_length (k : Keyword) : 2 ≤ k.word.length := by cases k <;> decide

namespace Parse

/-- A sentence is read from at least as much as every line with it has, less the keyword. -/
theorem takes_sentence (k : Option Keyword) :
    (sentence k).Takes Passage.length (·.least - Keyword.span k) := by
  have assigned : (sentence none).Takes Passage.length (·.least) :=
    takes_assignment.bind fun target => takes_pure (Nat.sub_self _)
  cases k with
  | none => exact assigned
  | some k =>
    have long := k.two_le_length
    cases k with
    | set => exact assigned.mono fun _ => Nat.sub_le _ _
    | ifThen | whileLoop | untilTrue =>
      refine takes_condition.bind fun holds => takes_pure ?_
      simp only [Keyword.span, Sentence.least]
      omega
    | delay =>
      refine takes_expression.bind fun tenths => takes_pure ?_
      simp only [Keyword.span, Sentence.least]
      omega
    | wait =>
      refine takes_operand.bind fun seconds => takes_pure ?_
      have long : Keyword.wait.word.length = 4 := by decide
      simp only [Keyword.span, Sentence.least]
      omega
    | print =>
      refine takes_printed.bind fun what => takes_pure ?_
      simp only [Keyword.span, Sentence.least]
      omega
    | println =>
      -- Where there is nothing to be printed, nothing has been read for it.
      let weight : Option Printed → Nat := fun what => what.elim 0 (·.instruction.text.length - 2)
      refine Takes.bind (?_ : Takes _ weight _) fun what => takes_pure ?_
      · refine Takes.behind (takes_scanning fun text _ rest read => ?_) fun first => ?_
        · cases read
          simp
        · cases first with
          | none => exact takes_pure rfl
          | some b => exact takes_printed.bind fun what => takes_pure (Nat.sub_self _)
      · simp only [weight, Keyword.span, Sentence.least]
        cases what <;> simp only [Option.elim_none, Option.elim_some] <;> omega
    | _ => exact takes_pure (by simp only [Keyword.span, Sentence.least]; omega)

/-- Where nothing is left behind the keyword, the keyword is all. -/
theorem Reads.isBare {s : Sentence} (reads : Reads p s q) (ended : p.rest = []) :
    s.isBare = true := by
  have nothing (scope : Scope) : Operand.scan scope [] = .error (.of .invalidOperand) [] := by
    rw [Operand.scan_apply]
    rfl
  cases reads with
  | ifThen read | whileLoop read | untilTrue read =>
    obtain ⟨_, scanned, -⟩ := exists_of_scoped read
    simp [ended, Condition.scan, bind_apply, nothing] at scanned
  | delay read =>
    obtain ⟨_, scanned, -⟩ := exists_of_scoped read
    simp [ended, Expression.scan, bind_apply, nothing] at scanned
  | wait read =>
    obtain ⟨_, scanned, -⟩ := exists_of_scoped read
    simp [ended, nothing] at scanned
  | print read | println read =>
    simp [printed, success?_bind, success?_scanning, Scan.peek, ended] at read
  | assign read =>
    simp [assignment, success?_bind, success?_scanning, Scan.name_apply, ended] at read
  | bare bare => exact bare

theorem least_of_isBare {s : Sentence} (bare : s.isBare = true) : s.least = 2 := by
  cases s with
  | action a =>
    cases a with
    | clear => rfl
    | println what =>
      cases what with
      | none => rfl
      | some what => cases bare
    | _ => cases bare
  | ifThen _ | whileLoop _ | untilTrue _ => cases bare
  | _ => rfl

/-- A sentence is read from no less than every line with it has. -/
theorem least_le_of_command {s : Sentence} (read : success? (command p) = some (s, q)) :
    s.least ≤ p.length := by
  obtain ⟨p', r, named, said, -⟩ := exists_of_command read
  have taken := takes_sentence _ p' s r (success?_eq_some_iff.mp said)
  rw [keyword_apply] at named
  cases spelled : Keyword.ofLine? p.rest with
  | none =>
    rw [spelled] at named taken
    cases named
    exact (Nat.le_add_right _ _).trans taken
  | some k =>
    rw [spelled] at named taken
    cases named
    -- A keyword is all of its line, or there is a space behind it, which is a byte to spare.
    obtain ⟨first, same, alone | ⟨rest, split⟩⟩ := Keyword.exists_of_ofLine? spelled
    · have ended : (p.rest.drop k.word.length).dropWhile (· == Byte.space) = [] := by
        rw [alone, ← same, List.drop_length]
        rfl
      rw [least_of_isBare ((reads_of_sentence said).isBare ended), Passage.length, alone, same]
      exact k.two_le_length
    · have left :
          ((p.rest.drop k.word.length).dropWhile (· == Byte.space)).length ≤ rest.length := by
        rw [split, ← same, List.drop_left, List.dropWhile_cons_of_pos (by rfl)]
        exact (List.dropWhile_suffix _).length_le
      have whole : p.rest.length = k.word.length + 1 + rest.length := by
        rw [split, List.length_append, List.length_cons, same]
        omega
      simp only [Passage.length, Keyword.span] at taken ⊢
      omega

theorem least_le_of_rawOrCommand {s : Sentence} (read : success? (rawOrCommand p) = some (s, q)) :
    s.least ≤ p.length := by
  rcases exists_of_rawOrCommand read with ⟨statement, -, text, rfl, -⟩ | ⟨-, said⟩
  · simp only [Sentence.least, Passage.length, text, List.length_cons]
    omega
  · exact least_le_of_command said

end Parse

/-- Without the white space at its end a line is no longer than before. -/
theorem Bytes.length_trimEnd_le (text : String) :
    (ofChars (trimEnd text.toList)).length ≤ (ofString text).length := by
  obtain ⟨blanks, whole, -⟩ := exists_trimEnd_append text.toList
  rw [ofString, ← whole, ofChars, ofChars, List.flatMap_append, List.length_append, whole]
  exact Nat.le_add_right _ _

/-- A line has at least as many bytes as every line with its sentence. -/
theorem Line.least_le {limit : Nat} {scope : Scope} {text : String} {l : Line} {vars : Variables}
    (read : Line.read? limit scope text = some (some l, vars)) :
    l.sentence.least ≤ (Bytes.ofString text).length := by
  obtain ⟨-, q, said, -⟩ := exists_said read
  calc l.sentence.least
      ≤ (body text).length := Parse.least_le_of_rawOrCommand said
    _ ≤ (Bytes.ofChars (trimEnd text.toList)).length := (List.dropWhile_suffix _).length_le
    _ ≤ (Bytes.ofString text).length := Bytes.length_trimEnd_le text

/-! ### Statements -/

namespace Instruction

/-- The number of decimal digits of the number of a label. -/
def digits (label : Nat) : Nat := (Nat.toDigits 10 label).length

theorem length_labelBytes (label : Nat) : (labelBytes label).length = 1 + digits label := by
  rw [labelBytes_eq, List.length_cons, List.length_map, Nat.add_comm, digits]

/-- The most bytes that the statement of an instruction has which a line of `length` bytes emits. -/
def allowance (length : Nat) : Instruction → Nat
  | .declare label | .jump label => 3 + digits label
  | .jumpUnless _ label => length + 1 + digits label
  | .setVariable _ _ => length + 2
  | _ => length

/-- An instruction whose statement is as short as it may be, if a line is not too short for any. -/
def Allowed (length : Nat) (i : Instruction) : Prop :=
  2 ≤ length → i.text.length ≤ i.allowance length

theorem allowed_declare (length label : Nat) : (declare label).Allowed length := by
  intro _
  have code : Opcode.label.code.length = 2 := by decide
  simp only [text, allowance, List.length_append, length_labelBytes]
  omega

theorem allowed_jump (length label : Nat) : (jump label).Allowed length := by
  intro _
  have code : Opcode.jump.code.length = 2 := by decide
  simp only [text, allowance, List.length_append, length_labelBytes]
  omega

/-- The statements that frame a program are letters alone. -/
theorem allowed_of_frame {length : Nat} {i : Instruction}
    (frame : i ∈ [beginDownload, endDownload, abortDownload, start, halt]) : i.Allowed length := by
  intro long
  simp only [List.mem_cons, List.not_mem_nil, or_false] at frame
  rcases frame with rfl | rfl | rfl | rfl | rfl <;> exact long

end Instruction

open Instruction

/-- What a sentence makes is as short as the line with it allows. -/
theorem Sentence.makes_allowed {s : Sentence} {length : Nat} (least : s.least ≤ length) :
    s.Makes (Allowed length) := by
  have two : Opcode.jumpIfFalse.code.length = 2 ∧ Opcode.setVariable.code.length = 2 ∧
      Opcode.delay.code.length = 2 ∧ Opcode.clearVariables.code.length = 2 ∧
      Opcode.writeLine.code.length = 2 := by decide
  have one {i : Instruction} (allowed : i.Allowed length) : ∀ j ∈ [i], j.Allowed length :=
    List.forall_mem_singleton.mpr allowed
  cases s with
  | ifThen holds | whileLoop holds | untilTrue holds =>
    intro label _
    simp only [Sentence.least, Instruction.text, allowance, List.length_append, List.length_cons,
      length_labelBytes] at least ⊢
    omega
  | action a =>
    intro _
    have printed {what : Printed} (short : what.instruction.text.length ≤ length) :
        what.instruction.Allowed length := by
      intro _
      cases what <;> exact short
    have line : Instruction.writeLine.Allowed length := fun long => two.2.2.2.2.trans_le long
    cases a with
    | assign name value =>
      refine one fun _ => ?_
      simp only [Sentence.least, Instruction.text, allowance, List.length_append,
        List.length_cons] at least ⊢
      omega
    | print what => exact one (printed least)
    | println what =>
      cases what with
      | none => exact one line
      | some what => exact List.forall_mem_cons.mpr ⟨printed least, one line⟩
    | clear => exact one fun long => two.2.2.2.1.trans_le long
    | delay tenths =>
      refine one fun _ => ?_
      simp only [Sentence.least, Instruction.text, allowance, List.length_append] at least ⊢
      omega
    | wait seconds =>
      refine one fun _ => ?_
      have ten : Action.ten.text.length = 2 := by decide
      simp only [Sentence.least, Instruction.text, allowance, Expression.text, List.length_append,
        List.length_cons] at least ⊢
      omega
    | raw statement =>
      refine one fun _ => ?_
      simp only [Sentence.least, Instruction.text, allowance] at least ⊢
      omega
  | _ => trivial

/-- No line that says something has fewer than two bytes. -/
theorem Sentence.two_le_least {s : Sentence} (proper : s.Proper) : 2 ≤ s.least := by
  have two : Opcode.writeText.code.length = 2 ∧ Opcode.writeValue.code.length = 2 := by decide
  have printed (what : Printed) : 2 ≤ what.instruction.text.length := by
    cases what <;> simp only [Printed.instruction, Instruction.text, List.length_append] <;> omega
  cases s with
  | action a =>
    cases a with
    | assign name value =>
      have named : name ≠ [] := by
        rintro rfl
        cases (proper _ List.mem_cons_self).1
      have long := List.length_pos_of_ne_nil named
      simp only [Sentence.least]
      omega
    | raw statement =>
      have long := List.length_pos_of_ne_nil (proper _ List.mem_cons_self).1
      simp only [Sentence.least]
      omega
    | print what => exact printed what
    | println what =>
      cases what with
      | none => exact le_rfl
      | some what => exact printed what
    | delay _ | wait _ =>
      simp only [Sentence.least]
      omega
    | clear => exact le_rfl
  | ifThen _ | whileLoop _ | untilTrue _ =>
    simp only [Sentence.least]
    omega
  | _ => exact le_rfl

namespace Compiler

variable {limits : Limits} {faulty : Bool} {c : Compiler} {vars : Variables} {readings : Readings}
variable {text : String}

/-- A line that has no fault can be read. -/
theorem exists_read_of_accepted (accepted : (c.compileLine vars readings text).fault = none) :
    ∃ l vars', Line.read? c.lineLength { vars, readings } text = some (l, vars') := by
  by_cases heard : c.compiling = true ∨ Keyword.ofText? text = some .begin
  · obtain ⟨l, vars', read, -⟩ := exists_of_accepted heard accepted
    exact ⟨l, vars', read⟩
  · obtain ⟨outside, noBegin⟩ := not_or.mp heard
    obtain ⟨l, vars', _, read, -⟩ :=
      exists_answer_of_accepted (Bool.eq_false_iff.mpr outside) noBegin accepted
    exact ⟨l, vars', read⟩

/-- A line of fewer than two bytes emits nothing. -/
theorem two_le_of_mem_emitted {i : Instruction}
    (accepted : (c.compileLine vars readings text).fault = none)
    (member : i ∈ (c.compileLine vars readings text).emitted) :
    2 ≤ (Bytes.ofString text).length := by
  obtain ⟨l, vars', read⟩ := exists_read_of_accepted accepted
  cases l with
  | none =>
    rw [compileLine_of_blank read] at member
    cases member
  | some l => exact (Sentence.two_le_least (Line.read?_proper read)).trans (Line.least_le read)

theorem length_le_allowance (accepted : (c.compileLine vars readings text).fault = none) :
    ∀ i ∈ (c.compileLine vars readings text).emitted,
      i.text.length ≤ i.allowance (Bytes.ofString text).length := by
  have allowed := forall_mem_emitted (P := Allowed (Bytes.ofString text).length)
    (allowed_jump _) (allowed_declare _) (fun i => allowed_of_frame)
    (fun l vars' read => Sentence.makes_allowed (Line.least_le read))
    (fun indent statement vars' read _ => by
      have least := Line.least_le read
      simp only [Sentence.least, Instruction.text, allowance] at least ⊢
      omega) accepted
  exact fun i member => allowed i member (two_le_of_mem_emitted accepted member)

/-- The length that lines may have stays as it was set. -/
theorem lineLength_of_reached (reached : Reached limits faulty c) :
    c.lineLength = limits.lineLength := by
  induction reached with
  | start => rfl
  | accepted _ vars readings text _ ih | refused _ vars readings text _ ih =>
    exact (lineLength_compileLine _ vars readings text).trans ih

open Machine in
/-- A line that has no fault is no longer than a statement may be, where lines may be no longer
than statements. Of what it emits, an assignment may have two bytes more than the line, and a jump
that depends on a condition one byte more and the digits of its label; jumps and declarations are as
long as their labels make them, and all the rest is no longer than the line. A machine drops what is
longer than a statement may be, and executes everything else, as it comes in and as it was stored. -/
theorem allowance_of_accepted (fits : limits.lineLength ≤ limits.statementLength)
    (reached : Reached limits faulty c)
    (accepted : (c.compileLine vars readings text).fault = none) :
    (Bytes.ofString text).length ≤ limits.statementLength ∧
    ∀ i ∈ (c.compileLine vars readings text).emitted,
      i.text.length ≤ i.allowance (Bytes.ofString text).length ∧
      (∀ (m : Machine) (dest : Destination), m.limits = limits → Idle m →
        m.receiveAll (i.text ++ [Byte.statementEnd]) dest =
          if limits.statementLength < i.text.length then m.report dest (.of .statementTooLong)
          else m.execute i.text .live dest) ∧
      ∀ (m : Machine) (before after : Bytes), m.limits = limits → m.IsDue →
        m.store.program = before ++ (i.text ++ Byte.statementEnd :: after) →
        m.pc = before.length →
        let next := m.goneTo (before.length + i.text.length + 1)
        m.tick =
          if limits.statementLength < i.text.length then
            next.report m.owner (.of .statementTooLong)
          else next.execute i.text .program m.owner := by
  have short : (Bytes.ofString text).length ≤ c.lineLength := by
    obtain ⟨l, vars', read⟩ := exists_read_of_accepted accepted
    exact Line.length_le_of_read? read
  refine ⟨(short.trans_eq (lineLength_of_reached reached)).trans fits, fun i member => ?_⟩
  have proper := (orderly_emitted c vars readings text).proper i member
  refine ⟨length_le_allowance accepted i member, fun m dest same idle => ?_,
    fun m before after same due stored place => ?_⟩
  · rw [← same]
    split
    · next long => exact receiveAll_of_tooLong idle proper.plain long dest
    · next room =>
      exact receiveAll_statement idle proper.plain proper.text_ne_nil (Nat.le_of_not_lt room) dest
  · rw [← same]
    exact tick_of_stored due stored place proper.plain

/-- An assignment of two bytes more than its line, with room for neither byte. -/
theorem allowance_of_assignment :
    let limits : Limits := { lineLength := 3, statementLength := 3 }
    let c := Compiler.ofLimits limits
    let vars := Variables.ofLimits limits
    let i : Instruction := .setVariable [0x78] (.single (.literal { digits := [0x31] }))
    limits.lineLength ≤ limits.statementLength ∧ Reached limits false c ∧
      (c.compileLine vars {} "x=1").fault = none ∧ i ∈ (c.compileLine vars {} "x=1").emitted ∧
      i.text.length ≤ i.allowance 3 ∧ i.text.length = 5 ∧ i.allowance 3 = 5 := by
  intro limits c vars i
  have compiled : (c.compileLine vars {} "x=1").fault = none ∧
      i ∈ (c.compileLine vars {} "x=1").emitted := by decide +kernel
  obtain ⟨accepted, member⟩ := compiled
  have fits : limits.lineLength ≤ limits.statementLength := le_rfl
  obtain ⟨-, allowed⟩ := allowance_of_accepted fits .start accepted
  exact ⟨fits, .start, accepted, member, (allowed i member).1, by decide, by decide⟩

/-- A line that is as long as it may be assigns a number with many zeros in front of it. It has no
fault, and a machine with the same limits drops what it emits. -/
theorem emitted_too_long :
    let limits : Limits := {}
    let c := Compiler.ofLimits limits
    let text := String.ofList (['x', '='] ++ List.replicate 117 '0' ++ ['1'])
    let compiled := c.compileLine (.ofLimits limits) {} text
    let i : Instruction := .setVariable [0x78]
      (.single (.literal { digits := List.replicate 117 0x30 ++ [0x31] }))
    let m := Machine.ofLimits limits (.ofLimits limits) 0
    limits.lineLength ≤ limits.statementLength ∧ Reached limits false c ∧ compiled.fault = none ∧
      i ∈ compiled.emitted ∧ limits.statementLength < i.text.length ∧
      m.receiveAll (i.text ++ [Byte.statementEnd]) console =
        m.report console (.of .statementTooLong) := by
  intro limits c text compiled i m
  have accepted : compiled.fault = none ∧ i ∈ compiled.emitted := by decide +kernel
  have long : limits.statementLength < i.text.length := by decide +kernel
  have plain : ∀ b ∈ i.text, Byte.isControl b = false := by
    simpa using show i.text.all (!Byte.isControl ·) = true by decide +kernel
  exact ⟨le_rfl, .start, accepted.1, accepted.2, long,
    Machine.receiveAll_of_tooLong ⟨rfl, rfl, rfl⟩ plain long console⟩

end Compiler

end ControlScript
