import ControlScript.Proofs.Closed
import ControlScript.Proofs.Faults
import ControlScript.Proofs.Jumps
import ControlScript.Proofs.Ticks
import Mathlib.Data.List.Nodup
import Mathlib.Logic.Relation

/-!
# Destinations

In the statements for an accepted program no label is declared twice, and each label that a
statement jumps to is declared. A machine that runs the stored program stays at its statements,
and it never reports that a label is missing.

## Main definitions

* `Statement.declared?`, `Statement.destination?` — the labels that stand in a statement
* `Machine.StandsIn` — the place of a machine is in front of a statement of a program, or at the end
* `Machine.Follows` — what a machine may come to while its program is kept

## Main results

* `Machine.standsIn_tick` — a tick stays in a closed program and finds its labels
* `Compiler.destinations_of_accepted` — the labels of an accepted program
-/

namespace ControlScript

open Instruction

namespace Statement

/-- The label that a statement declares, if it declares one. -/
def declared? (statement : Bytes) : Option Bytes :=
  match Opcode.ofStatement? statement with
  | some .label => some ((statement.drop 2).takeWhile Byte.isNameChar)
  | _ => none

/-- The label that the arguments of a jump start with. -/
def label? (args : Bytes) : Option Bytes := (Attempt.success? (Scan.label args)).map (·.1)

/-- The label that a statement may jump to, if it may jump. In a jump on a condition, a comma
stands in front of the label. -/
def destination? (statement : Bytes) : Option Bytes :=
  match Opcode.ofStatement? statement with
  | some .jump | some .coinToss => label? (statement.drop 2)
  | some .jumpIfTrue | some .jumpIfFalse =>
    label? (((statement.drop 2).dropWhile (· != Byte.comma)).drop 1)
  | _ => none

end Statement

namespace Instruction

theorem label?_labelBytes (label : Nat) :
    Statement.label? (labelBytes label) = some (labelBytes label) := by
  rw [Statement.label?, Scan.label_labelBytes]
  rfl

/-- The label that the statement of an instruction declares. -/
theorem Fit.declared?_text {i : Instruction} (fit : i.Fit) :
    Statement.declared? i.text = i.declared?.map labelBytes := by
  match i with
  | .declare label =>
    have run := takeWhile_append_of_ends (isName_labelBytes label).isNameChar Bytes.ends_nil
    rw [List.append_nil] at run
    rw [Statement.declared?, ofStatement?_of_opcode? rfl, text, drop_code _ (by decide)]
    exact congrArg some run.1
  | .raw statement =>
    unfold Statement.declared?
    split
    · next label => exact absurd rfl (fit.category_ne_control label)
    · rfl
  | .jump _ | .jumpUnless _ _ | .delay _ | .setVariable _ _ | .clearVariables | .writeText _
  | .writeValue _ | .writeLine | .beginDownload | .endDownload | .abortDownload | .start | .halt =>
    rw [Statement.declared?, ofStatement?_of_opcode? rfl]
    rfl

/-- The label that the statement of an instruction may jump to. -/
theorem Fit.destination?_text {i : Instruction} (fit : i.Fit) :
    Statement.destination? i.text = i.target?.map labelBytes := by
  match i with
  | .jump label =>
    rw [Statement.destination?, ofStatement?_of_opcode? rfl, text, drop_code _ (by decide)]
    exact label?_labelBytes label
  | .jumpUnless c label =>
    have separated : (c.text ++ Byte.comma :: labelBytes label).dropWhile (· != Byte.comma) =
        Byte.comma :: labelBytes label := by
      refine (takeWhile_append_of_ends (fun b member => ?_) (by simp)).2
      simpa using (Condition.Proper.plain fit.proper b member).2
    rw [Statement.destination?, ofStatement?_of_opcode? rfl, text, List.append_assoc,
      drop_code _ (by decide)]
    simp only [separated, List.drop_one, List.tail_cons]
    exact label?_labelBytes label
  | .raw statement =>
    unfold Statement.destination?
    split <;> first | next jumps => exact absurd rfl (fit.category_ne_control jumps) | rfl
  | .declare _ | .delay _ | .setVariable _ _ | .clearVariables | .writeText _
  | .writeValue _ | .writeLine | .beginDownload | .endDownload | .abortDownload | .start | .halt =>
    rw [Statement.destination?, ofStatement?_of_opcode? rfl]
    rfl

end Instruction

theorem filterMap_declared? {code : List Instruction} (fit : ∀ i ∈ code, i.Fit) :
    code.filterMap (fun i => Statement.declared? i.text) = (declared code).map labelBytes := by
  rw [declared, List.map_filterMap]
  exact List.filterMap_congr fun i member => (fit i member).declared?_text

theorem filterMap_destination? {code : List Instruction} (fit : ∀ i ∈ code, i.Fit) :
    code.filterMap (fun i => Statement.destination? i.text) = (targets code).map labelBytes := by
  rw [targets, List.map_filterMap]
  exact List.filterMap_congr fun i member => (fit i member).destination?_text

/-- The statements around a program leave no trace in it. -/
theorem filterMap_framed {α : Type} (f : Instruction → Option α) (inProgram : Bool)
    (code : List Instruction) (begins : f .beginDownload = none) (ends : f .endDownload = none)
    (gives : f .abortDownload = none) :
    List.filterMap f ((if inProgram then [.abortDownload] else []) ++
      .beginDownload :: (code ++ [.endDownload])) = code.filterMap f := by
  cases inProgram <;> simp [begins, ends, gives]

namespace Machine

variable {m n : Machine} {code : List Instruction}

@[simp] theorem store_diagnose (m : Machine) (level : Nat) (dest : Destination) (text : String) :
    (m.diagnose level dest text).store = m.store := by
  unfold diagnose
  split <;> rfl

@[simp] theorem pc_diagnose (m : Machine) (level : Nat) (dest : Destination) (text : String) :
    (m.diagnose level dest text).pc = m.pc := by
  unfold diagnose
  split <;> rfl

theorem store_enterState (m : Machine) (state : ProgramState) (dest : Destination) :
    (m.enterState state dest).store = m.store := by
  unfold enterState
  split
  · rfl
  · exact store_diagnose ..

theorem pc_enterState (m : Machine) (state : ProgramState) (dest : Destination) :
    (m.enterState state dest).pc = m.pc := by
  unfold enterState
  split
  · rfl
  · exact pc_diagnose ..

/-- The machine stands somewhere in a program. -/
def StandsIn (m : Machine) (code : List Instruction) : Prop :=
  ∃ before after, code = before ++ after ∧ m.At before after

theorem StandsIn.stored (standing : m.StandsIn code) : m.store.program = encode code := by
  obtain ⟨before, after, rfl, place⟩ := standing
  exact place.stored

theorem StandsIn.congr (standing : m.StandsIn code) (store : n.store = m.store)
    (pc : n.pc = m.pc) : n.StandsIn code := by
  obtain ⟨before, after, rfl, place⟩ := standing
  exact ⟨before, after, rfl, by rw [store, place.stored], by rw [pc, place.pc]⟩

theorem StandsIn.report (standing : m.StandsIn code) (dest : Destination) (f : Fault) :
    (m.report dest f).StandsIn code :=
  standing.congr (store_diagnose ..) (pc_diagnose ..)

/-- After a jump, the machine stands where the label is declared. -/
theorem StandsIn.jump {before after : List Instruction} (standing : m.StandsIn code)
    (split : code = before ++ after) :
    { m with pc := (encode before).length }.StandsIn code :=
  ⟨before, after, split, by rw [← split]; exact standing.stored, rfl⟩

/-- A statement of a closed program goes on in the program and finds its label. -/
theorem standsIn_attempt (closed : Closed code) (standing : m.StandsIn code) {i : Instruction}
    (member : i ∈ code) (dest : Destination) :
    (Attempt.reached (m.attempt i.text .program dest)).StandsIn code ∧
      ∀ f, Attempt.fault? (m.attempt i.text .program dest) = some f →
        f.cause ≠ .labelNotFound := by
  have fit := closed.fit i member
  unfold attempt
  dsimp only
  obtain ⟨d, shown⟩ : ∃ d, d = m.diagnose 3 dest (Utf8.decode i.text) := ⟨_, rfl⟩
  rw [← shown]
  have standing : d.StandsIn code := shown ▸ standing.congr (store_diagnose ..) (pc_diagnose ..)
  cases named : Opcode.ofStatement? i.text with
  | none => exact ⟨standing, fun f stopped => by cases stopped⟩
  | some op =>
    have inside := fit.category_ne_remote named
    dsimp only
    -- Only a jump looks for a label. Whatever else a statement does, store and counter stay.
    by_cases jumps : op.isJump = false
    · obtain ⟨store, pc, apart⟩ := calm_perform jumps inside (i.text.drop 2) .program dest d
      exact ⟨standing.congr store pc, apart⟩
    · have read {other : Opcode} (same : i.opcode? = some other) : op = other :=
        Option.some.inj (named.symm.trans (ofStatement?_of_opcode? same))
      cases i with
      | jump label =>
        obtain rfl := read rfl
        obtain ⟨before, after, split, found⟩ := Store.exists_findLabel?_of_closed closed
          standing.stored (List.mem_filterMap.mpr ⟨.jump label, member, rfl⟩)
        rw [text, drop_code _ (by decide), perform_jump dest found]
        exact ⟨standing.jump split, fun f stopped => by cases stopped⟩
      | jumpUnless c label =>
        obtain rfl := read rfl
        obtain ⟨before, after, split, found⟩ := Store.exists_findLabel?_of_closed closed
          standing.stored (List.mem_filterMap.mpr ⟨.jumpUnless c label, member, rfl⟩)
        have outcome := perform_jumpIfFalse dest fit.proper found
        rw [text, List.append_assoc, drop_code _ (by decide)]
        cases held : c.holds d.scope with
        | error f =>
          rw [held] at outcome
          rw [show perform .jumpIfFalse _ .program dest d = .error f d from outcome]
          refine ⟨standing, fun g stopped => ?_⟩
          cases stopped
          exact Condition.cause_of_holds held
        | ok holds =>
          rw [held] at outcome
          rw [show perform .jumpIfFalse _ .program dest d = .ok () _ from outcome]
          refine ⟨?_, fun f stopped => by cases stopped⟩
          cases holds
          · exact standing.jump split
          · exact standing
      | raw statement =>
        refine absurd ?_ (fit.category_ne_control named)
        cases op <;> first | rfl | exact absurd rfl jumps
      | declare | delay | setVariable | clearVariables | writeText | writeValue | writeLine
      | beginDownload | endDownload | abortDownload | start | halt =>
        obtain rfl := read rfl
        exact absurd rfl jumps

theorem standsIn_tick (closed : Closed code) (standing : m.StandsIn code) :
    m.tick.StandsIn code ∧ ∀ f, m.tickFault? = some f → f.cause ≠ .labelNotFound := by
  by_cases due : m.IsDue
  · obtain ⟨before, after, rfl, place⟩ := standing
    cases after with
    | nil =>
      have ended := place.fetch?_of_nil m.limits.statementLength
      rw [tick_of_at_nil due place, tickFault?, if_pos due, ended]
      refine ⟨⟨before, [], rfl, ?_, ?_⟩, fun f stopped => by cases stopped⟩
      · rw [store_enterState, ← place.stored]
      · rw [pc_enterState, ← place.pc]
    | cons i after =>
      have member : i ∈ before ++ i :: after := by simp
      have proper := (closed.fit i member).proper
      -- The machine has gone on to the next statement before this one is attempted.
      have moved : (m.goneTo (encode (before ++ [i])).length).StandsIn (before ++ i :: after) :=
        ⟨before ++ [i], after, by simp, by rw [List.append_assoc]; exact place.stored, rfl⟩
      have found := place.fetch? proper m.limits.statementLength
      obtain ⟨standing, apart⟩ := standsIn_attempt closed moved member m.owner
      rw [tick_of_at_cons due place proper, tickFault?, if_pos due, found, Option.bind_some, taken]
      by_cases long : m.limits.statementLength < i.text.length
      · simp only [long, if_true, decide_true]
        refine ⟨moved.report _ _, fun f reported => ?_⟩
        cases reported
        decide
      · simp only [long, if_false, decide_false, Bool.false_eq_true, execute_eq,
          List.take_of_length_le (Nat.le_of_not_lt long)]
        cases done : (m.goneTo (encode (before ++ [i])).length).attempt i.text .program m.owner with
        | ok _ n =>
          rw [done] at standing
          exact ⟨standing, fun f stopped => by cases stopped⟩
        | error f n =>
          rw [done] at standing apart
          refine ⟨standing.report _ _, fun g reported => ?_⟩
          cases reported
          exact apart f rfl
  · rw [tick_of_not_isDue due, tickFault?, if_neg due]
    exact ⟨standing, fun f stopped => by cases stopped⟩

/-- What a machine may come to in one step while its program is kept: it gets a tick, or it is
changed in other respects and perhaps started again. -/
inductive Follows : Machine → Machine → Prop
  | tick (m : Machine) : Follows m m.tick
  | aside {m n : Machine} (store : n.store = m.store) (pc : n.pc = m.pc ∨ n.pc = 0) : Follows m n

theorem StandsIn.start (program : m.store.program = encode code) (pc : m.pc = 0) :
    m.StandsIn code :=
  ⟨[], code, rfl, program, pc⟩

/-- A machine stays in a closed program. -/
theorem StandsIn.of_follows (closed : Closed code) (standing : m.StandsIn code)
    (run : Relation.ReflTransGen Follows m n) : n.StandsIn code := by
  induction run with
  | refl => exact standing
  | tail _ step ih =>
    cases step with
    | tick => exact (standsIn_tick closed ih).1
    | aside store pc =>
      rcases pc with pc | pc
      · exact ih.congr store pc
      · exact .start (by rw [store]; exact ih.stored) pc

end Machine

namespace Compiler

variable {c : Compiler} {vars : Variables} {readings : Readings} {opening closing : String}
  {body : List String}

/-- In the statements for an accepted program no label is declared twice, each label that a
statement may jump to is declared once, and the numbers of the labels are below that of the next
one. In a store that holds the program every destination is found, and a program that runs from
its start never reports that one is missing. -/
theorem destinations_of_accepted (frames : Frames opening body closing)
    (accepted : (c.compileAll vars readings (opening :: (body ++ [closing]))).faults = [])
    (free : ∀ text ∈ body, ∀ statement ∈ Line.rawStatement? text,
      statement.head?.any (Byte.spells 'C') = false) :
    let compiled := c.compileAll vars readings (opening :: (body ++ [closing]))
    let declarations := compiled.emitted.filterMap fun i => Statement.declared? i.text
    let destinations := compiled.emitted.filterMap fun i => Statement.destination? i.text
    declarations.Nodup ∧
      (∀ label ∈ destinations, declarations.count label = 1) ∧
      (∀ label ∈ declarations ++ destinations,
        ∃ number < compiled.compiler.nextLabel, label = labelBytes number) ∧
      ∀ m : Machine, m.store.program = stored compiled.emitted →
        (∀ label ∈ destinations, (m.store.findLabel? label).isSome) ∧
        (m.pc = 0 → ∀ n, Relation.ReflTransGen Machine.Follows m n →
          ∀ f, n.tickFault? = some f → f.cause ≠ .labelNotFound) := by
  obtain ⟨script, start, lines, read, inside, formed⟩ := exists_spells_of_accepted frames accepted
  obtain ⟨-, emitted, labels, -⟩ := compileAll_of_forms inside read formed
  have closed := formed.closed_code (exists_text_of_inside frames inside read) free
  intro compiled declarations destinations
  -- The labels are the texts of the numbers in the code of the script.
  have declares : declarations = (declared (script.code 0 0)).map labelBytes := by
    rw [← filterMap_declared? closed.fit]
    exact (congrArg _ emitted).trans (filterMap_framed _ c.compiling _ rfl rfl rfl)
  have jumps : destinations = (targets (script.code 0 0)).map labelBytes := by
    rw [← filterMap_destination? closed.fit]
    exact (congrArg _ emitted).trans (filterMap_framed _ c.compiling _ rfl rfl rfl)
  have once : declarations.Nodup := by
    rw [declares]
    exact List.Nodup.map labelBytes_injective closed.nodup
  have declared_of_mem : ∀ label ∈ destinations, label ∈ declarations := by
    intro label member
    rw [jumps] at member
    obtain ⟨number, target, rfl⟩ := List.mem_map.mp member
    rw [declares]
    exact List.mem_map_of_mem (closed.closed number target)
  refine ⟨once, fun label member => ?_, fun label member => ?_, fun m program => ?_⟩
  · exact List.count_eq_one_of_mem once (declared_of_mem label member)
  · -- A destination is declared, and what is declared has a number that was given out.
    have member : label ∈ declarations :=
      (List.mem_append.mp member).elim id (declared_of_mem label)
    rw [declares] at member
    obtain ⟨number, inCode, rfl⟩ := List.mem_map.mp member
    refine ⟨number, ?_, rfl⟩
    have bounds := Script.bounds_of_mem_declared inCode
    rw [show compiled.compiler.nextLabel = script.labels from labels]
    omega
  · have kept : ∀ i ∈ script.code 0 0, i.Kept := fun i member => (closed.fit i member).toKept
    rw [show compiled.emitted = _ from emitted, stored_framed _ kept] at program
    refine ⟨fun label member => ?_, fun pc n run f reported => ?_⟩
    · rw [jumps] at member
      obtain ⟨number, target, rfl⟩ := List.mem_map.mp member
      obtain ⟨before, after, -, found⟩ := Store.exists_findLabel?_of_closed closed program target
      rw [found]
      rfl
    · have standing := (Machine.StandsIn.start program pc).of_follows closed run
      exact (Machine.standsIn_tick closed standing).2 f reported

/-- A loop around a raw statement, stored and started. -/
theorem destinations_of_loop :
    let compiled := (ofLimits {}).compileAll (.ofLimits {}) {}
      ["begin", "while 1 < 2", "  *WL", "  break", "end"]
    let m := Machine.ofLimits {} (.ofBytes 100 (stored compiled.emitted)) 0
    compiled.faults = [] ∧ m.store.program = stored compiled.emitted ∧ m.pc = 0 ∧
      (m.store.findLabel? (labelBytes 1)).isSome ∧
      ∀ n, Relation.ReflTransGen Machine.Follows m n →
        ∀ f, n.tickFault? = some f → f.cause ≠ .labelNotFound := by
  have frames : Frames "begin" ["while 1 < 2", "  *WL", "  break"] "end" :=
    ⟨by decide, by decide, by decide⟩
  have accepted : ((ofLimits {}).compileAll (.ofLimits {}) {}
      ("begin" :: (["while 1 < 2", "  *WL", "  break"] ++ ["end"]))).faults = [] := by
    decide +kernel
  intro compiled m
  have program : m.store.program = stored compiled.emitted := by decide +kernel
  obtain ⟨-, -, -, running⟩ := destinations_of_accepted frames accepted (by decide)
  obtain ⟨found, run⟩ := running m program
  exact ⟨accepted, program, rfl, found _ (by decide +kernel), run rfl⟩

end Compiler

end ControlScript
