import ControlScript.Proofs.Downloads
import ControlScript.Proofs.Logs
import ControlScript.Proofs.Wording

/-!
# Machines and their logs

A statement that assigns, prints or clears the variables changes the variables of a machine and
writes to its output. This is all that it does as long as only faults are shown, and it does the same
whether it has just come in or stands in the stored program. So what a machine comes to by such
statements is its log and nothing else.

## Main definitions

* `Instruction.IsStraight` — an instruction that assigns, writes or clears the variables
* `Machine.setting` — what the effect of statements depends on in a machine
* `Machine.logged` — a machine with the variables and the output of a log

## Main results

* `Machine.execute_logged` — one statement, wherever it comes from
* `Machine.receiveAll_logged` — statements that come in
* `Machine.run_logged` — statements of the stored program
-/

namespace ControlScript

open Attempt Instruction

/-- Whether an instruction assigns, writes or clears the variables. -/
def Instruction.IsStraight : Instruction → Prop
  | .setVariable _ _ | .clearVariables | .writeText _ | .writeValue _ | .writeLine => True
  | _ => False

/-- A straight action is compiled to straight instructions. -/
theorem Action.IsStraight.code {a : Action} (straight : a.IsStraight) :
    ∀ i ∈ a.code, i.IsStraight := by
  match a with
  | .assign _ _ | .clear | .print (.text _) | .print (.value _) | .println none
  | .println (some (.text _)) | .println (some (.value _)) =>
    simp [Action.code, Printed.instruction, Instruction.IsStraight]
  | .delay _ | .wait _ | .raw _ => exact straight.elim

namespace Machine

open Command

/-- What the effect of statements depends on, besides the variables. -/
def setting (m : Machine) : Setting :=
  { limit := m.limits.statementLength, level := m.diagnostics, readings := m.readings }

/-- The machine with the variables of a log, and with its output behind what there was. -/
def logged (m : Machine) (dest : Destination) (log : Log) : Machine :=
  { m with vars := log.vars, outbox := m.outbox ++ (log.output.map (Delivery.mk dest)).toArray }

variable {m : Machine} {log : Log} {i : Instruction} {code : List Instruction} {dest : Destination}

theorem logged_start (m : Machine) (dest : Destination) : m.logged dest { vars := m.vars } = m := by
  simp [logged]

theorem deliver_logged (m : Machine) (dest : Destination) (log : Log) (output : Output) :
    (m.logged dest log).deliver dest output =
      m.logged dest { log with output := log.output ++ [output] } := by
  simp [logged, deliver]

/-- A fault is noted in the log, and shown if faults are. -/
theorem report_logged (m : Machine) (dest : Destination) (log : Log) (f : Fault) :
    (m.logged dest log).report dest f = m.logged dest (m.setting.note log (.error f log.vars)) := by
  unfold report diagnose
  by_cases shown : 1 ≤ m.diagnostics
  · rw [if_pos (show 1 ≤ (m.logged dest log).diagnostics from shown), deliver_logged]
    simp [logged, Setting.note, Setting.shown, setting, shown]
  · rw [if_neg (show ¬1 ≤ (m.logged dest log).diagnostics from shown)]
    simp [logged, Setting.note, Setting.shown, setting, shown]

/-- The opcode of a straight instruction does to a machine what the instruction does to the
variables and the output. Where the statement comes from makes no difference. -/
theorem perform_logged {op : Opcode} (straight : i.IsStraight) (proper : i.Proper)
    (named : i.opcode? = some op) (origin : Origin) (dest : Destination) (m : Machine) (log : Log) :
    perform op (i.text.drop 2) origin dest (m.logged dest log) =
      match i.effect m.readings log.vars with
      | .ok outputs vars => .ok () (m.logged dest { log with vars, output := log.output ++ outputs })
      | .error f vars => .error f (m.logged dest { log with vars }) := by
  have scope : (m.logged dest log).scope = { vars := log.vars, readings := m.readings } := rfl
  match i with
  | .clearVariables =>
    cases named
    simp [perform, effect, logged, show Opcode.clearVariables.category ≠ .control by decide]
  | .writeLine =>
    cases named
    simp [perform, effect, write, deliver_logged,
      show Opcode.writeLine.category ≠ .control by decide]
  | .writeText content =>
    cases named
    rw [text, drop_code _ (by decide)]
    simp [perform, effect, write, deliver_logged,
      show Opcode.writeText.category ≠ .control by decide]
  | .writeValue e =>
    cases named
    rw [text, drop_code _ (by decide), show perform .writeValue e.text origin dest
      (m.logged dest log) = (expression e.text >>= fun v => write dest (.value v))
        (m.logged dest log) from rfl, bind_apply, expression_text proper, scope, effect]
    cases e.value { vars := log.vars, readings := m.readings } with
    | error f => rfl
    | ok v => exact congrArg (EStateM.Result.ok ()) (deliver_logged m dest log (.value v))
  | .setVariable name e =>
    cases named
    rw [text, List.append_assoc, drop_code _ (by decide),
      show perform .setVariable (name ++ Byte.equals :: e.text) origin dest (m.logged dest log) =
        setVariable (name ++ Byte.equals :: e.text) (m.logged dest log) from rfl,
      setVariable_text proper.1 proper.2, scope, effect]
    cases e.value { vars := log.vars, readings := m.readings } with
    | error f => rfl
    | ok v =>
      simp only [bind_apply, onVariables, Attempt.on,
        show (m.logged dest log).vars = log.vars from rfl]
      cases Variables.findOrCreate name log.vars with
      | error f vars => rfl
      | ok place vars =>
        dsimp only
        cases Variables.set place.1 v vars with
        | error f vars' => rfl
        | ok u vars' => simp [logged]

/-- A statement that is not too long does what the log says. -/
theorem execute_logged (straight : i.IsStraight) (proper : i.Proper) (quiet : m.diagnostics ≤ 1)
    (fits : i.text.length ≤ m.limits.statementLength) (origin : Origin) (dest : Destination)
    (log : Log) :
    (m.logged dest log).execute i.text origin dest = m.logged dest (m.setting.step log i) := by
  obtain ⟨op, named⟩ : ∃ op, i.opcode? = some op := by
    cases i <;> first | exact ⟨_, rfl⟩ | exact straight.elim
  have read := ofStatement?_of_opcode? named
  have performed := perform_logged straight proper named origin dest m log
  have silent : (m.logged dest log).diagnose 3 dest (Utf8.decode i.text) = m.logged dest log :=
    if_neg (show ¬3 ≤ m.diagnostics by omega)
  have short : ¬m.setting.limit < i.text.length := Nat.not_lt_of_le fits
  rw [execute, silent, read]
  dsimp only
  rw [performed, Setting.step, Setting.attempt, if_neg short]
  have readings : m.setting.readings = m.readings := rfl
  rw [readings]
  cases i.effect m.readings log.vars with
  | ok outputs vars => rfl
  | error f vars => exact report_logged m dest { log with vars } _

/-- A statement that is too long is passed over and reported. -/
theorem report_tooLong (long : m.limits.statementLength < i.text.length) (dest : Destination)
    (log : Log) : (m.logged dest log).report dest (.of .statementTooLong) =
      m.logged dest (m.setting.step log i) := by
  have exceeded : m.setting.limit < i.text.length := long
  rw [report_logged, Setting.step, Setting.attempt, if_pos exceeded]

/-! ## Statements that come in -/

/-- A statement that is too long is reported as soon as there is no room, and the rest of it is
dropped. -/
theorem receiveAll_of_tooLong {text : Bytes} (idle : Idle m)
    (plain : ∀ b ∈ text, Byte.isControl b = false) (long : m.limits.statementLength < text.length)
    (dest : Destination) :
    m.receiveAll (text ++ [Byte.statementEnd]) dest = m.report dest (.of .statementTooLong) := by
  obtain ⟨head, b, rest, rfl, length⟩ : ∃ head b rest, text = head ++ b :: rest ∧
      head.length = m.limits.statementLength := by
    obtain ⟨b, rest, cut⟩ : ∃ b rest, text.drop m.limits.statementLength = b :: rest :=
      List.exists_cons_of_ne_nil (by simpa using long)
    exact ⟨text.take m.limits.statementLength, b, rest, by rw [← cut, List.take_append_drop],
      List.length_take_of_le long.le⟩
  obtain ⟨before, behind⟩ := List.forall_mem_append.mp plain
  obtain ⟨first, last⟩ := List.forall_mem_cons.mp behind
  have room : m.line.length + head.length ≤ m.limits.statementLength := by
    rw [idle.line, length, List.length_nil, Nat.zero_add]
  have filled := receiveAll_of_plain idle.device idle.discarding before room dest
  have refused : { m with line := m.line ++ head }.receive b dest =
      { m with line := [], discarding := true }.report dest (.of .statementTooLong) := by
    have full : m.limits.statementLength ≤ (m.line ++ head).length := by
      rw [idle.line, List.nil_append, length]
    simp only [receive, idle.device, assemble, if_neg (Byte.ne_of_not_isControl first).2, first,
      idle.discarding, Bool.or_self, Bool.false_eq_true, if_false, if_pos full]
  -- What is reported shows in the output alone, and so does not depend on the line.
  obtain ⟨outbox, shown, shown'⟩ : ∃ outbox, m.report dest (.of .statementTooLong) =
      { m with outbox } ∧ { m with line := [], discarding := true }.report dest
        (.of .statementTooLong) = { m with line := [], discarding := true, outbox } := by
    unfold report diagnose
    by_cases visible : 1 ≤ m.diagnostics
    · exact ⟨_, if_pos visible, if_pos visible⟩
    · exact ⟨m.outbox, if_neg visible, if_neg visible⟩
  let full : Machine := { m with line := [], discarding := true, outbox }
  have dropped : full.receiveAll (rest ++ [Byte.statementEnd]) dest =
      { m with line := [], discarding := false, outbox } :=
    receiveAll_of_discarding (m := full) idle.device rfl last dest
  calc m.receiveAll (head ++ b :: rest ++ [Byte.statementEnd]) dest
      = ({ m with line := m.line ++ head }.receive b dest).receiveAll
          (rest ++ [Byte.statementEnd]) dest := by
        rw [List.append_assoc, receiveAll_append, filled]
        rfl
    _ = { m with line := [], discarding := false, outbox } := by rw [refused, shown', dropped]
    _ = m.report dest (.of .statementTooLong) := by rw [shown, ← idle.line, ← idle.discarding]

theorem idle_logged (idle : Idle m) (dest : Destination) (log : Log) : Idle (m.logged dest log) :=
  ⟨idle.device, idle.line, idle.discarding⟩

/-- Straight statements that come in do what the log says. -/
theorem receiveAll_logged (idle : Idle m) (quiet : m.diagnostics ≤ 1)
    (straight : ∀ i ∈ code, i.IsStraight) (proper : ∀ i ∈ code, i.Proper) (dest : Destination)
    (log : Log) :
    (m.logged dest log).receiveAll (encode code) dest = m.logged dest (m.setting.steps log code) := by
  induction code generalizing log with
  | nil => rfl
  | cons i code ih =>
    have straight' := straight i List.mem_cons_self
    have proper' := proper i List.mem_cons_self
    have one : (m.logged dest log).receiveAll (i.text ++ [Byte.statementEnd]) dest =
        m.logged dest (m.setting.step log i) := by
      have idle' := idle_logged idle dest log
      by_cases long : m.limits.statementLength < i.text.length
      · rw [receiveAll_of_tooLong idle' proper'.plain long, report_tooLong long]
      · have fits := Nat.le_of_not_lt long
        rw [receiveAll_statement idle' proper'.plain proper'.text_ne_nil fits,
          execute_logged straight' proper' quiet fits]
    have later := ih (fun j member => straight j (List.mem_cons_of_mem i member))
      (fun j member => proper j (List.mem_cons_of_mem i member)) (m.setting.step log i)
    rw [show encode (i :: code) = (i.text ++ [Byte.statementEnd]) ++ encode code from rfl,
      receiveAll_append, one]
    exact later

/-! ## Statements of the stored program -/

/-- A machine at a place of its program, with the variables and the output of a log. -/
def loggedAt (m : Machine) (pc : Nat) (log : Log) : Machine :=
  { m with program := .active, pc }.logged m.owner log

/-- Straight statements of a program do what the log says, and then the program stops. -/
theorem run_logged {before after : List Instruction} (quiet : m.diagnostics ≤ 1)
    (stored : m.store.program = encode (before ++ after)) (straight : ∀ i ∈ after, i.IsStraight)
    (proper : ∀ i ∈ after, i.Proper) (log : Log) :
    (m.loggedAt (encode before).length log).run (after.length + 1) =
      { m.loggedAt (encode (before ++ after)).length (m.setting.steps log after) with
        program := .stopped } := by
  induction after generalizing before log with
  | nil =>
    have standing : (m.loggedAt (encode before).length log).At before [] := ⟨stored, rfl⟩
    have last : (m.loggedAt (encode before).length log).tick =
        { m.loggedAt (encode before).length log with program := .stopped } := by
      rw [tick_of_at_nil (.inl rfl) standing, enterState, if_neg (by nofun)]
      exact if_neg (show ¬2 ≤ m.diagnostics by omega)
    rw [List.append_nil]
    simp only [List.length_nil, run, last, isRunning]
    rfl
  | cons i after ih =>
    have straight' := straight i List.mem_cons_self
    have proper' := proper i List.mem_cons_self
    have standing : (m.loggedAt (encode before).length log).At before (i :: after) := ⟨stored, rfl⟩
    have split : before ++ i :: after = (before ++ [i]) ++ after := by simp
    have ticked : (m.loggedAt (encode before).length log).tick =
        m.loggedAt (encode (before ++ [i])).length (m.setting.step log i) := by
      rw [tick_of_at_cons (.inl rfl) standing proper']
      let next : Machine := { m with program := .active, pc := (encode (before ++ [i])).length }
      -- A statement that is too long is reported, and the log knows it as a fault.
      by_cases long : m.limits.statementLength < i.text.length
      · have reported := report_tooLong (m := next) long m.owner log
        exact (if_pos long).trans reported
      · have executed := execute_logged (m := next) straight' proper' quiet
          (Nat.le_of_not_lt long) .program m.owner log
        exact (if_neg long).trans executed
    have running : (m.loggedAt (encode (before ++ [i])).length (m.setting.step log i)).isRunning =
        true := by
      simp [isRunning, loggedAt, logged]
    rw [split] at stored ⊢
    have later := ih stored (fun j member => straight j (List.mem_cons_of_mem i member))
      (fun j member => proper j (List.mem_cons_of_mem i member)) (m.setting.step log i)
    rw [List.length_cons, run]
    simp only [ticked, running, if_true]
    exact later

end Machine

end ControlScript
