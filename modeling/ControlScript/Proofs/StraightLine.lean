import ControlScript.Proofs.Immediate
import ControlScript.Proofs.Listing
import ControlScript.Proofs.Logged
import ControlScript.Proofs.Silence

/-!
# Straight lines, typed and stored

Lines that assign, print and clear the variables may be typed in one after the other, or they may be
entered as a program that is then run. Both come to the same output and the same variables. This is
so although a program makes its variables before it runs, and although each statement may fail.

## Main definitions

* `Nest.IsFlat` — no block is open
* `Machine.RunsClean` — lines that are typed in cause no fault
* `Session.Does` — what is done to a machine does what actions say

## Main results

* `Compiler.compileAll_of_straight` — what a program of straight lines is compiled to
* `Session.does_of_line`, `Session.exists_of_typed` — what a straight line that is typed in comes to,
  and line after line
* `Session.typed_eq_stored` — both come to the same
-/

namespace ControlScript

open Instruction

/-! ## The program -/

/-- No block is open, and none can be closed. -/
structure Nest.IsFlat (n : Nest) : Prop where
  blocks : n.blocks = []
  indent : n.indent = 0
  openedBlock : n.openedBlock = false

namespace Nest.IsFlat

variable {n m : Nest} {indent : Nat} {code : List Instruction}

/-- Where no block is open, a line must not be indented. -/
theorem align (flat : n.IsFlat) {matched : Option Block}
    (aligned : n.align indent = some (m, matched, code)) : m = n ∧ matched = none ∧ code = [] := by
  unfold Nest.align at aligned
  rw [flat.openedBlock, flat.indent] at aligned
  cases indent with
  | zero =>
    cases aligned
    exact ⟨rfl, rfl, rfl⟩
  | succ k => simp at aligned

/-- An action leaves it at that. -/
theorem accept (flat : n.IsFlat) {a : Action}
    (accepted : n.accept { indent, sentence := .action a } = some (m, code)) :
    m = n ∧ code = a.code := by
  simp only [Nest.accept, Option.bind_eq_some_iff, Option.map_eq_some_iff, Prod.exists,
    Prod.mk.injEq] at accepted
  obtain ⟨_, matched, before, aligned, _, more, obeyed, rfl, rfl⟩ := accepted
  obtain ⟨rfl, rfl, rfl⟩ := flat.align aligned
  simp only [Nest.obey] at obeyed
  split at obeyed
  · cases obeyed
  · cases obeyed
    exact ⟨rfl, rfl⟩

theorem finish (flat : n.IsFlat) (finished : n.finish indent = some (m, code)) : code = [] := by
  simp only [Nest.finish, Option.bind_eq_some_iff, Prod.exists] at finished
  obtain ⟨_, matched, before, aligned, last⟩ := finished
  obtain ⟨rfl, rfl, rfl⟩ := flat.align aligned
  split at last
  · cases last
    rfl
  · cases last

end Nest.IsFlat

namespace Compiler

variable {c : Compiler} {vars : Variables} {readings : Readings} {body : List String}
variable {closing : String}

@[simp] theorem nest_countLine (c : Compiler) : c.countLine.nest = c.nest := by
  unfold countLine
  split <;> rfl

/-- The rest of a program of straight lines is compiled to the instructions for what they say, and
the variables for all of it are made. -/
theorem compileAll_of_straight (inProgram : c.compiling = true) (flat : c.nest.IsFlat)
    (closes : Keyword.ofText? closing = some .finish)
    (straight : ∀ text ∈ body, Line.IsStraight text)
    (accepted : (c.compileAll vars readings (body ++ [closing])).faults = []) :
    ∃ actions, Line.SayAll body actions ∧
      (c.compileAll vars readings (body ++ [closing])).emitted =
        actions.flatMap Action.code ++ [.endDownload] ∧
      (c.compileAll vars readings (body ++ [closing])).vars = Action.makeAll vars actions := by
  induction body generalizing c vars with
  | nil =>
    simp only [List.nil_append, compileAll, List.append_nil, Option.toList_eq_nil_iff] at accepted ⊢
    obtain ⟨l, vars', read, heeded⟩ := exists_of_accepted (.inl inProgram) accepted
    cases l with
    | none => cases (Line.ofText?_of_blank read).symm.trans closes
    | some l =>
      obtain ⟨after, code, heeded⟩ := heeded l rfl
      have said := (Line.ofText?_of_read? read).2.mpr closes
      have kept := Line.vars_of_isFrame (by rw [said]; rfl) read
      rw [compileLine_of_heed (.inl inProgram) read heeded]
      -- No block is open, so the end closes none.
      refine ⟨[], .nil, ?_, kept⟩
      simp only [heed, said] at heeded
      split at heeded
      · simp only [Option.map_eq_some_iff, Prod.exists, Prod.mk.injEq] at heeded
        obtain ⟨n, closers, finished, -, rfl⟩ := heeded
        rw [Nest.IsFlat.finish (by rwa [nest_countLine]) finished]
        rfl
      · cases heeded
  | cons text body ih =>
    simp only [List.cons_append, compileAll, List.append_eq_nil_iff, Option.toList_eq_nil_iff]
      at accepted ⊢
    obtain ⟨l, vars', read, heeded⟩ := exists_of_accepted (.inl inProgram) accepted.1
    have straight' (t : String) (member : t ∈ body) := straight t (List.mem_cons_of_mem text member)
    cases l with
    | none =>
      obtain rfl := (Line.blank_of_read? read).2
      rw [compileLine_of_blank read] at accepted ⊢
      obtain ⟨actions, said, emitted, made⟩ :=
        ih (by simpa using inProgram) (by rwa [nest_countLine]) straight' accepted.2
      exact ⟨actions, .blank ⟨_, _, _, read⟩ said, emitted, made⟩
    | some l =>
      obtain ⟨after, code, heeded⟩ := heeded l rfl
      obtain ⟨a, said, -, fits⟩ := Line.exists_of_isStraight (straight text List.mem_cons_self) read
      obtain ⟨indent, s⟩ := l
      obtain rfl : s = .action a := said
      rw [compileLine_of_heed (.inl inProgram) read heeded] at accepted ⊢
      rw [heed_of_not_isFrame _ rfl, nest_countLine, Option.map_eq_some_iff] at heeded
      obtain ⟨⟨n, emits⟩, obeyed, same⟩ := heeded
      obtain ⟨rfl, rfl⟩ := flat.accept obeyed
      cases same
      obtain ⟨actions, later, emitted, made⟩ := ih (c := c.countLine.withNest c.nest)
        (by simpa using inProgram) (by rwa [nest_withNest]) straight' accepted.2
      refine ⟨a :: actions, .action ⟨_, _, _, read⟩ later, ?_, ?_⟩
      · rw [List.flatMap_cons, List.append_assoc]
        exact congrArg (a.code ++ ·) emitted
      · rw [made, fits.vars]
        rfl

end Compiler

/-! ## The lines typed in -/

namespace Machine

/-- A machine that differs at most in what it shows, which is no more than faults. -/
def ShowsAs (m n : Machine) : Prop :=
  ∃ level outbox, level ≤ 1 ∧ n = { m with diagnostics := level, outbox }

/-- A line that is compiled outside of a program, for a machine with the variables of a log. -/
theorem enter_logged {m : Machine} {log : Log} {text : String} {vars : Variables}
    {code : List Instruction} (compiles : m.compiler.compileLine log.vars m.readings text =
      { compiler := m.compiler, vars, emitted := code, fault := none }) :
    ((m.logged console log).enter text).1 =
      (m.logged console { log with vars }).receiveAll (encode code) console := by
  have given := enter_eq (m := m.logged console log) compiles
  rw [given]
  rfl

/-- When the lines are typed in, with faults shown, none is shown. -/
def RunsClean (m : Machine) (texts : List String) : Prop :=
  let typed := Session.actAll { machine := { m with diagnostics := 1, outbox := #[] } }
    (texts.map .line)
  ∀ delivery ∈ typed.machine.outbox.toList, ∀ content, delivery.output ≠ .diagnostic content

end Machine

namespace Session

open Machine

variable {m : Machine} {log : Log} {texts : List String} {s : Session}

/-- Some acts do to a machine with the variables of a log what actions do to the log, whatever the
machine has shown and shows. -/
def Does (m : Machine) (log : Log) (acts : List Act) (actions : List Action) : Prop :=
  ∀ n, m.ShowsAs n → ∀ other, log.Agrees other → ∀ t : Session,
    t.machine = n.logged console other →
      (t.actAll acts).machine = n.logged console (n.setting.live other actions)

/-- Acts after which others are done. -/
theorem Does.trans {acts acts' : List Act} {actions actions' : List Action}
    (first : Does m log acts actions) (second : Does m (m.setting.live log actions) acts' actions') :
    Does m log (acts ++ acts') (actions ++ actions') := by
  intro n shows other agrees t same
  have moved := first n shows other agrees t same
  obtain ⟨level, outbox, low, rfl⟩ := shows
  rw [actAll_append, Setting.live, List.foldl_append]
  exact second _ ⟨level, outbox, low, rfl⟩ _ (agrees.live m.setting level actions) _ moved

/-- A straight line that is typed in without a fault says nothing, or it does the action that it
says. All that it depends on is the variables, and in these the logs agree. -/
theorem does_of_line {text : String} (idle : m.Idle) (outside : m.compiler.compiling = false)
    (straight : Line.IsStraight text)
    (accepted : (m.compiler.compileLine log.vars m.readings text).fault = none) :
    (Line.Says text none ∧ Does m log [.line text] []) ∨
      ∃ indent a, Line.Says text (some { indent, sentence := .action a }) ∧
        (∀ i ∈ a.code, i.Known (a.make log.vars)) ∧ Does m log [.line text] [a] := by
  have noBegin : Keyword.ofText? text ≠ some .begin := by
    intro begins
    have straight := straight.2
    rw [begins] at straight
    cases straight
  obtain ⟨l, vars, code, read, compiled, answers⟩ :=
    Compiler.exists_answer_of_accepted outside noBegin accepted
  -- The line is compiled alike on all of these machines, since only the variables matter.
  have entered (n : Machine) (shows : m.ShowsAs n) (other : Log) (agrees : log.Agrees other)
      (t : Session) (same : t.machine = n.logged console other) :
      (t.actAll [.line text]).machine =
        (n.logged console { other with vars }).receiveAll (encode code) console := by
    obtain ⟨level, outbox, -, rfl⟩ := shows
    have line : ((Machine.logged { m with diagnostics := level, outbox } console other).enter
        text).1 = _ := enter_logged (by rw [agrees.vars]; exact compiled)
    rw [← line, ← same]
    rfl
  cases l with
  | none =>
    obtain rfl : code = [] := answers
    obtain rfl := (Line.blank_of_read? read).2
    refine .inl ⟨⟨_, _, _, read⟩, fun n shows other agrees t same => ?_⟩
    rw [entered n shows other agrees t same, ← agrees.vars]
    rfl
  | some l =>
    obtain ⟨a, said, -, fits⟩ := Line.exists_of_isStraight straight read
    have proper := Line.read?_proper read
    obtain ⟨indent, sentence⟩ := l
    obtain rfl : sentence = .action a := said
    obtain rfl : code = a.code := answers
    obtain rfl := fits.vars
    refine .inr ⟨indent, a, ⟨_, _, _, read⟩, fits.known, fun n shows other agrees t same => ?_⟩
    rw [entered n shows other agrees t same, ← agrees.vars]
    obtain ⟨level, outbox, low, rfl⟩ := shows
    have idle' : Idle { m with diagnostics := level, outbox } := { idle with }
    exact receiveAll_logged idle' low fits.straight.code proper console _

/-- Straight lines that are typed in without a fault do what they say, action by action. What is
shown of the faults of their statements makes no difference. The induction is on the lines. -/
theorem exists_of_typed (idle : m.Idle) (outside : m.compiler.compiling = false)
    (terse : m.diagnostics ≤ 1) (straight : ∀ text ∈ texts, Line.IsStraight text)
    (start : s.machine = m.logged console log)
    (faultless : (s.actAll (texts.map .line)).faults = []) :
    ∃ actions, Line.SayAll texts actions ∧ m.setting.Knows log actions ∧
      Does m log (texts.map .line) actions := by
  induction texts generalizing log s with
  | nil => exact ⟨[], .nil, trivial, fun n _ other _ t same => same⟩
  | cons text texts ih =>
    obtain ⟨here, straight'⟩ := List.forall_mem_cons.mp straight
    have faultless' : ((s.act (.line text)).actAll (texts.map .line)).faults = [] := faultless
    have accepted : (m.compiler.compileLine log.vars m.readings text).fault = none := by
      have kept := faults_prefix_actAll (s.act (.line text)) (texts.map .line)
      rw [faultless'] at kept
      have none := (List.append_eq_nil_iff.mp (List.prefix_nil.mp kept)).2
      rw [start] at none
      exact Option.toList_eq_nil_iff.mp none
    -- The machine itself is one of those that the line is said to move.
    have self : m.ShowsAs m := ⟨m.diagnostics, m.outbox, terse, rfl⟩
    obtain ⟨said, does⟩ | ⟨indent, a, said, known, does⟩ :=
      does_of_line idle outside here accepted
    · obtain ⟨actions, later, knows, rest⟩ :=
        ih straight' (does m self log ⟨rfl, rfl⟩ s start) faultless'
      exact ⟨actions, .blank said later, knows, does.trans rest⟩
    · obtain ⟨actions, later, knows, rest⟩ :=
        ih straight' (does m self log ⟨rfl, rfl⟩ s start) faultless'
      exact ⟨a :: actions, .action said later, ⟨known, knows⟩, does.trans rest⟩

/-! ## Both ways -/

variable {opening closing : String} {body : List String} {actions : List Action}

/-- A program of straight lines is compiled to the instructions for what they say. -/
theorem compiled_of_straight {c : Compiler} {vars : Variables} {readings : Readings}
    (outside : c.compiling = false) (frames : Frames opening body closing)
    (straight : ∀ text ∈ body, Line.IsStraight text)
    (accepted : (c.compileAll vars readings (opening :: (body ++ [closing]))).faults = []) :
    ∃ actions, Line.SayAll body actions ∧
      (c.compileAll vars readings (opening :: (body ++ [closing]))).emitted =
        .beginDownload :: (actions.flatMap Action.code ++ [.endDownload]) ∧
      (c.compileAll vars readings (opening :: (body ++ [closing]))).vars =
        Action.makeAll vars actions := by
  simp only [Compiler.compileAll, List.append_eq_nil_iff, Option.toList_eq_nil_iff] at accepted ⊢
  obtain ⟨l, vars', read, -⟩ := Compiler.exists_of_accepted (.inr frames.opens) accepted.1
  cases l with
  | none => cases (Line.ofText?_of_blank read).symm.trans frames.opens
  | some l =>
    have said := (Line.ofText?_of_read? read).1.mpr frames.opens
    obtain rfl := Line.vars_of_isFrame (by rw [said]; rfl) read
    have heeded : c.countLine.heed l = some (c.countLine.begun, [.beginDownload]) := by
      simp [Compiler.heed, said, outside]
    rw [Compiler.compileLine_of_heed (.inr said) read heeded] at accepted ⊢
    have flat : c.countLine.begun.nest.IsFlat := ⟨rfl, rfl, rfl⟩
    obtain ⟨actions, later, emitted, made⟩ :=
      Compiler.compileAll_of_straight rfl flat frames.closes straight accepted.2
    exact ⟨actions, later, congrArg ([.beginDownload] ++ ·) emitted, made⟩

/-- A straight line does not frame a program. -/
theorem frames_of_straight (opens : Keyword.ofText? opening = some .begin)
    (closes : Keyword.ofText? closing = some .finish)
    (straight : ∀ text ∈ body, Line.IsStraight text) : Frames opening body closing := by
  refine ⟨opens, closes, fun text member => ?_⟩
  have plain := (straight text member).2
  refine ⟨fun begins => ?_, fun ends => ?_⟩
  · rw [begins] at plain
    cases plain
  · rw [ends] at plain
    cases plain

/-- Straight actions are compiled to straight instructions that become part of a program. -/
theorem straight_of_mem_flatMap (straight : ∀ a ∈ actions, a.IsStraight ∧ a.Proper) :
    ∀ i ∈ actions.flatMap Action.code, i.IsStraight ∧ i.Kept := by
  intro i member
  obtain ⟨a, inActions, inCode⟩ := List.mem_flatMap.mp member
  obtain ⟨isStraight, proper⟩ := straight a inActions
  exact ⟨isStraight.code i inCode, Action.kept_of_mem_code proper isStraight.isRemote i inCode⟩

/-- A machine that has taken a program for some actions and is about to run it. Nothing else has
changed in it. -/
structure Poised (m : Machine) (actions : List Action) (n : Machine) : Prop where
  setting : n.setting = m.setting
  vars : n.vars = Action.makeAll m.vars actions
  outbox : n.outbox = m.outbox
  stored : n.store.program = encode (actions.flatMap Action.code)
  active : n.program = .active
  pc : n.pc = 0
  owner : n.owner = console

/-- After a program of straight lines has been entered, it is about to run. -/
theorem poised_of_entered {m : Machine} (idle : m.Idle) (outside : m.compiler.compiling = false)
    (two : 2 ≤ m.limits.statementLength) (reliable : m.store.medium.IsReliable)
    (terse : m.diagnostics ≤ 1) (frames : Frames opening body closing)
    (straight : ∀ text ∈ body, Line.IsStraight text) :
    let entered := actAll { machine := m } ((opening :: (body ++ [closing])).map .line)
    entered.faults = [] → (stored entered.emitted).length + 1 ≤ m.store.capacity →
      ∃ actions, Line.SayAll body actions ∧ Poised m actions entered.machine := by
  intro entered faultless room
  have accepted := accepted_of_faultless idle outside two (by omega) reliable frames faultless
  obtain ⟨actions, said, emitted, made⟩ := compiled_of_straight outside frames straight accepted
  obtain ⟨enters, concluded⟩ :=
    entered_of_accepted idle outside two (by omega) reliable frames accepted
  have emits : entered.emitted = .beginDownload :: (actions.flatMap Action.code ++ [.endDownload]) :=
    enters.emitted.trans emitted
  have framed : stored entered.emitted = encode (actions.flatMap Action.code) := by
    have framed := stored_framed false fun i member =>
      (straight_of_mem_flatMap (said.straight straight) i member).2
    rw [emits]
    exact framed
  have outcome := concluded.stored
  rw [if_pos ⟨faultless, room⟩] at outcome
  obtain ⟨-, program, active, pc, owner⟩ := outcome
  have fits : (stored (m.compiler.compileAll m.vars m.readings
      (opening :: (body ++ [closing]))).emitted).length < m.store.capacity := by
    rw [emitted, ← emits]
    exact room
  have alike := enters.alike
  refine ⟨actions, said, ?_, alike.vars.trans made, ?_, program.trans framed, active, pc, owner⟩
  · rw [Machine.setting, alike.limits, alike.diagnostics, alike.readings]
    rfl
  · exact outbox_of_entered idle outside two reliable frames terse accepted fits

/-- A program of straight lines comes to what they come to one by one, and stops. -/
theorem Poised.run {m n : Machine} (poised : Poised m actions n) (terse : m.diagnostics ≤ 1)
    (straight : ∀ a ∈ actions, a.IsStraight ∧ a.Proper)
    (knows : m.setting.Knows { vars := m.vars } actions)
    (settled : (∀ a ∈ actions, a ≠ .clear) ∨
      (m.setting.live { vars := m.vars } actions).faults = []) (limit : Nat) :
    let after := n.run ((n.store.listing limit).length + 1)
    let typed := m.logged console (m.setting.live { vars := m.vars } actions)
    after.program = .stopped ∧ after.outbox = typed.outbox ∧ after.vars = typed.vars := by
  have made := straight_of_mem_flatMap straight
  obtain ⟨code, code_eq⟩ : ∃ code, actions.flatMap Action.code = code := ⟨_, rfl⟩
  rw [code_eq] at made
  have stored := poised.stored
  rw [code_eq] at stored
  have start : n = n.loggedAt (encode []).length { vars := n.vars } := by
    have same : { n with program := .active, pc := 0 } = n := by rw [← poised.active, ← poised.pc]
    rw [Machine.loggedAt, show (encode []).length = 0 from rfl, same, logged_start]
  have terse' : n.diagnostics ≤ 1 :=
    (congrArg Setting.level poised.setting).trans_le terse
  have stored' : n.store.program = encode ([] ++ code) := stored
  have ran := run_logged terse' stored' (fun i member => (made i member).1)
    (fun i member => (made i member).2.proper) { vars := n.vars }
  rw [← start, poised.setting, poised.vars] at ran
  have log : m.setting.steps { vars := Action.makeAll m.vars actions } code =
      m.setting.live { vars := m.vars } actions := by
    rw [← code_eq]
    exact Setting.steps_eq_live knows settled
  rw [log] at ran
  dsimp only
  rw [Store.length_listing stored (fun i member => (made i member).2.proper), ran]
  refine ⟨rfl, ?_, rfl⟩
  simp only [Machine.loggedAt, Machine.logged, poised.outbox, poised.owner]

/-- The live run has no fault if none would be shown. -/
theorem faultless_of_runsClean {m : Machine} (clean : m.RunsClean texts)
    (typed : Does m { vars := m.vars } (texts.map .line) actions) :
    (m.setting.live { vars := m.vars } actions).faults = [] := by
  let shown : Machine := { m with diagnostics := 1, outbox := #[] }
  have came := typed shown ⟨1, #[], Nat.le_refl 1, rfl⟩ { vars := m.vars } ⟨rfl, rfl⟩
    { machine := shown } (logged_start shown console).symm
  have plain : ∀ content, .diagnostic content ∉
      (shown.setting.live { vars := m.vars } actions).output := by
    intro content member
    have delivered : Delivery.mk console (.diagnostic content) ∈
        (shown.logged console (shown.setting.live { vars := m.vars } actions)).outbox.toList := by
      simp [Machine.logged, shown, member]
    rw [← came] at delivered
    exact clean _ delivered content rfl
  have none := Setting.faultless_of_output (Nat.le_refl 1) rfl plain
  have start : ({ vars := m.vars } : Log).Agrees { vars := m.vars } := ⟨rfl, rfl⟩
  exact (start.live m.setting 1 actions).faults.symm.trans none

/-- Straight lines come to the same output and the same variables whether they are typed in or
entered as a program. The program stops after one tick for each of its statements and one more. -/
theorem typed_eq_stored {m : Machine} (idle : m.Idle) (outside : m.compiler.compiling = false)
    (two : 2 ≤ m.limits.statementLength) (reliable : m.store.medium.IsReliable)
    (terse : m.diagnostics ≤ 1) (opens : Keyword.ofText? opening = some .begin)
    (closes : Keyword.ofText? closing = some .finish)
    (straight : ∀ text ∈ body, Line.IsStraight text)
    (settled : (∀ text ∈ body, Keyword.ofText? text ≠ some .clear) ∨ m.RunsClean body) :
    let typed := actAll { machine := m } (body.map .line)
    let entered := actAll { machine := m } ((opening :: (body ++ [closing])).map .line)
    typed.faults = [] → entered.faults = [] →
      (stored entered.emitted).length + 1 ≤ m.store.capacity →
      let statements := entered.machine.store.listing m.limits.statementLength
      let after := entered.machine.run (statements.length + 1)
      after.program = .stopped ∧ after.outbox = typed.machine.outbox ∧
        after.vars = typed.machine.vars := by
  intro typed entered live faultless room statements after
  have frames := frames_of_straight opens closes straight
  obtain ⟨actions, said, poised⟩ :=
    poised_of_entered idle outside two reliable terse frames straight faultless room
  -- What is typed in says the same as what is entered.
  have start : ({ machine := m } : Session).machine = m.logged console { vars := m.vars } :=
    (logged_start m console).symm
  obtain ⟨actions', said', knows, came⟩ := exists_of_typed idle outside terse straight start live
  obtain rfl := said.unique said'
  have typed_eq : typed.machine =
      m.logged console (m.setting.live { vars := m.vars } actions) :=
    came m ⟨m.diagnostics, m.outbox, terse, rfl⟩ _ ⟨rfl, rfl⟩ _ start
  have settled' : (∀ a ∈ actions, a ≠ .clear) ∨
      (m.setting.live { vars := m.vars } actions).faults = [] := by
    refine settled.imp ?_ fun clean => faultless_of_runsClean clean came
    rintro noClear a member rfl
    obtain ⟨text, inBody, named⟩ := said.exists_clear straight member
    exact noClear text inBody named
  rw [typed_eq]
  exact poised.run terse (said.straight straight) knows settled' m.limits.statementLength

/-- A division by zero is reported where it stands, and the lines after it are executed. -/
theorem typed_eq_stored_of_division :
    let body := ["# thirds", "n = 6", "", "println n / 0", "print \"n is \"", "println n"]
    let m : Machine := { Machine.ofLimits {} (.ofLimits {}) 0 with diagnostics := 1 }
    let entered := actAll { machine := m } (("begin" :: (body ++ ["end"])).map .line)
    let statements := entered.machine.store.listing m.limits.statementLength
    let after := entered.machine.run (statements.length + 1)
    after.program = .stopped ∧
      after.outbox.toList.map (·.output) = [.diagnostic "DIVISION BY ZERO: WVn/0", .lineBreak,
        .text "n is ", .value 6, .lineBreak] ∧
      after.vars.entries = [{ name := [0x6E], value := some 6 }] := by
  intro body m entered statements after
  let typed := actAll { machine := m } (body.map .line)
  have idle : m.Idle := ⟨rfl, rfl, rfl⟩
  have opens : Keyword.ofText? "begin" = some .begin := by decide
  have closes : Keyword.ofText? "end" = some .finish := by decide
  have straight : ∀ text ∈ body, Line.IsStraight text := by decide
  have noClear : ∀ text ∈ body, Keyword.ofText? text ≠ some .clear := by decide
  have live : typed.faults = [] := by decide +kernel
  have accepted : entered.faults = [] := by decide +kernel
  have room : (stored entered.emitted).length + 1 ≤ m.store.capacity := by decide +kernel
  have same : after.program = .stopped ∧ after.outbox = typed.machine.outbox ∧
      after.vars = typed.machine.vars :=
    typed_eq_stored idle rfl (by decide) trivial (by decide) opens closes straight (.inl noClear)
      live accepted room
  have shown : typed.machine.outbox.toList.map (·.output) =
      [.diagnostic "DIVISION BY ZERO: WVn/0", .lineBreak, .text "n is ", .value 6, .lineBreak] := by
    decide +kernel
  have left : typed.machine.vars.entries = [{ name := [0x6E], value := some 6 }] := by
    decide +kernel
  obtain ⟨stopped, outbox, vars⟩ := same
  rw [outbox, vars]
  exact ⟨stopped, shown, left⟩

end Session

end ControlScript
