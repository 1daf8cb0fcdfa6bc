import ControlScript.Proofs.Sessions
import ControlScript.Proofs.Simulation

/-!
# Running what was entered

A program that is entered and accepted is run as its script says. From the lines to what the machine
comes to, three things go together: the lines form a script and are compiled to its code, the code
is downloaded as it is, and a machine that runs the code meets the result of the script.

## Main definitions

* `Session.Entered` — lines of script leave of a machine what compiling them leaves

## Main results

* `Session.entered_of_accepted` — entering a program that is accepted
* `Session.accepted_of_faultless` — a program that is entered without a fault is accepted
* `Machine.Course.outcome` — what a machine that runs the code for a script comes to
* `Session.runs_script` — a program that is entered is run as its script says
-/

namespace ControlScript

open Instruction

theorem Machine.Alike.renewed {m n k : Machine} {compiler compiler' : Compiler}
    {vars vars' : Variables} (first : Alike (m.renewed compiler vars) n)
    (second : Alike (n.renewed compiler' vars') k) : Alike (m.renewed compiler' vars') k where
  limits := second.limits.trans first.limits
  compiler := second.compiler
  vars := second.vars
  readings := second.readings.trans first.readings
  diagnostics := second.diagnostics.trans first.diagnostics
  outbox quiet := (second.outbox (first.diagnostics.trans quiet)).trans (first.outbox quiet)

namespace Session

variable {s : Session} {room : Nat} {code : List Instruction} {text : String} {texts : List String}

/-- What some lines are compiled to when they are entered next. -/
def compiled (s : Session) (texts : List String) : Transcript :=
  s.machine.compiler.compileAll s.machine.vars s.machine.readings texts

/-- Entering lines of script does what compiling them says, the store and the program apart. -/
structure Entered (s : Session) (texts : List String) : Prop where
  alike : Machine.Alike (s.machine.renewed (s.compiled texts).compiler (s.compiled texts).vars)
    (s.actAll (texts.map .line)).machine
  emitted : (s.actAll (texts.map .line)).emitted = s.emitted ++ (s.compiled texts).emitted
  faults : (s.actAll (texts.map .line)).faults = s.faults ++ (s.compiled texts).faults

/-- After a line that leaves what compiling it leaves, the next lines are compiled as if it had only
been compiled. -/
theorem compiled_act_line
    (first : let compiled := s.machine.compiler.compileLine s.machine.vars s.machine.readings text
      Machine.Alike (s.machine.renewed compiled.compiler compiled.vars)
        (s.act (.line text)).machine) (texts : List String) :
    (s.act (.line text)).compiled texts =
      (s.machine.compiler.compileLine s.machine.vars s.machine.readings text).compiler.compileAll
        (s.machine.compiler.compileLine s.machine.vars s.machine.readings text).vars
        s.machine.readings texts := by
  rw [compiled, first.compiler, first.vars, first.readings]
  rfl

/-- The lines after one that leaves what compiling it leaves. -/
theorem Entered.cons
    (first : let compiled := s.machine.compiler.compileLine s.machine.vars s.machine.readings text
      Machine.Alike (s.machine.renewed compiled.compiler compiled.vars)
        (s.act (.line text)).machine)
    (later : Entered (s.act (.line text)) texts) : Entered s (text :: texts) := by
  obtain ⟨alike, emitted, faults⟩ := later
  rw [compiled_act_line first] at alike emitted faults
  refine ⟨first.renewed alike, emitted.trans ?_, faults.trans ?_⟩
  · exact List.append_assoc _ _ _
  · exact List.append_assoc _ _ _

theorem entered_nil (s : Session) : Entered s [] :=
  ⟨Machine.Alike.refl _, (List.append_nil _).symm, (List.append_nil _).symm⟩

/-- Faults are kept. -/
theorem faults_prefix_actAll (s : Session) (acts : List Act) :
    s.faults <+: (s.actAll acts).faults := by
  induction acts generalizing s with
  | nil => exact List.prefix_rfl
  | cons a acts ih =>
    have first : s.faults <+: (s.act a).faults := by
      cases a with
      | line text => exact List.prefix_append _ _
      | tick | clock => exact List.prefix_rfl
    exact first.trans (ih (s.act a))

/-- A line that neither begins nor ends a program leaves it underway. -/
theorem Underway.goesOn (underway : Underway room code s)
    (inside : Keyword.ofText? text ≠ some .begin ∧ Keyword.ofText? text ≠ some .finish) :
    (s.act (.line text)).machine.compiler.compiling = true := by
  rcases Compiler.compileLine_cases s.machine.compiler s.machine.vars s.machine.readings text
    with ⟨same, -⟩ | ⟨begins, -⟩ | ⟨ends, -⟩
  · exact (congrArg Compiler.compiling (Machine.compiler_enter _ _)).trans
      (same.trans underway.inProgram)
  · exact absurd begins inside.1
  · exact absurd ends inside.2

/-- Entering the rest of a program that is accepted. -/
theorem Underway.entered {body : List String} {closing : String}
    (underway : Underway room code s) (closes : Keyword.ofText? closing = some .finish)
    (inside : ∀ text ∈ body, Keyword.ofText? text ≠ some .begin ∧
      Keyword.ofText? text ≠ some .finish)
    (accepted : (s.compiled (body ++ [closing])).faults = []) :
    Entered s (body ++ [closing]) ∧ Concluded room (s.actAll ((body ++ [closing]).map .line)) := by
  induction body generalizing s code with
  | nil =>
    simp only [List.nil_append, compiled, Compiler.compileAll, List.append_nil,
      Option.toList_eq_nil_iff] at accepted
    have noBegin : Keyword.ofText? closing ≠ some .begin := by
      rw [closes]
      decide
    have ended : (s.act (.line closing)).machine.compiler.compiling = false := by
      obtain ⟨_, -, ⟨goesOn, -⟩ | ⟨left, -⟩⟩ :=
        Compiler.emitted_of_accepted underway.inProgram noBegin accepted
      · exact absurd closes goesOn
      · exact (congrArg Compiler.compiling (Machine.compiler_enter _ _)).trans left
    obtain ⟨alike, concluded, -⟩ := underway.conclude noBegin ended
    exact ⟨.cons alike (entered_nil _), concluded⟩
  | cons text body ih =>
    have inside' := inside text List.mem_cons_self
    obtain ⟨alike, code', next⟩ := underway.line inside'.1 (underway.goesOn inside')
    have accepted' : ((s.act (.line text)).compiled (body ++ [closing])).faults = [] := by
      simp only [List.cons_append, compiled, Compiler.compileAll,
        List.append_eq_nil_iff] at accepted
      rw [compiled_act_line alike]
      exact accepted.2
    obtain ⟨entered, concluded⟩ := ih next
      (fun t member => inside t (List.mem_cons_of_mem text member)) accepted'
    exact ⟨.cons alike entered, concluded⟩

/-- Entering a program that is accepted. -/
theorem entered_of_accepted {m : Machine} {opening closing : String} {body : List String}
    (idle : m.Idle) (outside : m.compiler.compiling = false)
    (two : 2 ≤ m.limits.statementLength) (positive : 0 < m.store.capacity)
    (reliable : m.store.medium.IsReliable) (frames : Frames opening body closing)
    (accepted : (m.compiler.compileAll m.vars m.readings
      (opening :: (body ++ [closing]))).faults = []) :
    Entered { machine := m } (opening :: (body ++ [closing])) ∧ Concluded m.store.capacity
      (actAll { machine := m } ((opening :: (body ++ [closing])).map .line)) := by
  simp only [Compiler.compileAll, List.append_eq_nil_iff, Option.toList_eq_nil_iff] at accepted
  obtain ⟨alike, underway⟩ :=
    underway_of_begin idle outside two positive reliable frames.opens accepted.1
  have accepted' : ((act { machine := m } (.line opening)).compiled (body ++ [closing])).faults =
      [] := by
    rw [compiled_act_line alike]
    exact accepted.2
  obtain ⟨entered, concluded⟩ := underway.entered frames.closes frames.inside accepted'
  exact ⟨.cons alike entered, concluded⟩

/-- While a program is entered, the faults are those of the lines when they are compiled. -/
theorem Underway.faults_eq {body : List String} {closing : String} (underway : Underway room code s)
    (inside : ∀ text ∈ body, Keyword.ofText? text ≠ some .begin ∧
      Keyword.ofText? text ≠ some .finish) :
    (s.actAll ((body ++ [closing]).map .line)).faults =
      s.faults ++ (s.compiled (body ++ [closing])).faults := by
  induction body generalizing s code with
  | nil =>
    simp only [List.nil_append, compiled, Compiler.compileAll, List.append_nil]
    rfl
  | cons text body ih =>
    have inside' := inside text List.mem_cons_self
    obtain ⟨alike, code', next⟩ := underway.line inside'.1 (underway.goesOn inside')
    have later := ih next fun t member => inside t (List.mem_cons_of_mem text member)
    rw [compiled_act_line alike] at later
    refine later.trans ?_
    rw [compiled, List.cons_append, Compiler.compileAll, ← List.append_assoc]
    rfl

/-- A program that is entered without a fault is accepted when it is compiled. -/
theorem accepted_of_faultless {m : Machine} {opening closing : String} {body : List String}
    (idle : m.Idle) (outside : m.compiler.compiling = false) (two : 2 ≤ m.limits.statementLength)
    (positive : 0 < m.store.capacity) (reliable : m.store.medium.IsReliable)
    (frames : Frames opening body closing)
    (faultless : (actAll { machine := m }
      ((opening :: (body ++ [closing])).map .line)).faults = []) :
    (m.compiler.compileAll m.vars m.readings (opening :: (body ++ [closing]))).faults = [] := by
  have last : ((act { machine := m } (.line opening)).actAll
    ((body ++ [closing]).map .line)).faults = [] := faultless
  have start := faults_prefix_actAll (act { machine := m } (.line opening))
    ((body ++ [closing]).map .line)
  rw [last] at start
  have first := List.prefix_nil.mp start
  have accepted : (m.compiler.compileLine m.vars m.readings opening).fault = none :=
    Option.toList_eq_nil_iff.mp first
  obtain ⟨alike, underway⟩ :=
    underway_of_begin idle outside two positive reliable frames.opens accepted
  have faults : ((act { machine := m } (.line opening)).actAll
      ((body ++ [closing]).map .line)).faults = _ := underway.faults_eq frames.inside
  rw [last, first, List.nil_append, compiled_act_line alike] at faults
  rw [Compiler.compileAll, accepted]
  exact faults.symm

end Session

namespace Machine

variable {base : Machine} {script : Script} {course : Nat → Machine}

/-- What a machine that runs the code for a script comes to. If the script terminates, so does the
machine, with the same variables and the same output; if not, the machine never stops. -/
theorem Course.outcome (loaded : Loaded base (script.code 0 0)) (placed : script.Placed false)
    (noRaw : ∀ statement, .raw statement ∉ script.code 0 0) (active : base.program = .active)
    (pc : base.pc = 0) (quiet : base.diagnostics = 0) (turns : Course course)
    (start : course 0 = base) :
    (∀ bound ending memory,
      script.run base.readings bound { vars := base.vars } = some (ending, memory) →
        ∃ k, ∀ j, k ≤ j → (course j).program = .stopped ∧ (course j).vars = memory.vars ∧
          (course j).outbox.toList =
            base.outbox.toList ++ memory.output.map (Delivery.mk base.owner)) ∧
      ((∀ bound, script.run base.readings bound { vars := base.vars } = none) →
        ∀ k, (course k).program ≠ .stopped) := by
  have carries : Carries base { vars := base.vars } (course 0) := by
    rw [start]
    have running : base.isRunning = true := by simp [isRunning, active]
    have waits : base.program ≠ .awaitingDelay := by simp [active]
    exact ⟨rfl, rfl, rfl, rfl, quiet, running, fun awaiting => absurd awaiting waits, rfl, by simp⟩
  have stands : Stands base (script.code 0 0) (script.code 0 0 ++ []) { vars := base.vars }
      (course 0) := ⟨carries, [], by simp, by rw [start, pc]; rfl⟩
  have meets (bound : Nat) : Meets base (script.code 0 0) course 0 [] 0 bound
      (script.run base.readings bound { vars := base.vars }) :=
    meets_run loaded turns noRaw stands
  refine ⟨fun bound ending memory terminates => ?_, fun endless k => ?_⟩
  · have met := meets bound
    rw [terminates, Script.finished_of_placed placed terminates] at met
    obtain ⟨u, -, behind⟩ := met
    obtain ⟨time, patient, turned⟩ := turns u
    have stopped := behind.turn_nil loaded patient
    rw [← turned] at stopped
    refine ⟨u + 1, fun j le => ?_⟩
    induction le with
    | refl => exact stopped
    | @step j _ ih =>
      have halted : (course j).isRunning = false := by simp [isRunning, ih.1]
      obtain ⟨time, next⟩ := turns.eq_setClock_of_not_isRunning halted
      rw [Nat.succ_eq_add_one, next]
      exact ih
  -- A script that runs on beyond the bound `k` keeps the machine running for `k` turns.
  · have met := meets k
    rw [endless k, Meets, Nat.zero_add] at met
    intro stopped
    simp [isRunning, stopped] at met

/-- Some turns of a machine whose clock is set to the last deadline before each tick. -/
def patiently (m : Machine) : (turns : Nat) → Machine
  | 0 => m
  | turns + 1 => ((m.patiently turns).setClock (m.patiently turns).deadline).tick

theorem course_patiently (m : Machine) : Course m.patiently := by
  intro k
  refine ⟨(m.patiently k).deadline, fun _ small => ?_, rfl⟩
  rw [Nat.mod_eq_of_lt small]

end Machine

/-- A script without raw statements is compiled to none. -/
theorem Compiler.Spells.raw_notMem {c : Compiler} {vars : Variables} {readings : Readings}
    {opening closing : String} {body : List String} {script : Script}
    (frames : Frames opening body closing)
    (noRaw : ∀ text ∈ body, Line.rawStatement? text = none)
    (spells : c.Spells vars readings (opening :: (body ++ [closing])) script) (statement : Bytes) :
    .raw statement ∉ script.code 0 0 := by
  obtain ⟨start, lines, read, inside, formed⟩ := spells
  have apart : ∀ i ∈ script.code 0 0, i ≠ .raw statement := by
    refine formed.forall_mem_code (fun _ => nofun) (fun _ => nofun) ?_ 0 0
    rintro ⟨indent, s⟩ member
    cases s with
    | action a =>
      rintro - i inCode rfl
      obtain ⟨text, inBody, limit, scope, after, said⟩ :=
        exists_text_of_inside frames inside read _ member
      obtain rfl := Action.eq_raw_of_mem_code inCode
      cases (noRaw text inBody).symm.trans (Line.rawStatement?_of_read? said)
    | ifThen holds | whileLoop holds | untilTrue holds => exact fun label => nofun
    | _ => trivial
  exact fun member => apart _ member rfl

namespace Session

/-- A program that is entered and accepted is run as its script says. If the script terminates, the
machine comes to stop, with the variables and the output of the script; if not, the machine never
stops. -/
theorem runs_script {m : Machine} {opening closing : String} {body : List String}
    (idle : m.Idle) (outside : m.compiler.compiling = false)
    (reliable : m.store.medium.IsReliable) (quiet : m.diagnostics = 0)
    (frames : Frames opening body closing)
    (noRaw : ∀ text ∈ body, Line.rawStatement? text = none) :
    let texts := opening :: (body ++ [closing])
    let compiled := m.compiler.compileAll m.vars m.readings texts
    compiled.faults = [] → (stored compiled.emitted).length + 1 ≤ m.store.capacity →
      (∀ i ∈ compiled.emitted, i.text.length ≤ m.limits.statementLength) →
      (∃ script, m.compiler.Spells m.vars m.readings texts script) ∧
      ∀ script, m.compiler.Spells m.vars m.readings texts script →
        ∀ course, Machine.Course course →
          course 0 = (actAll { machine := m } (texts.map .line)).machine →
          (∀ bound ending memory,
            script.run m.readings bound { vars := compiled.vars } = some (ending, memory) →
              ∃ k, ∀ j, k ≤ j → (course j).program = .stopped ∧ (course j).vars = memory.vars ∧
                (course j).outbox.toList =
                  m.outbox.toList ++ memory.output.map (Delivery.mk console)) ∧
          ((∀ bound, script.run m.readings bound { vars := compiled.vars } = none) →
            ∀ k, (course k).program ≠ .stopped) := by
  intro texts compiled accepted room short
  refine ⟨Compiler.exists_spells_of_accepted frames accepted,
    fun script spells course turns start => ?_⟩
  have noRawCode := spells.raw_notMem frames noRaw
  obtain ⟨_, lines, read, inside, formed⟩ := spells
  obtain ⟨-, emitted, -, -⟩ := Compiler.compileAll_of_forms inside read formed
  rw [outside] at emitted
  have two : 2 ≤ m.limits.statementLength :=
    short .beginDownload (by rw [show compiled.emitted = _ from emitted]; simp)
  obtain ⟨entered, concluded⟩ := entered_of_accepted idle outside two (by omega) reliable frames
    accepted
  have closed : Closed (script.code 0 0) := by
    refine formed.closed_code (Compiler.exists_text_of_inside frames inside read) ?_
    intro text inBody statement isRaw
    rw [noRaw text inBody] at isRaw
    cases isRaw
  -- What is stored is the code of the script that the lines spell.
  have program : stored compiled.emitted = encode (script.code 0 0) := by
    rw [show compiled.emitted = _ from emitted]
    exact stored_framed false fun i member => (closed.fit i member).toKept
  obtain ⟨n, n_eq⟩ : ∃ n, n = (actAll { machine := m } (texts.map .line)).machine := ⟨_, rfl⟩
  have outcome := concluded.stored
  rw [entered.faults, entered.emitted, if_pos ⟨accepted, room⟩, ← n_eq] at outcome
  obtain ⟨-, stored, active, pc, owner⟩ := outcome
  have alike : Machine.Alike (m.renewed compiled.compiler compiled.vars) n := n_eq ▸ entered.alike
  have loaded : Machine.Loaded n (script.code 0 0) := by
    refine ⟨stored.trans program, closed, fun i member => ?_⟩
    rw [show n.limits = m.limits from alike.limits]
    exact short i (by rw [show compiled.emitted = _ from emitted]; simp [member])
  have outcome := turns.outcome loaded formed.placed noRawCode active pc
    (alike.diagnostics.trans quiet) (start.trans n_eq.symm)
  rw [show n.readings = m.readings from alike.readings,
    show n.vars = compiled.vars from alike.vars, show n.outbox = m.outbox from alike.outbox quiet,
    owner] at outcome
  exact outcome

/-- A loop that waits in each of its two turns, with the clock set to each deadline. -/
theorem runs_counting_loop :
    let body := ["n = 0", "do", "  n = n + 1", "  delay 1", "until n > 1", "println n"]
    let m := Machine.ofLimits {} (.ofLimits {}) 0
    let after := actAll { machine := m } (("begin" :: (body ++ ["end"])).map .line)
    ∃ k, ∀ j, k ≤ j → (after.machine.patiently j).program = .stopped ∧
      (after.machine.patiently j).outbox.toList = [⟨console, .value 2⟩, ⟨console, .lineBreak⟩] := by
  intro body m after
  let one : Operand := .literal ⟨none, [0x31]⟩
  let step : Action := .assign [0x6E] (.binary (.variable [0x6E]) .add one)
  let holds : Condition := ⟨.variable [0x6E], .greater, one⟩
  let first : Action := .assign [0x6E] (.single (.literal ⟨none, [0x30]⟩))
  let last : Action := .println (some (.value (.single (.variable [0x6E]))))
  let script : Script := .action first (.doUntil
    (.action step (.action (.delay (.single one)) .done)) holds (.action last .done))
  have formed : Forms 16 0 false 0 [⟨0, .action first⟩, ⟨0, .doLoop⟩, ⟨2, .action step⟩,
      ⟨2, .action (.delay (.single one))⟩, ⟨0, .untilTrue holds⟩, ⟨0, .action last⟩] script :=
    .action rfl (.doUntil (by decide) (by decide) (List.cons_ne_nil _ _)
      (.action rfl (.action rfl .done)) (.action rfl .done))
  have spells : m.compiler.Spells m.vars m.readings ("begin" :: (body ++ ["end"])) script :=
    ⟨0, _, by decide +kernel, by decide, formed⟩
  have frames : Frames "begin" body "end" := ⟨by decide, by decide, by decide⟩
  have ran := runs_script (m := m) ⟨rfl, rfl, rfl⟩ rfl trivial rfl frames (by decide)
    (by decide +kernel) (by decide +kernel) (by decide +kernel)
  have outcome := (ran.2 script spells _ (Machine.course_patiently after.machine) rfl).1
  let final : Memory :=
    { vars := { capacity := 20, nameLength := 10, entries := [{ name := [0x6E], value := some 2 }] }
      output := [.value 2, .lineBreak] }
  obtain ⟨k, stopped⟩ := outcome 12 .finished final (by decide +kernel)
  exact ⟨k, fun j le => ⟨(stopped j le).1, (stopped j le).2.2⟩⟩

end Session

end ControlScript
