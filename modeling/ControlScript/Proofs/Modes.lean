import ControlScript.Proofs.Alignment

/-!
# Compiler and device

The compiler knows whether a line stands in a program, and the device knows whether what it receives
is to be stored. Only the statements that lines are compiled to tie the two together, so they can
get out of step: the compiler is in a program from its first line on, but the device stores only if
the store takes the download that this line asks for.

Here lines are typed in as wholes, while the program runs, is interrupted and the clock is set. A
program that is being entered is stored line by line, unless its download was refused. In that case
its lines are executed as they come in.

## Main definitions

* `Machine.begins`, `Machine.refuses` — a line begins a program, and the store refuses the download
* `Watched` — a machine, with a note on whether the last download was refused
* `Watched.Consistent` — what holds between two lines

## Main results

* `Machine.device_of_begins` — a line that begins a program
* `Watched.Consistent.meet` — one event
* `Watched.stores_unless_refused` — everything that can happen while lines are typed in
-/

namespace ControlScript

namespace Machine

variable {m : Machine}

/-- What a line of script is compiled to. -/
def compiled (m : Machine) (text : String) : Compilation :=
  m.compiler.compileLine m.vars m.readings text

/-- Whether a line of script begins a program. -/
def begins (m : Machine) (text : String) : Bool :=
  Keyword.ofText? text = some .begin ∧ (m.compiled text).fault = none

theorem begins_iff {text : String} : m.begins text = true ↔
    Keyword.ofText? text = some .begin ∧ (m.compiled text).fault = none := by
  simp [begins]

theorem begins_eq_false_iff {text : String} : m.begins text = false ↔
    ¬(Keyword.ofText? text = some .begin ∧ (m.compiled text).fault = none) := by
  rw [← begins_iff, Bool.not_eq_true]

/-- The machine as it is when a line that begins a program asks for the download: a program that
was being entered is given up. -/
def asked (m : Machine) (text : String) : Machine :=
  (m.renewed (m.compiled text).compiler (m.compiled text).vars).receiveAll
    (Instruction.encode (if m.compiler.compiling then [.abortDownload] else [])) console

/-- Whether the store refuses the download that a line asks for: it is to begin, but cannot be
saved. -/
def refuses (m : Machine) (text : String) : Bool :=
  (m.asked text).device = .executeImmediately ∧ (m.asked text).store.medium.fails = true

/-- A line of script in parts: it is compiled, and then comes in. -/
theorem enter_eq_receiveAll (m : Machine) (text : String) : (m.enter text).1 =
    (m.renewed (m.compiled text).compiler (m.compiled text).vars).receiveAll
      (Instruction.encode (m.compiled text).emitted) console := rfl

end Machine

namespace Compiler

variable {c : Compiler} {vars : Variables} {readings : Readings} {text : String}

/-- A line of a program that does not begin another one is compiled to a part of the program, and
perhaps to the statement that ends the download. -/
theorem exists_kept_append (inProgram : c.compiling = true)
    (noBegin : ¬(Keyword.ofText? text = some .begin ∧
      (c.compileLine vars readings text).fault = none)) :
    ∃ code last, (c.compileLine vars readings text).emitted = code ++ last ∧
      (last = [] ∨ last = [.endDownload] ∨ last = [.abortDownload]) ∧ ∀ i ∈ code, i.Kept := by
  by_cases accepted : (c.compileLine vars readings text).fault = none
  · obtain ⟨code, kept, ⟨-, emitted, -⟩ | ⟨-, emitted, -⟩⟩ :=
      emitted_of_accepted inProgram (fun begins => noBegin ⟨begins, accepted⟩) accepted
    · exact ⟨code, [], by rw [emitted, List.append_nil], .inl rfl, kept⟩
    · exact ⟨code, [.endDownload], emitted, .inr (.inl rfl), kept⟩
  · have emitted := (emitted_of_fault inProgram accepted).1
    split at emitted
    · exact ⟨[], [], emitted, .inl rfl, List.forall_mem_nil _⟩
    · exact ⟨[], [.abortDownload], emitted, .inr (.inr rfl), List.forall_mem_nil _⟩

/-- A line after which a program is being compiled, and which does not begin it, stands in it and is
compiled to a part of it. -/
theorem kept_of_compiling (noBegin : ¬(Keyword.ofText? text = some .begin ∧
      (c.compileLine vars readings text).fault = none))
    (goesOn : (c.compileLine vars readings text).compiler.compiling = true) :
    c.compiling = true ∧ ∀ i ∈ (c.compileLine vars readings text).emitted, i.Kept := by
  have inProgram : c.compiling = true := by
    rcases compileLine_cases c vars readings text with ⟨same, -⟩ | ⟨begins, faultless, -⟩ | ended
    · exact same.symm.trans goesOn
    · exact absurd ⟨begins, faultless⟩ noBegin
    · exact ended.2.1
  refine ⟨inProgram, ?_⟩
  by_cases accepted : (c.compileLine vars readings text).fault = none
  · obtain ⟨code, kept, ⟨-, emitted, -⟩ | ⟨left, -⟩⟩ :=
      emitted_of_accepted inProgram (fun begins => noBegin ⟨begins, accepted⟩) accepted
    · rwa [emitted]
    · cases goesOn.symm.trans left
  · rw [(emitted_of_fault inProgram accepted).1, if_pos goesOn]
    exact List.forall_mem_nil _

end Compiler

namespace Machine

variable {m : Machine} {text : String}

/-- After a line that begins a program, the device stores unless the download was refused. -/
theorem device_of_begins (aligned : m.Aligned) (safe : m.Safe)
    (two : 2 ≤ m.limits.statementLength) (opens : m.begins text = true) :
    let n := (m.enter text).1
    if m.refuses text then n.device = .executeImmediately ∧ n.program = .stopped
    else n.device = .storeProgram := by
  obtain ⟨begins, accepted⟩ := begins_iff.mp opens
  obtain ⟨vars, result⟩ := Compiler.exists_compileLine_of_begin begins accepted
  have entered : (m.enter text).1 =
      (m.asked text).receiveAll (Instruction.encode [.beginDownload]) console := by
    have emitted : (m.compiled text).emitted =
        (if m.compiler.compiling then [.abortDownload] else []) ++ [.beginDownload] :=
      congrArg Compilation.emitted result
    rw [enter_eq_receiveAll, emitted, Instruction.encode_append, receiveAll_append]
    rfl
  have aligned' : (m.asked text).Aligned := by
    refine (aligned.renewed _ _).encode (fun i member => ?_) console
    split at member
    · rw [List.mem_singleton.mp member]
      trivial
    · cases member
  have renewed : (m.renewed (m.compiled text).compiler (m.compiled text).vars).Safe :=
    { safe with }
  have two' : 2 ≤ (m.asked text).limits.statementLength := by
    rw [asked, (renewed.receiveAll _ console).2]
    exact two
  dsimp only
  rw [entered]
  cases device : (m.asked text).device with
  | storeProgram =>
    rw [receiveAll_beginDownload_of_storing device (aligned'.place device)]
    simp [refuses, device]
  | executeImmediately =>
    obtain ⟨stopped, stores⟩ :=
      receiveAll_beginDownload_of_idle (aligned'.toIdle device) two' console
    rw [stores]
    cases fails : (m.asked text).store.medium.fails <;> simp [refuses, device, fails, stopped]

end Machine

/-- What can happen to a machine that is given whole lines of script and no single bytes. -/
def Event.IsTyped : Event → Prop
  | .byte _ _ => False
  | _ => True

/-- A machine, and whether its store has refused the download of the last program that was begun. -/
structure Watched where
  machine : Machine
  refused : Bool := false
deriving DecidableEq, Repr

namespace Watched

/-- The machine after an event, and the note on the last program that was begun. -/
def meet (w : Watched) (e : Event) : Watched where
  machine := w.machine.meet e
  refused :=
    match e with
    | .line text => if w.machine.begins text then w.machine.refuses text else w.refused
    | _ => w.refused

/-- Event after event. -/
def meetAll (w : Watched) (events : List Event) : Watched := events.foldl meet w

/-- Between two lines, a program that is being entered is stored, unless its download was refused:
in that case its lines are executed, and no program runs. -/
structure Consistent (limits : Limits) (w : Watched) : Prop where
  safe : w.machine.Safe
  limits : w.machine.limits = limits
  aligned : w.machine.Aligned
  modes : w.machine.compiler.compiling = true →
    if w.refused then w.machine.device = .executeImmediately ∧ w.machine.program = .stopped
    else w.machine.device = .storeProgram

variable {limits : Limits} {w : Watched} {e : Event}

/-- While a program is being entered, none runs. -/
theorem Consistent.stopped (consistent : w.Consistent limits)
    (compiling : w.machine.compiler.compiling = true) : w.machine.program = .stopped := by
  have modes := consistent.modes compiling
  split at modes
  · exact modes.2
  · exact consistent.safe.stopped modes

/-- A line of script. -/
theorem Consistent.line (consistent : w.Consistent limits) (two : 2 ≤ limits.statementLength)
    (text : String) : (w.meet (.line text)).Consistent limits := by
  obtain ⟨safe, same, aligned, modes⟩ := consistent
  let m := w.machine
  let next := m.renewed (m.compiled text).compiler (m.compiled text).vars
  have met : w.meet (.line text) =
      { machine := next.receiveAll (Instruction.encode (m.compiled text).emitted) console
        refused := if m.begins text then m.refuses text else w.refused } := rfl
  have renewed : next.Safe := { safe with }
  have aligned' : next.Aligned := aligned.renewed _ _
  have orderly := Compiler.orderly_emitted m.compiler m.vars m.readings text
  obtain ⟨safe', same'⟩ := renewed.receiveAll (Instruction.encode (m.compiled text).emitted) console
  rw [met]
  refine ⟨safe', same'.trans same, aligned'.encode orderly.proper console, fun goesOn => ?_⟩
  cases opens : m.begins text with
  | true => exact Machine.device_of_begins aligned safe (same.symm ▸ two) opens
  | false =>
    have compiler : (m.compiled text).compiler.compiling = true :=
      (congrArg Compiler.compiling (Machine.compiler_receiveAll next _ console)).symm.trans goesOn
    obtain ⟨inProgram, kept⟩ :=
      Compiler.kept_of_compiling (Machine.begins_eq_false_iff.mp opens) compiler
    -- The line stands in a program that was begun before it, so the note stands too.
    have before := modes inProgram
    rw [if_neg Bool.false_ne_true]
    cases refused : w.refused with
    | true =>
      obtain ⟨executes, stopped⟩ := (if_pos refused).mp before
      obtain ⟨device, stays⟩ := (aligned'.toIdle executes).encode kept console
      exact ⟨device, stays stopped⟩
    | false =>
      have device : next.device = .storeProgram :=
        (if_neg (Bool.eq_false_iff.mp refused)).mp before
      obtain ⟨filter, store, outbox, received, -⟩ :=
        Machine.exists_receiveAll_encode device (aligned'.place device) kept console
      exact (congrArg Machine.device received).trans device

/-- Whatever happens while lines are typed in. -/
theorem Consistent.meet (consistent : w.Consistent limits) (two : 2 ≤ limits.statementLength)
    (typed : e.IsTyped) : (w.meet e).Consistent limits := by
  have safe := (consistent.safe.meet e).1
  have ⟨_, same, aligned, modes⟩ := consistent
  cases e with
  | line text => exact consistent.line two text
  | byte b dest => exact typed.elim
  | tick =>
    refine ⟨safe, (Machine.Turned.tick w.machine).limits.trans same,
      (Machine.Turned.tick w.machine).aligned aligned, fun compiling => ?_⟩
    have compiling' : w.machine.compiler.compiling = true :=
      (congrArg Compiler.compiling (Machine.compiler_tick w.machine)).symm.trans compiling
    -- While a program is being entered, none runs.
    have still : w.machine.tick = w.machine :=
      Machine.tick_of_not_isRunning (by simp [Machine.isRunning, consistent.stopped compiling'])
    have noted : w.meet .tick = w := congrArg (fun machine => { w with machine }) still
    rw [noted]
    exact modes compiling'
  | interrupt =>
    obtain ⟨outbox, stopped⟩ :=
      Machine.exists_enterState_eq w.machine .stopped w.machine.owner
    have interrupted : w.machine.interrupt = { w.machine with program := .stopped, outbox } :=
      stopped
    simp only [Watched.meet, Machine.meet, interrupted] at safe ⊢
    refine ⟨safe, same, ⟨aligned.idle, aligned.place⟩, fun compiling => ?_⟩
    have before := modes compiling
    split at before <;> simp_all
  | diagnostics level => exact ⟨safe, same, ⟨aligned.idle, aligned.place⟩, modes⟩
  | clock time => exact ⟨safe, same, ⟨aligned.idle, aligned.place⟩, modes⟩
  | readings readings => exact ⟨safe, same, ⟨aligned.idle, aligned.place⟩, modes⟩

/-- Event after event. The induction is on them. -/
theorem Consistent.meetAll {events : List Event} (consistent : w.Consistent limits)
    (two : 2 ≤ limits.statementLength) (typed : ∀ e ∈ events, e.IsTyped) :
    (w.meetAll events).Consistent limits ∧
      (w.meetAll events).machine = w.machine.meetAll events := by
  induction events generalizing w with
  | nil => exact ⟨consistent, rfl⟩
  | cons e events ih =>
    exact ih (consistent.meet two (typed e List.mem_cons_self)) fun e' member =>
      typed e' (List.mem_cons_of_mem e member)

/-- Whatever happens to a machine while lines are typed in, and whatever saves fail: while a program
is being entered, the device stores and takes each statement of a line for the program, unless the
download was refused. In that case it executes the statements as they come in, but runs no
program. -/
theorem stores_unless_refused (limits : Limits) (region : Bytes) (medium : Medium) (coin : Coin)
    (events : List Event) (two : 2 ≤ limits.statementLength) (typed : ∀ e ∈ events, e.IsTyped) :
    let start : Watched := { machine := .fresh limits (.ofRegion region medium) coin }
    let w := start.meetAll events
    let m := w.machine
    m = start.machine.meetAll events ∧ (m.compiler.compiling = true →
      if w.refused then
        m.device = .executeImmediately ∧ m.program = .stopped ∧
          ∀ statement dest, statement ≠ [] → (∀ b ∈ statement, Byte.isControl b = false) →
            statement.length ≤ limits.statementLength →
              m.receiveAll (statement ++ [Byte.statementEnd]) dest = m.execute statement .live dest
      else
        m.device = .storeProgram ∧ m.program = .stopped ∧
          ∀ text, m.begins text = false → ∃ code last filter store outbox,
            (m.compiled text).emitted = code ++ last ∧
              (last = [] ∨ last = [.endDownload] ∨ last = [.abortDownload]) ∧
              let next := m.renewed (m.compiled text).compiler (m.compiled text).vars
              next.receiveAll (Instruction.encode code) console =
                { next with filter, store, outbox }) := by
  intro start w m
  have fresh : start.Consistent limits :=
    ⟨.opened limits region medium coin, rfl, ⟨fun _ => ⟨rfl, rfl⟩, nofun⟩, nofun⟩
  obtain ⟨consistent, same⟩ := fresh.meetAll two typed
  refine ⟨same, fun compiling => ?_⟩
  have stopped := consistent.stopped compiling
  have modes := consistent.modes compiling
  cases refused : w.refused with
  | true =>
    obtain ⟨executes, -⟩ := (if_pos refused).mp modes
    refine ⟨executes, stopped, fun statement dest nonempty plain fits => ?_⟩
    have idle : m.Idle := consistent.aligned.toIdle executes
    exact Machine.receiveAll_statement idle plain nonempty (consistent.limits ▸ fits) dest
  | false =>
    have device : m.device = .storeProgram := (if_neg (Bool.eq_false_iff.mp refused)).mp modes
    refine ⟨device, stopped, fun text goesOn => ?_⟩
    obtain ⟨code, last, emitted, ends, kept⟩ :=
      Compiler.exists_kept_append compiling (Machine.begins_eq_false_iff.mp goesOn)
    obtain ⟨filter, store, outbox, received, -⟩ := Machine.exists_receiveAll_encode
      (m := m.renewed (m.compiled text).compiler (m.compiled text).vars) device
      (consistent.aligned.place device) kept console
    exact ⟨code, last, filter, store, outbox, emitted, ends, received⟩

/-- A program whose download was refused: while its second line is typed in, the machine executes
statements. -/
theorem refused_of_unsaved_begin :
    let stores : Medium := .file { failures := [true] }
    let events : List Event := [.line "begin", .tick, .line "x=1"]
    let w := meetAll
      { machine := .fresh {} (.ofRegion (List.replicate 50 0) stores) (.ofSeed 0) } events
    2 ≤ ({} : Limits).statementLength ∧ (∀ e ∈ events, e.IsTyped) ∧
      w.machine.compiler.compiling = true ∧ w.refused = true ∧
      w.machine.device = .executeImmediately ∧ w.machine.program = .stopped := by
  intro stores events
  have typed : ∀ e ∈ events, e.IsTyped := by simp [events, Event.IsTyped]
  have modes := stores_unless_refused {} (List.replicate 50 0) stores (.ofSeed 0) events (by decide)
    typed
  -- What is left of the run is evaluated for the two facts about it alone.
  dsimp only at modes ⊢
  generalize run : meetAll _ events = w at modes ⊢
  have compiling : w.machine.compiler.compiling = true := by
    rw [← run]
    decide +kernel
  have refused : w.refused = true := by
    rw [← run]
    decide +kernel
  have executes := (if_pos refused).mp (modes.2 compiling)
  exact ⟨by decide, typed, compiling, refused, executes.1, executes.2.1⟩

end Watched

/-- A line of a program whose download was refused: it is executed, and gives the variable a value
that it is to have only when the program runs. -/
theorem Machine.executes_line_of_program :
    let stores : Medium := .file { failures := [true] }
    let m := (ofLimits {} (.ofRegion (List.replicate 50 0) stores) 0).meetAll [.line "begin"]
    let n := m.meet (.line "x=1")
    m.compiler.compiling = true ∧ m.device = .executeImmediately ∧
      m.valueOf (Bytes.ofString "x") = none ∧
      n.compiler.compiling = true ∧ n.valueOf (Bytes.ofString "x") = some 1 := by
  decide +kernel

end ControlScript
