import ControlScript.Proofs.Independence
import ControlScript.Proofs.Jumps
import ControlScript.Proofs.Listing
import ControlScript.Proofs.Loopless
import ControlScript.Proofs.Safety

/-!
# Programs that halt

A program without loops takes a tick for each of its statements at most, and one more at its end. A
jump looks for its label from the start of the program; that it goes on further down all the same is
because the label is declared there, and nowhere else. Whatever faults the statements have, and even
if they are too long to be executed, a tick leaves the place of the machine behind.

## Main definitions

* `Event.letsRun` — what happens while a program is left to itself
* `Machine.Moves` — a statement of a program goes on at the next one, or at a given place
* `Machine.Nears` — a machine runs a program and stands in front of the rest of it

## Main results

* `Machine.moves_execute` — a statement that neither waits nor manages the program
* `Machine.Nears.tick`, `Machine.Nears.halts` — one tick, and what happens until the program stops
* `Compiler.halts_of_accepted` — an accepted program without loops
-/

namespace ControlScript

open Instruction

/-- Whether an event leaves the program to itself: a tick, or a change of what the program reads or
shows. -/
def Event.letsRun : Event → Bool
  | .tick | .clock _ | .readings _ | .diagnostics _ => true
  | .line _ | .byte _ _ | .interrupt => false

/-- Where an instruction goes on if it jumps: a label that is declared further down is found there,
for it is declared nowhere else. -/
theorem Store.exists_place {s : Store} {before rest : List Instruction} {i : Instruction}
    (closed : Closed (before ++ i :: rest)) (program : s.program = encode (before ++ i :: rest))
    (further : ∀ label ∈ i.target?, label ∈ declared rest) : ∃ place : Option Nat,
      (∀ label ∈ i.target?, ∃ offset ∈ place,
        s.findLabel? (labelBytes label) = some offset) ∧
      ∀ offset ∈ place, ∃ skipped later, rest = skipped ++ later ∧
        offset = (encode (before ++ i :: skipped)).length := by
  cases jumps : i.target? with
  | none => exact ⟨none, nofun, nofun⟩
  | some label =>
    obtain ⟨skipped, later, rfl⟩ := exists_split_of_mem_declared (further label jumps)
    have split : before ++ i :: (skipped ++ .declare label :: later) =
        (before ++ i :: skipped) ++ .declare label :: later := by simp
    have found := Store.findLabel?_of_closed closed program split
    refine ⟨some (encode (before ++ i :: skipped)).length, ?_, ?_⟩
    · rintro label ⟨⟩
      exact ⟨_, rfl, found⟩
    · rintro offset ⟨⟩
      exact ⟨skipped, _, rfl, rfl⟩

namespace Machine

variable {m : Machine} {s : Store} {place : Option Nat} {i : Instruction}
  {code rest : List Instruction}

/-- A machine with the given store keeps it, and what the program is at. It stays where it is or
goes to the place. -/
def Moves (s : Store) (place : Option Nat) (m n : Machine) : Prop :=
  m.store = s → n.store = s ∧ n.program = m.program ∧ (n.pc = m.pc ∨ n.pc ∈ place)

theorem allows_moves (s : Store) (place : Option Nat) : Allows (Moves s place) where
  refl _ store := ⟨store, rfl, .inl rfl⟩
  trans first second store := by
    obtain ⟨store', same, there⟩ := first store
    obtain ⟨store'', same', there'⟩ := second store'
    refine ⟨store'', same'.trans same, ?_⟩
    rcases there' with stays | goes
    · rw [stays]
      exact there
    · exact .inr goes
  vars _ _ _ store := ⟨store, rfl, .inl rfl⟩
  outbox _ _ store := ⟨store, rfl, .inl rfl⟩
  diagnostics _ _ store := ⟨store, rfl, .inl rfl⟩

/-- An instruction that neither waits nor manages the program goes on at the next one or where the
label is found that it jumps to, whether it has a fault or not. -/
theorem moves_execute (prompt : i.IsPrompt) (proper : i.Proper)
    (found : ∀ label ∈ i.target?, ∃ offset ∈ place, s.findLabel? (labelBytes label) = some offset)
    (m : Machine) (dest : Destination) : Moves s place m (m.execute i.text .program dest) := by
  have allows := allows_moves s place
  refine allows.execute (fun op named => ?_) m
  have read {other : Opcode} (same : i.opcode? = some other) : op = other :=
    Option.some.inj (named.symm.trans (ofStatement?_of_opcode? same))
  cases i with
  | declare label =>
    obtain rfl := read rfl
    exact allows.pure ()
  | jump label =>
    obtain rfl := read rfl
    obtain ⟨offset, goes, found⟩ := found label rfl
    intro m store
    rw [text, drop_code _ (by decide), perform_jump dest (store ▸ found)]
    exact ⟨store, rfl, .inr goes⟩
  | jumpUnless holds label =>
    obtain rfl := read rfl
    obtain ⟨offset, goes, found⟩ := found label rfl
    intro m store
    have outcome := perform_jumpIfFalse dest proper (m := m) (store ▸ found)
    rw [text, List.append_assoc, drop_code _ (by decide)]
    -- A condition that cannot be evaluated is a fault, and execution falls through.
    cases held : holds.holds m.scope with
    | error f =>
      rw [held] at outcome
      rw [show perform .jumpIfFalse _ .program dest m = .error f m from outcome]
      exact ⟨store, rfl, .inl rfl⟩
    | ok passes =>
      rw [held] at outcome
      rw [show perform .jumpIfFalse _ .program dest m = .ok () _ from outcome]
      refine ⟨store, rfl, ?_⟩
      cases passes
      · exact .inr goes
      · exact .inl rfl
  | setVariable | clearVariables | writeText | writeValue | writeLine =>
    obtain rfl := read rfl
    exact within_perform_of_plain allows (by decide) (by decide) _ _ _
  | delay | beginDownload | endDownload | abortDownload | start | halt | raw => exact prompt.elim

/-- A machine runs a program and stands in front of the rest of it, which runs down. -/
structure Nears (code : List Instruction) (m : Machine) (rest : List Instruction) : Prop where
  active : m.program = .active
  place : ∃ before, code = before ++ rest ∧ m.At before rest
  down : RunsDown rest

namespace Nears

theorem congr {n : Machine} (nears : m.Nears code rest) (program : n.program = m.program)
    (store : n.store = m.store) (pc : n.pc = m.pc) : n.Nears code rest := by
  obtain ⟨before, split, standing⟩ := nears.place
  refine ⟨program.trans nears.active, ⟨before, split, ?_, ?_⟩, nears.down⟩
  · rw [store, standing.stored]
  · rw [pc, standing.pc]

/-- A tick at a statement comes to stand in front of what is after it, or of an end of that. -/
theorem tick (closed : Closed code) (nears : m.Nears code (i :: rest)) :
    m.pc < m.tick.pc ∧ ∃ later, later <:+ rest ∧ m.tick.Nears code later := by
  obtain ⟨active, ⟨before, rfl, standing⟩, prompt, further, down⟩ := nears
  have proper := (closed.fit i (List.mem_append_right _ List.mem_cons_self)).proper
  have program : m.store.program = encode (before ++ i :: rest) := standing.stored
  obtain ⟨place, found, reached⟩ := Store.exists_place closed program further
  let next := m.goneTo (encode (before ++ [i])).length
  have moves : Moves m.store place next m.tick := by
    rw [tick_of_at_cons (.inl active) standing proper]
    split
    · exact (allows_moves m.store place).diagnose next 1 m.owner _
    · exact moves_execute prompt proper found next m.owner
  obtain ⟨store, same, there⟩ := moves rfl
  -- Wherever the statement goes on, it is behind what the machine stood in front of.
  obtain ⟨skipped, later, rfl, pc⟩ : ∃ skipped later, rest = skipped ++ later ∧
      m.tick.pc = (encode (before ++ i :: skipped)).length := by
    rcases there with stays | goes
    · exact ⟨[], rest, rfl, stays⟩
    · exact reached _ goes
  refine ⟨?_, later, List.suffix_append _ _, same, ⟨before ++ i :: skipped, by simp, ?_, pc⟩,
    down.of_append⟩
  · rw [pc, standing.pc, encode_append, List.length_append, length_encode_cons]
    omega
  · rw [store, program]
    simp

/-- Nothing but a tick moves a program that is left to itself. -/
theorem meet (nears : m.Nears code rest) {e : Event} (own : e.letsRun = true) (noTick : e ≠ .tick) :
    (m.meet e).Nears code rest := by
  cases e with
  | tick => exact absurd rfl noTick
  | clock | readings | diagnostics => exact nears.congr rfl rfl rfl
  | line | byte | interrupt => cases own

/-- A tick at the end of the program stops it. -/
theorem tick_nil (nears : m.Nears code []) : m.tick.program = .stopped := by
  obtain ⟨before, -, standing⟩ := nears.place
  obtain ⟨outbox, ended⟩ := exists_enterState_eq { m with program := .active } .stopped m.owner
  rw [tick_of_at_nil (.inl nears.active) standing, ended]

end Nears

/-- The program has stopped, or it runs; and if the event is a tick, that moves on or stops it. -/
def GoesOn (m : Machine) (e : Event) : Prop :=
  m.program = .stopped ∨
    m.program = .active ∧ (e = .tick → m.pc < m.tick.pc ∨ m.tick.program = .stopped)

/-- A program that has stopped is not started by an event that leaves it to itself. -/
theorem stays_stopped (stopped : m.program = .stopped) {events : List Event}
    (own : ∀ e ∈ events, e.letsRun = true) :
    m.Always GoesOn events ∧ (m.meetAll events).program = .stopped := by
  induction events generalizing m with
  | nil => exact ⟨trivial, stopped⟩
  | cons e events ih =>
    obtain ⟨here, later⟩ := List.forall_mem_cons.mp own
    have still : (m.meet e).program = .stopped := by
      cases e with
      | tick =>
        have idle : m.isRunning = false := by simp [isRunning, stopped]
        rw [meet, tick_of_not_isRunning idle]
        exact stopped
      | clock | readings | diagnostics => exact stopped
      | line | byte | interrupt => cases here
    have after := ih still later
    exact ⟨⟨.inl stopped, after.1⟩, after.2⟩

/-- While a program that runs down is left to itself, every tick moves on until it stops; and it has
stopped when there have been more ticks than statements were left. The induction is on the events,
and what is left gets shorter with each tick. -/
theorem Nears.halts (closed : Closed code) (nears : m.Nears code rest) {events : List Event}
    (own : ∀ e ∈ events, e.letsRun = true) :
    m.Always GoesOn events ∧
      (rest.length < events.count .tick → (m.meetAll events).program = .stopped) := by
  induction events generalizing m rest with
  | nil => exact ⟨trivial, fun ticks => absurd ticks (Nat.not_lt_zero _)⟩
  | cons e events ih =>
    obtain ⟨here, later⟩ := List.forall_mem_cons.mp own
    by_cases tick : e = .tick
    · subst tick
      cases rest with
      | nil =>
        have stopped := nears.tick_nil
        have after := stays_stopped stopped later
        exact ⟨⟨.inr ⟨nears.active, fun _ => .inr stopped⟩, after.1⟩, fun _ => after.2⟩
      | cons i rest =>
        obtain ⟨onward, shorter, suffix, nears'⟩ := nears.tick closed
        have after := ih nears' later
        refine ⟨⟨.inr ⟨nears.active, fun _ => .inl onward⟩, after.1⟩, fun ticks => after.2 ?_⟩
        have := suffix.length_le
        rw [List.count_cons_self, List.length_cons] at ticks
        omega
    · have after := ih (nears.meet here tick) later
      refine ⟨⟨.inr ⟨nears.active, fun same => absurd same tick⟩, after.1⟩, fun ticks => ?_⟩
      rw [List.count_cons_of_ne tick] at ticks
      exact after.2 ticks

end Machine

namespace Compiler

variable {c : Compiler} {vars : Variables} {readings : Readings} {opening closing : String}
  {body : List String}

/-- An accepted program without loops, delays and raw statements halts. A machine that runs the
program from its start, as it is stored, moves strictly forward with each tick until the program
stops. It has stopped when there have been more ticks than the program has statements. -/
theorem halts_of_accepted (opens : Keyword.ofText? opening = some .begin)
    (noBegin : ∀ text ∈ body, Keyword.ofText? text ≠ some .begin)
    (closes : Keyword.ofText? closing = some .finish)
    (accepted : (c.compileAll vars readings (opening :: (body ++ [closing]))).faults = [])
    (prompt : ∀ text ∈ body, Line.IsPrompt text) {m : Machine}
    (program : m.store.program =
      stored (c.compileAll vars readings (opening :: (body ++ [closing]))).emitted)
    (active : m.program = .active) (start : m.pc = 0) {events : List Event}
    (own : ∀ e ∈ events, e.letsRun = true) :
    m.Always Machine.GoesOn events ∧
      ((m.store.listing m.limits.statementLength).length < events.count .tick →
        (m.meetAll events).program = .stopped) := by
  have frames := frames_of_accepted opens noBegin closes accepted
  obtain ⟨script, _, lines, read, inside, formed⟩ := exists_spells_of_accepted frames accepted
  obtain ⟨-, emitted, -⟩ := compileAll_of_forms inside read formed
  have said := exists_text_of_inside frames inside read
  have closed : Closed (script.code 0 0) := by
    refine formed.closed_code said ?_
    intro text inBody statement isRaw
    cases (prompt text inBody).1.symm.trans isRaw
  have loopless : script.IsLoopless := by
    refine formed.isLoopless rfl fun l member => ?_
    obtain ⟨text, inBody, _, _, _, read⟩ := said l member
    exact (prompt text inBody).sentence read
  -- What is stored is the code for the script, and the machine stands in front of all of it.
  have program : m.store.program = encode (script.code 0 0) := by
    rw [program, emitted]
    exact stored_framed _ fun i member => (closed.fit i member).toKept
  have nears : m.Nears (script.code 0 0) (script.code 0 0) :=
    ⟨active, ⟨[], rfl, program, start⟩, Script.runsDown_code loopless 0 0⟩
  rw [Store.length_listing program fun i member => (closed.fit i member).proper]
  exact nears.halts closed own

/-- A program with a conditional in a conditional, a division by zero and a condition on a variable
without a value, after it has been entered. -/
theorem halts_of_faulty_branches :
    let body := ["x = 1", "if x > 2", "  println 1", "else", "  if x > 0", "    y = x / 0",
      "if y > 0", "  println y"]
    let text := "begin" :: (body ++ ["end"])
    let m := (Machine.ofLimits {} (.ofBytes 200 []) 0).meetAll (text.map .line)
    let statements := (m.store.listing m.limits.statementLength).length
    m.store.program = stored ((ofLimits {}).compileAll (.ofLimits {}) {} text).emitted ∧
      m.program = .active ∧ m.pc = 0 ∧
      (m.meetAll (List.replicate (statements + 1) .tick)).program = .stopped := by
  intro body text m statements
  have accepted : ((ofLimits {}).compileAll (.ofLimits {}) {}
      ("begin" :: (body ++ ["end"]))).faults = [] := by decide +kernel
  have program : m.store.program =
      stored ((ofLimits {}).compileAll (.ofLimits {}) {} text).emitted := by decide +kernel
  have started : m.program = .active ∧ m.pc = 0 := by decide +kernel
  have own : ∀ e ∈ List.replicate (statements + 1) Event.tick, e.letsRun = true := by
    intro e member
    rw [List.eq_of_mem_replicate member]
    rfl
  have halts := halts_of_accepted (by decide) (by decide) (by decide) accepted (by decide +kernel)
    program started.1 started.2 own
  refine ⟨program, started.1, started.2, halts.2 ?_⟩
  rw [List.count_replicate_self]
  exact Nat.lt_succ_self _

end Compiler

end ControlScript
