import ControlScript.Machine.Step
import ControlScript.Proofs.Stored

/-!
# Ticks

A tick of a machine whose program is due takes up the statement at its place, and reports the
fault of that statement if it has one. In a program that consists of the statements of given
instructions, the place of a machine is in front of one of them or at the end.

## Main definitions

* `Machine.IsDue` — the next tick takes up a statement
* `Machine.taken`, `Machine.tickFault?` — what comes of a statement, and the fault that a tick
  reports
* `Machine.At` — the place of a machine in a program

## Main results

* `Machine.tick_eq_report` — what a tick reports
* `Machine.tick_of_at_cons`, `Machine.tick_of_at_nil` — a tick at a statement, and at the end
-/

namespace ControlScript.Machine

open Instruction

variable {m : Machine} {before after : List Instruction} {i : Instruction}

/-- The program runs, and it does not wait for a deadline. -/
def IsDue (m : Machine) : Prop :=
  m.program = .active ∨ m.program = .awaitingDelay ∧ m.deadline ≤ m.now

instance (m : Machine) : Decidable m.IsDue := inferInstanceAs (Decidable (_ ∨ _ ∧ _))

theorem tick_of_isDue (due : m.IsDue) : m.tick = { m with program := .active }.executeNext := by
  rcases due with active | ⟨awaiting, passed⟩
  · rw [tick, active]
    exact congrArg executeNext (by rw [← active])
  · rw [tick, awaiting]
    exact if_neg (Nat.not_lt.mpr passed)

theorem tick_of_not_isDue (idle : ¬m.IsDue) : m.tick = m := by
  unfold tick
  cases state : m.program with
  | stopped | paused => rfl
  | active => exact absurd (.inl state) idle
  | awaitingDelay => exact if_pos (Nat.lt_of_not_le fun passed => idle (.inr ⟨state, passed⟩))

/-- What a statement does, and the fault that it stops with. -/
def attempt (m : Machine) (statement : Bytes) (origin : Origin) (dest : Destination) :
    EStateM.Result Fault Machine Unit :=
  let m := m.diagnose 3 dest (Utf8.decode statement)
  match Opcode.ofStatement? statement with
  | none => .ok () m
  | some op => perform op (statement.drop 2) origin dest m

/-- Executing a statement reports its fault, and nothing else beyond what the statement does. -/
theorem execute_eq (m : Machine) (statement : Bytes) (origin : Origin) (dest : Destination) :
    m.execute statement origin dest =
      ((Attempt.fault? (m.attempt statement origin dest)).map
        (·.inSource (Utf8.decode statement))).elim
          (Attempt.reached (m.attempt statement origin dest))
          ((Attempt.reached (m.attempt statement origin dest)).report dest) := by
  unfold execute attempt
  dsimp only
  cases Opcode.ofStatement? statement with
  | none => rfl
  | some op =>
    dsimp only
    cases perform op (statement.drop 2) origin dest (m.diagnose 3 dest (Utf8.decode statement)) <;>
      rfl

/-- The machine that goes on at a place. -/
def goneTo (m : Machine) (pc : Nat) : Machine := { m with program := .active, pc }

/-- What comes of a fetched statement, which is passed over if it is too long. -/
def taken (m : Machine) (fetched : Fetched) : EStateM.Result Fault Machine Unit :=
  if fetched.truncated then .error (.of .statementTooLong) (m.goneTo fetched.next)
  else
    match (m.goneTo fetched.next).attempt fetched.text .program m.owner with
    | .ok _ n => .ok () n
    | .error f n => .error (f.inSource (Utf8.decode fetched.text)) n

/-- The fault that the next tick reports. -/
def tickFault? (m : Machine) : Option Fault :=
  if m.IsDue then
    (m.store.fetch? m.pc m.limits.statementLength).bind fun fetched =>
      Attempt.fault? (m.taken fetched)
  else none

theorem tick_of_fetch? {fetched : Fetched} (due : m.IsDue)
    (found : m.store.fetch? m.pc m.limits.statementLength = some fetched) :
    m.tick =
      if fetched.truncated then (m.goneTo fetched.next).report m.owner (.of .statementTooLong)
      else (m.goneTo fetched.next).execute fetched.text .program m.owner := by
  rw [tick_of_isDue due, executeNext]
  simp only [found]
  rfl

/-- A tick that takes up a statement reports `tickFault?`, and nothing else beyond what the
statement does. -/
theorem tick_eq_report {fetched : Fetched} (due : m.IsDue)
    (found : m.store.fetch? m.pc m.limits.statementLength = some fetched) :
    m.tick = m.tickFault?.elim (Attempt.reached (m.taken fetched))
      ((Attempt.reached (m.taken fetched)).report m.owner) := by
  rw [tick_of_fetch? due found, tickFault?, if_pos due, found, Option.bind_some, taken]
  split
  · rfl
  · rw [execute_eq]
    cases (m.goneTo fetched.next).attempt fetched.text .program m.owner <;> rfl

/-- A tick at a statement moves on past it and executes it, unless it is too long. -/
theorem tick_of_stored {before text after : Bytes} (due : m.IsDue)
    (stored : m.store.program = before ++ (text ++ Byte.statementEnd :: after))
    (place : m.pc = before.length) (plain : ∀ b ∈ text, Byte.isControl b = false) :
    let next := m.goneTo (before.length + text.length + 1)
    m.tick = if m.limits.statementLength < text.length then
      next.report m.owner (.of .statementTooLong) else next.execute text .program m.owner := by
  have found := Store.fetch?_statement m.limits.statementLength stored plain
  rw [← place] at found
  rw [tick_of_fetch? due found, place]
  by_cases long : m.limits.statementLength < text.length
  · simp [long]
  · simp [long, List.take_of_length_le (Nat.le_of_not_lt long)]

/-- The machine stands in its program, with some instructions before its place and some after. -/
structure At (m : Machine) (before after : List Instruction) : Prop where
  stored : m.store.program = encode (before ++ after)
  pc : m.pc = (encode before).length

/-- The program of a machine is what stands before its place, the statement there, and the rest. -/
theorem At.program_eq (standing : m.At before (i :: after)) :
    m.store.program = encode before ++ (i.text ++ Byte.statementEnd :: encode after) := by
  rw [standing.stored, encode_append, encode_cons]

/-- The place behind a statement. -/
theorem length_encode_concat (before : List Instruction) (i : Instruction) :
    (encode (before ++ [i])).length = (encode before).length + i.text.length + 1 := by
  rw [encode_append, List.length_append, length_encode_cons, encode_nil]
  rfl

/-- The statement at the place of a machine. -/
theorem At.fetch? (standing : m.At before (i :: after)) (proper : i.Proper) (limit : Nat) :
    m.store.fetch? m.pc limit = some {
      next := (encode (before ++ [i])).length
      truncated := limit < i.text.length
      text := i.text.take limit } := by
  rw [standing.pc, Store.fetch?_statement limit standing.program_eq proper.plain,
    length_encode_concat]

/-- At the end of a program there is no statement. -/
theorem At.fetch?_of_nil (standing : m.At before []) (limit : Nat) :
    m.store.fetch? m.pc limit = none := by
  have place : m.pc = m.store.program.length := by
    rw [standing.pc, standing.stored, List.append_nil]
  rw [place, Store.fetch?_length]

/-- A tick at a statement of a program of instructions. -/
theorem tick_of_at_cons (due : m.IsDue) (standing : m.At before (i :: after)) (proper : i.Proper) :
    let next := m.goneTo (encode (before ++ [i])).length
    m.tick = if m.limits.statementLength < i.text.length then
      next.report m.owner (.of .statementTooLong) else next.execute i.text .program m.owner := by
  rw [length_encode_concat]
  exact tick_of_stored due standing.program_eq standing.pc proper.plain

/-- A tick at the end of the program stops it. -/
theorem tick_of_at_nil (due : m.IsDue) (standing : m.At before []) :
    m.tick = { m with program := .active }.enterState .stopped m.owner := by
  have ended := standing.fetch?_of_nil m.limits.statementLength
  rw [tick_of_isDue due, executeNext]
  simp only [ended]

end ControlScript.Machine
