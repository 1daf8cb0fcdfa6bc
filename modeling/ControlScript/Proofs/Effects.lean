import ControlScript.Proofs.Changes
import ControlScript.Proofs.Downloads
import ControlScript.Proofs.Starts

/-!
# What statements change

Most statements change the variables, the output or the level of diagnostics, and nothing else.
The others steer the program, and all of these but three leave the store alone. Whatever a statement
does with the program counter, it is left where a statement starts.

## Main definitions

* `Machine.Steered` — the store and the line that comes in are left alone
* `Machine.Executed` — what a statement may do to a machine

## Main results

* `Machine.within_steered_perform`, `Machine.Steered.execute` — statements that leave the store alone
* `Machine.Executed.execute` — any statement
-/

namespace ControlScript

open Attempt

/-- A store that was cleared holds no program that may be started, even if saving failed. -/
theorem Store.valid_clear (s : Store) : (reached (Store.clear s)).valid = false := by
  rw [Store.reached_clear]

namespace Machine

open Command

/-- The store and the line that comes in are left alone, and the program counter is left where a
statement starts. Only a statement of a program may make it run. -/
structure Steered (origin : Origin) (m n : Machine) : Prop where
  limits : n.limits = m.limits
  line : n.line = m.line
  discarding : n.discarding = m.discarding
  device : n.device = m.device
  filter : n.filter = m.filter
  store : n.store = m.store
  pc : n.pc = m.pc ∨ m.store.IsStart n.pc
  program : origin = .live → m.program = .stopped → n.program = .stopped

/-- Most statements do not touch the program at all. -/
theorem allows_steered (origin : Origin) : Allows (Steered origin) where
  refl _ := ⟨rfl, rfl, rfl, rfl, rfl, rfl, .inl rfl, fun _ stopped => stopped⟩
  trans first second := {
    limits := second.limits.trans first.limits
    line := second.line.trans first.line
    discarding := second.discarding.trans first.discarding
    device := second.device.trans first.device
    filter := second.filter.trans first.filter
    store := second.store.trans first.store
    pc := by
      rcases second.pc with same | start
      · rw [same]
        exact first.pc
      · exact .inr (first.store ▸ start)
    program := fun live stopped => second.program live (first.program live stopped) }
  vars _ _ _ := ⟨rfl, rfl, rfl, rfl, rfl, rfl, .inl rfl, fun _ stopped => stopped⟩
  outbox _ _ := ⟨rfl, rfl, rfl, rfl, rfl, rfl, .inl rfl, fun _ stopped => stopped⟩
  diagnostics _ _ := ⟨rfl, rfl, rfl, rfl, rfl, rfl, .inl rfl, fun _ stopped => stopped⟩

namespace Steered

variable {origin : Origin} {m : Machine}

/-- A jump goes to where a label is declared. -/
theorem jump (label : Bytes) : (Machine.jump label).Within (Steered origin) := by
  intro m
  unfold Machine.jump
  rw [bind_apply, get_apply]
  cases found : m.store.findLabel? label with
  | none =>
    simp only [found, fail_apply, reached_error]
    exact (allows_steered origin).refl m
  | some offset =>
    simp only [found, set_apply, reached_ok]
    exact ⟨rfl, rfl, rfl, rfl, rfl, rfl, .inr (Store.isStart_of_findLabel? found),
      fun _ stopped => stopped⟩

theorem delay (args : Bytes) : (Machine.delay args).Within (Steered .program) := by
  have allows := allows_steered .program
  refine (allows.expression args).bind allows.trans fun tenths => within_modify fun m => ?_
  exact ⟨rfl, rfl, rfl, rfl, rfl, rfl, .inl rfl, nofun⟩

/-- A change of what the program is at. It may not be made to run by what comes in. -/
theorem enterState {state : ProgramState}
    (program : origin = .live → m.program = .stopped → state = .stopped) (dest : Destination) :
    Steered origin m (m.enterState state dest) := by
  unfold Machine.enterState
  split
  · exact (allows_steered origin).refl m
  · have entered : Steered origin m { m with program := state } :=
      ⟨rfl, rfl, rfl, rfl, rfl, rfl, .inl rfl, program⟩
    exact (allows_steered origin).trans entered ((allows_steered origin).diagnose _ 2 dest _)

theorem pause (m : Machine) (dest : Destination) : Steered origin m (m.pause dest) := by
  unfold Machine.pause
  split
  · next running =>
    refine enterState (fun _ stopped => ?_) dest
    simp [isRunning, stopped] at running
  · exact (allows_steered origin).refl m

theorem resume (m : Machine) (dest : Destination) : Steered origin m (m.resume dest) := by
  unfold Machine.resume
  split
  · next paused =>
    refine enterState (fun _ stopped => ?_) dest
    cases stopped.symm.trans paused
  · exact (allows_steered origin).refl m

end Steered

/-- Every statement but the three that begin or remove a program leaves the store alone. -/
theorem within_steered_perform {op : Opcode} {origin : Origin} (noBegin : op ≠ .beginDownload)
    (noStart : op ≠ .start) (noClear : op ≠ .clearProgram) (args : Bytes) (dest : Destination) :
    (perform op args origin dest).Within (Steered origin) := by
  have allows := allows_steered origin
  by_cases noControl : op.category ≠ .control
  · by_cases noRemote : op.category ≠ .remote
    · exact within_perform_of_plain allows noControl noRemote args origin dest
    · unfold perform
      rw [if_neg fun both => noControl both.1]
      cases op
      case halt => exact within_modify fun m => .enterState (fun _ _ => rfl) dest
      case pause => exact within_modify fun m => .pause m dest
      case resume => exact within_modify fun m => .resume m dest
      case endDownload | abortDownload => exact allows.pure _
      all_goals contradiction
  · have tossed (m : Machine) : Steered origin m { m with coin := m.coin.toss } :=
      ⟨rfl, rfl, rfl, rfl, rfl, rfl, .inl rfl, fun _ stopped => stopped⟩
    refine within_perform_of_control allows Steered.jump tossed (fun _ inProgram => ?_)
      (not_not.mp noControl) dest
    subst inProgram
    exact Steered.delay args

/-- Executing a statement is performing its opcode, but for output. -/
theorem exists_execute_eq {statement : Bytes} {op : Opcode}
    (named : Opcode.ofStatement? statement = some op) (m : Machine) (origin : Origin)
    (dest : Destination) : ∃ before after, m.execute statement origin dest =
      { reached (perform op (statement.drop 2) origin dest { m with outbox := before }) with
        outbox := after } := by
  obtain ⟨before, traced⟩ := exists_diagnose_eq m 3 dest (Utf8.decode statement)
  unfold Machine.execute
  rw [traced, named]
  dsimp only
  cases done : perform op (statement.drop 2) origin dest { m with outbox := before } with
  | ok _ n => exact ⟨before, n.outbox, by rw [done]; rfl⟩
  | error f n =>
    obtain ⟨after, reported⟩ :=
      exists_diagnose_eq n 1 dest (f.inSource (Utf8.decode statement)).render
    exact ⟨before, after, by rw [done]; exact reported⟩

/-- A statement that does not start with `R` is none of those that begin or remove a program. -/
theorem Steered.execute {statement : Bytes} (nonempty : statement ≠ [])
    (own : statement.head?.any (Byte.spells 'R') = false) (origin : Origin) (dest : Destination)
    (m : Machine) : Steered origin m (m.execute statement origin dest) := by
  refine (allows_steered origin).execute (fun op named => ?_) m
  have named' : Opcode.ofStatement? (statement ++ []) = some op := by rwa [List.append_nil]
  have capital := Instruction.head?_code_ne nonempty own named'
  have apart {other : Opcode} (remote : other.category = .remote) : op ≠ other := by
    rintro rfl
    exact capital (Instruction.head?_code_of_remote remote)
  exact within_steered_perform (apart rfl) (apart rfl) (apart rfl) _ dest

/-- The program is stopped and can no longer be started. The line that comes in is left alone. -/
structure Removed (m n : Machine) : Prop where
  limits : n.limits = m.limits
  line : n.line = m.line
  stopped : n.program = .stopped
  invalid : n.store.valid = false

/-- What a statement may do to a machine. -/
inductive Executed (origin : Origin) (m n : Machine) : Prop
  | steered (steered : Steered origin m n)
  /-- The program is at a start, and it is one that may be started. -/
  | started (valid : m.store.valid = true) (start : m.store.IsStart n.pc)
      (steered : Steered .program m n)
  | removed (removed : Removed m n)

namespace Executed

variable {origin : Origin} {k m n : Machine}

/-- Output in front of a statement makes no difference. -/
theorem after (quiet : ∀ origin, Steered origin k m) (executed : Executed origin m n) :
    Executed origin k n := by
  cases executed with
  | steered steered => exact .steered ((allows_steered origin).trans (quiet origin) steered)
  | started valid start steered =>
    have same := (quiet .live).store
    exact .started (same ▸ valid) (same ▸ start)
      ((allows_steered .program).trans (quiet .program) steered)
  | removed removed =>
    have same := quiet .live
    exact .removed ⟨removed.limits.trans same.limits, removed.line.trans same.line, removed.stopped,
      removed.invalid⟩

/-- Output behind a statement makes no difference. -/
theorem before (executed : Executed origin k m) (quiet : ∀ origin, Steered origin m n) :
    Executed origin k n := by
  have same := quiet .live
  cases executed with
  | steered steered => exact .steered ((allows_steered origin).trans steered (quiet origin))
  | started valid start steered =>
    refine .started valid ?_ ((allows_steered .program).trans steered (quiet .program))
    rcases same.pc with stays | start'
    · rwa [stays]
    · exact steered.store ▸ start'
  | removed removed =>
    exact .removed ⟨same.limits.trans removed.limits, same.line.trans removed.line,
      same.program rfl removed.stopped, (congrArg Store.valid same.store).trans removed.invalid⟩

theorem beginDownload (origin : Origin) (dest : Destination) :
    (Machine.beginDownload dest).Within (Executed origin) := by
  intro m
  obtain ⟨outbox, stopped⟩ := exists_enterState_eq m .stopped dest
  have invalid := Store.valid_clear m.store
  simp only [Machine.beginDownload, bind_apply, modify_apply, stopped, onStore, Attempt.on,
    Store.beginDownload]
  cases cleared : Store.clear m.store with
  | ok _ store =>
    rw [cleared] at invalid
    refine .before (.removed ?_) fun origin => (allows_steered origin).diagnose _ 2 dest _
    exact ⟨rfl, rfl, rfl, invalid⟩
  | error f store =>
    rw [cleared] at invalid
    exact .removed ⟨rfl, rfl, rfl, invalid⟩

theorem clearProgram (origin : Origin) (dest : Destination) :
    (Machine.clearProgram dest).Within (Executed origin) := by
  intro m
  obtain ⟨outbox, stopped⟩ := exists_enterState_eq m .stopped dest
  have invalid := Store.valid_clear m.store
  simp only [Machine.clearProgram, bind_apply, modify_apply, stopped, onStore, Attempt.on]
  cases cleared : Store.clear m.store <;>
    exact .removed ⟨rfl, rfl, rfl, by rwa [cleared] at invalid⟩

theorem startProgram (origin : Origin) (dest : Destination) :
    (Machine.startProgram dest).Within (Executed origin) := by
  intro m
  simp only [Machine.startProgram, bind_apply, get_apply]
  by_cases missing : (!m.store.valid || m.store.isEmpty) = true
  · rw [if_pos missing]
    exact .steered ((allows_steered origin).refl m)
  · rw [if_neg missing, set_apply, reached_ok]
    have valid : m.store.valid = true := by
      cases valid : m.store.valid
      · simp [valid] at missing
      · rfl
    obtain ⟨outbox, started⟩ :=
      exists_enterState_eq { m with pc := 0, owner := dest } .active dest
    rw [start, started]
    exact .started valid .base
      ⟨rfl, rfl, rfl, rfl, rfl, rfl, .inr .base, fun live => by cases live⟩

theorem perform (op : Opcode) (args : Bytes) (origin : Origin) (dest : Destination) :
    (Machine.perform op args origin dest).Within (Executed origin) := by
  by_cases begins : op = .beginDownload
  · subst begins
    exact beginDownload origin dest
  by_cases starts : op = .start
  · subst starts
    exact startProgram origin dest
  by_cases clears : op = .clearProgram
  · subst clears
    exact clearProgram origin dest
  · exact fun m => .steered (within_steered_perform begins starts clears args dest m)

/-- What a statement does to a machine. -/
theorem execute (m : Machine) (statement : Bytes) (origin : Origin) (dest : Destination) :
    Executed origin m (m.execute statement origin dest) := by
  have shown (m : Machine) (level : Nat) (text : String) (origin : Origin) :
      Steered origin m (m.diagnose level dest text) := (allows_steered origin).diagnose m level dest text
  refine .after (shown m 3 (Utf8.decode statement)) ?_
  unfold Machine.execute
  dsimp only
  cases Opcode.ofStatement? statement with
  | none => exact .steered ((allows_steered origin).refl _)
  | some op =>
    have performed := perform op (statement.drop 2) origin dest
      (m.diagnose 3 dest (Utf8.decode statement))
    dsimp only
    cases done : Machine.perform op (statement.drop 2) origin dest
        (m.diagnose 3 dest (Utf8.decode statement)) with
    | ok _ n =>
      rw [done] at performed
      exact performed
    | error f n =>
      rw [done] at performed
      exact .before performed (shown n 1 _)

end Executed

end Machine

end ControlScript
