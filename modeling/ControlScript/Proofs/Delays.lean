import ControlScript.Proofs.Pauses
import ControlScript.Proofs.Ticks
import Mathlib.Algebra.Group.Int.Defs

/-!
# Delays

A delay of the program sets a deadline, and until then no tick takes up a statement. In between the
program may be paused and resumed, it may be stopped, statements may come in from anywhere; as long
as the program is not stopped, its place stays behind the delay, and it becomes active only when the
deadline has passed. So the first tick from then on takes up the statement behind the delay.

There is one way around this: a program that is started anew does not wait.

## Main definitions

* `Machine.Delayed` — the program is at a place where it waits for a deadline
* `Machine.starts`, `Machine.NeverStarts` — events that start the program
* `Machine.TicksBefore` — the ticks of a run come before a time

## Main results

* `Machine.Delayed.meet`, `Machine.Delayed.meetAll` — one event, and a run
* `Machine.delayed_tick` — a delay
* `Machine.honours_delay` — what may happen after a delay
-/

namespace ControlScript

open Attempt Command

namespace Machine

variable {m n : Machine} {deadline place : Nat} {b : UInt8} {dest : Destination} {e : Event}
  {events : List Event}

/-- The program is stopped, or it is at a place where it waits for a deadline, if perhaps paused. It
is active only once the deadline has passed. -/
def Delayed (m : Machine) (deadline place : Nat) : Prop :=
  m.program ≠ .stopped →
    m.deadline = deadline ∧ m.pc = place ∧ (m.program = .active → deadline ≤ m.now)

/-- A program that is stopped does not wait. -/
theorem delayed_of_stopped (stopped : m.program = .stopped) : m.Delayed deadline place :=
  fun running => absurd stopped running

/-- Before its deadline a delayed program is not due. -/
theorem Delayed.not_isDue (delayed : m.Delayed deadline place) (ahead : m.now < deadline) :
    ¬m.IsDue := by
  rintro (active | ⟨awaiting, passed⟩)
  · exact absurd ((delayed (by simp [active])).2.2 active) (Nat.not_le.mpr ahead)
  · exact absurd ((delayed (by simp [awaiting])).1 ▸ passed) (Nat.not_le.mpr ahead)

/-! ## Statements that come in -/

/-- The clock stands still, and every delay goes on. -/
structure Holds (m n : Machine) : Prop where
  now : n.now = m.now
  delayed : ∀ {deadline place}, m.Delayed deadline place → n.Delayed deadline place

theorem allows_holds : Allows Holds where
  refl _ := ⟨rfl, id⟩
  trans first second :=
    ⟨second.now.trans first.now, fun delayed => second.delayed (first.delayed delayed)⟩
  vars _ _ _ := ⟨rfl, id⟩
  outbox _ _ := ⟨rfl, id⟩
  diagnostics _ _ := ⟨rfl, id⟩

namespace Holds

/-- A program that is stopped no longer waits. -/
theorem stop (m : Machine) (dest : Destination) : Holds m (m.enterState .stopped dest) := by
  obtain ⟨outbox, stopped⟩ := exists_enterState_eq m .stopped dest
  rw [stopped]
  exact ⟨rfl, fun _ => delayed_of_stopped rfl⟩

theorem pause (m : Machine) (dest : Destination) : Holds m (m.pause dest) := by
  unfold Machine.pause
  split
  · next running =>
    obtain ⟨outbox, paused⟩ := exists_enterState_eq m .paused dest
    rw [paused]
    refine ⟨rfl, fun delayed _ => ?_⟩
    -- `Delayed` says nothing of a stopped program, but this one runs.
    have here := delayed fun stopped => by simp [isRunning, stopped] at running
    exact ⟨here.1, here.2.1, by simp⟩
  · exact allows_holds.refl m

/-- A program that is resumed is active only if its deadline has passed. -/
theorem resume (m : Machine) (dest : Destination) : Holds m (m.resume dest) := by
  unfold Machine.resume
  split
  · next paused =>
    obtain ⟨outbox, resumed⟩ :=
      exists_enterState_eq m (if m.now < m.deadline then .awaitingDelay else .active) dest
    rw [resumed]
    refine ⟨rfl, fun delayed _ => ?_⟩
    obtain ⟨same, stays, -⟩ := delayed (by simp [paused])
    refine ⟨same, stays, fun active => ?_⟩
    -- It is the deadline that decides what the program is resumed to.
    split at active
    · cases active
    · next passed => exact same ▸ Nat.not_lt.mp passed
  · exact allows_holds.refl m

/-- What a download is at does not matter. -/
theorem stored (m : Machine) (filter : DownloadFilter) (store : Store) (device : DeviceState) :
    Holds m { m with filter, store, device } := ⟨rfl, id⟩

/-- Nor does the line that comes in. -/
theorem line (m : Machine) (line : Bytes) (discarding : Bool) :
    Holds m { m with line, discarding } := ⟨rfl, id⟩

theorem onStore {α : Type} (x : Attempt Store α) : (Command.onStore x).Within Holds := by
  intro m
  unfold Command.onStore Attempt.on
  cases x m.store <;> exact stored m m.filter _ m.device

theorem beginDownload (dest : Destination) : (Machine.beginDownload dest).Within Holds := by
  refine (within_modify fun m => ?_).bind allows_holds.trans fun _ =>
    (onStore _).bind allows_holds.trans fun _ => within_modify fun m => ?_
  · exact allows_holds.trans (stop m dest) (stored _ .fresh _ _)
  · exact allows_holds.trans (stored m m.filter m.store .storeProgram)
      (allows_holds.diagnose _ 2 dest _)

theorem clearProgram (dest : Destination) : (Machine.clearProgram dest).Within Holds := by
  refine (within_modify fun m => ?_).bind allows_holds.trans fun _ => onStore _
  obtain ⟨outbox, stopped⟩ := exists_enterState_eq m .stopped dest
  rw [stopped]
  exact ⟨rfl, fun _ => delayed_of_stopped rfl⟩

/-- Of the statements that come in, only one that starts the program ends a delay early. -/
theorem perform {op : Opcode} (noStart : op ≠ .start) (args : Bytes) (dest : Destination) :
    (Machine.perform op args .live dest).Within Holds := by
  by_cases control : op.category = .control
  · unfold Machine.perform
    rw [if_pos ⟨control, rfl⟩]
    exact allows_holds.fail _
  by_cases remote : op.category = .remote
  · unfold Machine.perform
    rw [if_neg fun both => control both.1]
    cases op
    case beginDownload => exact beginDownload dest
    case start => exact absurd rfl noStart
    case halt => exact within_modify fun m => stop m dest
    case pause => exact within_modify fun m => pause m dest
    case resume => exact within_modify fun m => resume m dest
    case clearProgram => exact clearProgram dest
    case endDownload | abortDownload => exact allows_holds.pure _
    -- The other opcodes are not remote.
    all_goals cases remote
  · exact within_perform_of_plain allows_holds control remote args .live dest

/-- A program that is not there is not started. -/
theorem startProgram (missing : (!m.store.valid || m.store.isEmpty) = true) (dest : Destination) :
    Holds m (reached (Machine.startProgram dest m)) := by
  rw [Machine.startProgram, bind_apply, get_apply]
  dsimp only
  rw [if_pos missing]
  exact allows_holds.refl m

theorem execute (m : Machine) {statement : Bytes}
    (noStart : Opcode.ofStatement? statement = some .start →
      (!m.store.valid || m.store.isEmpty) = true) (dest : Destination) :
    Holds m (m.execute statement .live dest) := by
  by_cases starts : Opcode.ofStatement? statement = some .start
  · obtain ⟨before, after, executed⟩ := exists_execute_eq starts m .live dest
    have performed := startProgram (m := { m with outbox := before }) (noStart starts) dest
    rw [executed]
    exact ⟨performed.now, performed.delayed⟩
  · refine allows_holds.execute (fun op named => perform ?_ _ dest) m
    rintro rfl
    exact starts named

end Holds

/-! ## Bytes and lines that come in -/

/-- A byte starts the program: it ends a statement that does so, or a download. -/
def startsOn (m : Machine) (b : UInt8) : Bool :=
  match m.device with
  | .executeImmediately =>
    b = Byte.statementEnd && !m.discarding && Opcode.ofStatement? m.line = some .start &&
      (m.store.valid && !m.store.isEmpty)
  | .storeProgram =>
    match DownloadFilter.process b (m.filter, m.store) with
    | .ok .finished _ => true
    | _ => false

/-- Some bytes start the program. -/
def startsAmong (m : Machine) : Bytes → Destination → Bool
  | [], _ => false
  | b :: bytes, dest => m.startsOn b || (m.receive b dest).startsAmong bytes dest

/-- What comes in with an event starts the program. -/
def starts (m : Machine) : Event → Bool
  | .line text =>
    let compiled := m.compiler.compileLine m.vars m.readings text
    (m.renewed compiled.compiler compiled.vars).startsAmong (Instruction.encode compiled.emitted)
      console
  | .byte b _ => m.startsOn b
  | _ => false

namespace Holds

/-- A byte of a download, unless it completes it. -/
theorem download (device : m.device = .storeProgram) (noStart : m.startsOn b = false)
    (dest : Destination) : Holds m (m.download b dest) := by
  unfold startsOn at noStart
  rw [device] at noStart
  unfold Machine.download
  cases processed : DownloadFilter.process b (m.filter, m.store) with
  | ok outcome next =>
    cases outcome with
    | more => exact stored m _ _ m.device
    | finished => simp [processed] at noStart
    | aborted =>
      obtain ⟨filter, store⟩ := next
      have ended := allows_holds.trans (stored m filter store .executeImmediately)
        (line _ m.line true)
      exact allows_holds.trans ended (allows_holds.diagnose _ 2 dest "DOWNLOAD ABORTED")
  | error f next =>
    obtain ⟨filter, store⟩ := next
    have reported := allows_holds.trans (stored m filter (reached (Store.clear store)) m.device)
      (allows_holds.diagnose _ 1 dest f.render)
    dsimp only
    split
    · exact reported
    · exact allows_holds.trans reported (allows_holds.diagnose _ 1 dest _)

/-- A byte of a statement, unless it completes one that starts the program. -/
theorem assemble (device : m.device = .executeImmediately) (noStart : m.startsOn b = false)
    (dest : Destination) : Holds m (m.assemble b dest) := by
  unfold startsOn at noStart
  rw [device] at noStart
  unfold Machine.assemble
  split
  · next ends =>
    dsimp only
    split
    · exact line m [] false
    · next whole =>
      refine allows_holds.trans (line m [] false) (execute _ (fun starts => ?_) dest)
      -- The byte ends a statement to start, and yet starts nothing: there is no program.
      rw [Bool.or_eq_true, not_or] at whole
      cases valid : m.store.valid <;> cases empty : m.store.isEmpty <;>
        simp_all
  · split
    · exact allows_holds.refl m
    · split
      · exact allows_holds.trans (line m [] true) (allows_holds.diagnose _ 1 dest _)
      · exact line m _ m.discarding

theorem receive (noStart : m.startsOn b = false) (dest : Destination) :
    Holds m (m.receive b dest) := by
  unfold Machine.receive
  cases device : m.device with
  | storeProgram => exact download device noStart dest
  | executeImmediately => exact assemble device noStart dest

/-- Bytes that come in. The induction is on the bytes. -/
theorem receiveAll {bytes : Bytes} (noStart : m.startsAmong bytes dest = false) :
    Holds m (m.receiveAll bytes dest) := by
  induction bytes generalizing m with
  | nil => exact allows_holds.refl m
  | cons b bytes ih =>
    rw [startsAmong, Bool.or_eq_false_iff] at noStart
    exact allows_holds.trans (receive noStart.1 dest) (ih noStart.2)

/-- A line of script. -/
theorem enter {text : String} (noStart : m.starts (.line text) = false) :
    Holds m (m.enter text).1 := by
  have compiled : Holds m (m.renewed (m.compiler.compileLine m.vars m.readings text).compiler
      (m.compiler.compileLine m.vars m.readings text).vars) := ⟨rfl, id⟩
  exact allows_holds.trans compiled (receiveAll noStart)

end Holds

/-! ## Runs -/

/-- An event leaves a delayed program delayed, unless it starts the program or is a tick at a time
when the deadline has passed. -/
theorem Delayed.meet (delayed : m.Delayed deadline place) (forward : m.Forward e)
    (noStart : m.starts e = false) (early : e = .tick → m.now < deadline) :
    (m.meet e).Delayed deadline place := by
  cases e with
  | line text => exact (Holds.enter noStart).delayed delayed
  | byte b dest => exact (Holds.receive noStart dest).delayed delayed
  | tick =>
    -- The tick comes too early to take up anything.
    have same : m.meet .tick = m := tick_of_not_isDue (delayed.not_isDue (early rfl))
    rwa [same]
  | interrupt => exact (Holds.stop m m.owner).delayed delayed
  | diagnostics level => exact delayed
  | clock time =>
    intro running
    obtain ⟨same, stays, passed⟩ := delayed running
    exact ⟨same, stays, fun active => (passed active).trans forward⟩
  | readings readings => exact delayed

/-- Nothing that comes in during a run starts the program. -/
def NeverStarts : Machine → List Event → Prop := Always fun m e => m.starts e = false

instance (m : Machine) (events : List Event) : Decidable (m.NeverStarts events) :=
  decidableAlways _ m events

/-- All ticks of a run come before a time. -/
def TicksBefore (time : Nat) : Machine → List Event → Prop :=
  Always fun m e => e = .tick → m.now < time

instance (time : Nat) (m : Machine) (events : List Event) : Decidable (TicksBefore time m events) :=
  decidableAlways _ m events

instance (m : Machine) (e : Event) : Decidable (m.Forward e) :=
  match e with
  | .clock time => inferInstanceAs (Decidable (m.now ≤ (m.setClock time).now))
  | .line _ | .byte _ _ | .tick | .interrupt | .diagnostics _ | .readings _ => .isTrue trivial

theorem goesForward_iff : m.GoesForward events ↔ m.Always Forward events := by
  induction events generalizing m with
  | nil => exact Iff.rfl
  | cons e events ih => exact and_congr_right fun _ => ih

instance (m : Machine) (events : List Event) : Decidable (m.GoesForward events) :=
  decidable_of_iff _ goesForward_iff.symm

/-- A run leaves a delayed program delayed, if nothing starts it and no tick comes after the
deadline. -/
theorem Delayed.meetAll (delayed : m.Delayed deadline place) (forward : m.GoesForward events)
    (noStart : m.NeverStarts events) (early : TicksBefore deadline m events) :
    (m.meetAll events).Delayed deadline place := by
  induction events generalizing m with
  | nil => exact delayed
  | cons e events ih =>
    exact ih (delayed.meet forward.1 noStart.1 early.1) forward.2 noStart.2 early.2

/-- The clock of a run does not go back. -/
theorem now_le_meetAll (forward : m.GoesForward events) : m.now ≤ (m.meetAll events).now := by
  induction events generalizing m with
  | nil => exact le_rfl
  | cons e events ih => exact (now_le_meet forward.1).trans (ih forward.2)

/-- Up to a time that has not come yet, all ticks came before it. -/
theorem ticksBefore_of_lt (forward : m.GoesForward events)
    (ahead : (m.meetAll events).now < deadline) : TicksBefore deadline m events := by
  induction events generalizing m with
  | nil => trivial
  | cons e events ih =>
    have rest : (m.meet e).now ≤ (m.meetAll (e :: events)).now := now_le_meetAll forward.2
    exact ⟨fun _ => ((now_le_meet forward.1).trans rest).trans_lt ahead, ih forward.2 ahead⟩

/-! ## Delays -/

/-- The end of a delay, in whole numbers. A delay of less than nothing ends at once. -/
theorem deadlineAfter_eq (now : Nat) (tenths : Value) :
    (deadlineAfter now tenths : ℤ) = min (now + 100 * max tenths.toInt 0) (2 ^ 64 - 1) := by
  have range : timeRange = 2 ^ 64 := rfl
  rw [deadlineAfter, range]
  omega

/-- A tick that takes up a delay leaves the program behind it, waiting for its deadline. -/
theorem delayed_tick {fetched : Fetched} {tenths : Value} {rest : Bytes} (due : m.IsDue)
    (found : m.store.fetch? m.pc m.limits.statementLength = some fetched)
    (whole : fetched.truncated = false)
    (delays : Opcode.ofStatement? fetched.text = some .delay)
    (evaluates : Expression.evaluate m.scope (fetched.text.drop 2) = .ok tenths rest) :
    m.tick.program = .awaitingDelay ∧ m.tick.now = m.now ∧
      m.tick.Delayed (deadlineAfter m.now tenths) fetched.next := by
  obtain ⟨before, after, executed⟩ :=
    exists_execute_eq delays (m.goneTo fetched.next) .program m.owner
  have performed : perform .delay (fetched.text.drop 2) .program m.owner
      { m.goneTo fetched.next with outbox := before } =
        .ok () { m.goneTo fetched.next with
          outbox := before
          deadline := deadlineAfter m.now tenths
          program := .awaitingDelay } := by
    have read : Expression.evaluate { m.goneTo fetched.next with outbox := before }.scope
        (fetched.text.drop 2) = .ok tenths rest := evaluates
    have valued : expression (fetched.text.drop 2) { m.goneTo fetched.next with outbox := before } =
        .ok tenths { m.goneTo fetched.next with outbox := before } := by
      simp [expression, scanning, bind_apply, read]
    -- Of all that `perform` asks, nothing applies to this opcode.
    change delay _ _ = _
    rw [delay, bind_apply, valued]
    rfl
  rw [tick_of_fetch? due found, whole, if_neg Bool.false_ne_true, executed, performed]
  exact ⟨rfl, rfl, fun _ => ⟨rfl, rfl, by simp [goneTo]⟩⟩

/-- After a delay of the program, whatever happens while the clock does not go back and nothing
starts the program anew: until the deadline a tick takes up no statement and changes nothing, and
the place of the program stays behind the delay unless the program is stopped. The first tick from
then on, if the program runs, takes up the statement there. -/
theorem honours_delay {fetched : Fetched} {tenths : Value} {rest : Bytes} (due : m.IsDue)
    (found : m.store.fetch? m.pc m.limits.statementLength = some fetched)
    (whole : fetched.truncated = false)
    (delays : Opcode.ofStatement? fetched.text = some .delay)
    (evaluates : Expression.evaluate m.scope (fetched.text.drop 2) = .ok tenths rest)
    (forward : m.tick.GoesForward events) (noStart : m.tick.NeverStarts events) :
    let deadline := min (m.now + 100 * max tenths.toInt 0) (2 ^ 64 - 1)
    let n := m.tick.meetAll events
    (n.now < deadline → ¬n.IsDue ∧ n.tick = n ∧
      (n.program = .awaitingDelay → n.tick.isRunning = true) ∧
      (n.program ≠ .stopped → n.pc = fetched.next)) ∧
    (TicksBefore deadline.toNat m.tick events → n.isRunning = true → deadline ≤ n.now →
      n.tick = (n.goneTo fetched.next).executeNext) := by
  intro deadline n
  obtain ⟨-, -, delayed⟩ := delayed_tick due found whole delays evaluates
  have ends : (deadlineAfter m.now tenths : ℤ) = deadline := deadlineAfter_eq m.now tenths
  have ends' : deadlineAfter m.now tenths = deadline.toNat := by omega
  constructor
  · intro ahead
    have ahead' : n.now < deadlineAfter m.now tenths := by omega
    -- As the clock has not come to the deadline yet, no tick of the run was behind it.
    have waits := delayed.meetAll forward noStart (ticksBefore_of_lt forward ahead')
    have idle := waits.not_isDue ahead'
    have same := tick_of_not_isDue idle
    refine ⟨idle, same, fun awaiting => ?_, fun running => (waits running).2.1⟩
    rw [same]
    exact decide_eq_true (.inr awaiting)
  · intro early running passed
    -- Here a tick behind the deadline is ruled out: it would have gone on already.
    have waits : n.Delayed (deadlineAfter m.now tenths) fetched.next :=
      delayed.meetAll forward noStart (ends' ▸ early)
    obtain ⟨same, stays, -⟩ := waits fun stopped => by simp [isRunning, stopped] at running
    have due' : n.IsDue :=
      (of_decide_eq_true running).imp_right fun awaiting => ⟨awaiting, by omega⟩
    rw [tick_of_isDue due', goneTo, ← stays]

/-- A delay of a second. The program is paused in it and resumed, and a tick comes too early. When
the second is over, the next tick takes up the statement behind the delay. -/
theorem honours_delay_of_second :
    let start := ofLimits {} (.ofRegion (List.replicate 50 0) .volatile) 0
    let m := start.meetAll [.line "begin", .line "delay 10", .line "println 1", .line "end"]
    let say (op : Opcode) : List Event :=
      (op.code ++ [Byte.statementEnd]).map fun b => .byte b console
    let events := .clock 400 :: say .pause ++ .tick :: say .resume ++ [.tick, .clock 1000]
    let n := m.tick.meetAll events
    m.IsDue ∧ m.store.fetch? m.pc m.limits.statementLength =
        some { next := 5, truncated := false, text := Opcode.delay.code ++ [0x31, 0x30] } ∧
      m.tick.GoesForward events ∧ m.tick.NeverStarts events ∧ TicksBefore 1000 m.tick events ∧
      n.now = 1000 ∧ n.tick = (n.goneTo 5).executeNext := by
  intro start m say events n
  have due : m.IsDue := by decide +kernel
  have found : m.store.fetch? m.pc m.limits.statementLength =
      some { next := 5, truncated := false, text := Opcode.delay.code ++ [0x31, 0x30] } := by
    decide +kernel
  have evaluates (scope : Scope) :
      Expression.evaluate scope ((Opcode.delay.code ++ [0x31, 0x30]).drop 2) = .ok 10 [] := rfl
  have forward : m.tick.GoesForward events := by decide +kernel
  have noStart : m.tick.NeverStarts events := by decide +kernel
  have early : TicksBefore 1000 m.tick events := by decide +kernel
  obtain ⟨clock, now, running⟩ : m.now = 0 ∧ n.now = 1000 ∧ n.isRunning = true := by
    decide +kernel
  have ends : min ((m.now : ℤ) + 100 * max (10 : Value).toInt 0) (2 ^ 64 - 1) = 1000 := by
    rw [clock]
    decide
  have honours := (honours_delay due found rfl (by decide) (evaluates _) forward noStart).2
  rw [ends] at honours
  have later : (1000 : ℤ) ≤ n.now := by rw [now]; decide
  exact ⟨due, found, forward, noStart, early, now, honours early running later⟩

end Machine

end ControlScript
