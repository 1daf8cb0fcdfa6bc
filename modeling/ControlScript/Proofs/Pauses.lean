import ControlScript.Proofs.Safety

/-!
# Pausing and resuming

A program that is paused and then resumed, while the clock stands still, goes on where it was. What
it goes on with is read off the deadline: if that lies ahead, the program waits for it.

The deadline belongs to the last delay, and nothing but another delay sets it. So it lies ahead of a
program that does not wait just if a delay was cut short: the program was stopped or started anew
before the delay had ended. A program that is resumed then waits for the rest of a delay that it was
not in.

## Main definitions

* `Machine.KeepsTime` — the clock and the deadline are left alone
* `Machine.IsWaiting`, `Machine.IsStale` — the deadline lies ahead, of a delay or of none
* `Machine.GoesForward` — the clock is never set back
* `Machine.CutsShort` — a delay is cut short in a run

## Main results

* `Machine.deadline_meet` — one event
* `Machine.cutsShort_of_isStale` — where a deadline comes from that no delay waits for
* `Machine.resumes_unless_cut_short` — pausing and resuming, after whatever has happened
-/

namespace ControlScript

open Attempt Command

namespace Machine

variable {m n : Machine} {origin : Origin}

/-- The clock and the deadline are left alone. -/
structure KeepsTime (m n : Machine) : Prop where
  now : n.now = m.now
  deadline : n.deadline = m.deadline

/-- Only a delay of the program does not leave them alone. -/
theorem allowsAll_keepsTime : AllowsAll KeepsTime where
  refl _ := ⟨rfl, rfl⟩
  trans first second := ⟨second.now.trans first.now, second.deadline.trans first.deadline⟩
  vars _ _ _ := ⟨rfl, rfl⟩
  outbox _ _ := ⟨rfl, rfl⟩
  diagnostics _ _ := ⟨rfl, rfl⟩
  program _ _ := ⟨rfl, rfl⟩
  position _ _ _ := ⟨rfl, rfl⟩
  coin _ _ := ⟨rfl, rfl⟩
  line _ _ _ := ⟨rfl, rfl⟩
  stored _ _ _ _ := ⟨rfl, rfl⟩

/-- A line of script. -/
theorem keepsTime_enter (m : Machine) (text : String) : KeepsTime m (m.enter text).1 where
  now := (allowsAll_keepsTime.receiveAll _ _ console).now
  deadline := (allowsAll_keepsTime.receiveAll _ _ console).deadline

/-! ## Deadlines -/

/-- A statement of a program leaves clock and deadline alone, or makes the program wait. -/
theorem keepsTime_execute_program (m : Machine) (statement : Bytes) (dest : Destination) :
    let n := m.execute statement .program dest
    KeepsTime m n ∨ n.now = m.now ∧ n.program = .awaitingDelay := by
  by_cases delays : Opcode.ofStatement? statement = some .delay
  · obtain ⟨before, after, executed⟩ := exists_execute_eq delays m .program dest
    have performed : Machine.perform .delay (statement.drop 2) .program dest
        { m with outbox := before } = delay (statement.drop 2) { m with outbox := before } := rfl
    rw [performed] at executed
    dsimp only
    rw [executed]
    -- The argument is read first, which changes nothing.
    have read := allowsAll_keepsTime.expression (statement.drop 2) { m with outbox := before }
    rw [delay, bind_apply]
    cases result : expression (statement.drop 2) { m with outbox := before } with
    | error f k =>
      rw [result] at read
      exact .inl ⟨read.now, read.deadline⟩
    | ok tenths k =>
      rw [result] at read
      exact .inr ⟨read.now, rfl⟩
  · exact .inl (allowsAll_keepsTime.execute (fun named _ => absurd named delays) dest m)

/-- A tick leaves clock and deadline alone, or makes the program wait. -/
theorem keepsTime_tick (m : Machine) :
    KeepsTime m m.tick ∨ m.tick.now = m.now ∧ m.tick.program = .awaitingDelay := by
  have executes (m : Machine) :
      KeepsTime m m.executeNext ∨
        m.executeNext.now = m.now ∧ m.executeNext.program = .awaitingDelay := by
    unfold executeNext
    split
    · exact .inl (allowsAll_keepsTime.enterState m .stopped m.owner)
    · next fetched _ =>
      dsimp only
      split
      · have next : KeepsTime m { m with pc := fetched.next } := ⟨rfl, rfl⟩
        exact .inl (allowsAll_keepsTime.trans next (allowsAll_keepsTime.diagnose _ 1 m.owner _))
      · rcases keepsTime_execute_program { m with pc := fetched.next } fetched.text m.owner with
          kept | waits
        · exact .inl ⟨kept.now, kept.deadline⟩
        · exact .inr waits
  unfold tick
  split
  · exact .inl (allowsAll_keepsTime.refl m)
  · exact .inl (allowsAll_keepsTime.refl m)
  · exact executes m
  · split
    · exact .inl (allowsAll_keepsTime.refl m)
    · rcases executes { m with program := .active } with kept | waits
      · exact .inl ⟨kept.now, kept.deadline⟩
      · exact .inr waits

/-- Nothing but a delay of the program sets the deadline. -/
theorem deadline_meet (m : Machine) (e : Event) :
    (m.meet e).deadline = m.deadline ∨ (m.meet e).program = .awaitingDelay := by
  cases e with
  | line text => exact .inl (keepsTime_enter m text).deadline
  | byte b dest => exact .inl (allowsAll_keepsTime.receive m b dest).deadline
  | tick => exact (keepsTime_tick m).imp KeepsTime.deadline And.right
  | interrupt => exact .inl (allowsAll_keepsTime.enterState m .stopped m.owner).deadline
  | diagnostics level | clock time | readings readings => exact .inl rfl

/-- The clock is not set back by an event. -/
def Forward (m : Machine) : Event → Prop
  | .clock time => m.now ≤ (m.setClock time).now
  | _ => True

/-- The clock is never set back. -/
def GoesForward : Machine → List Event → Prop
  | _, [] => True
  | m, e :: events => m.Forward e ∧ (m.meet e).GoesForward events

theorem now_le_meet {e : Event} (forward : m.Forward e) : m.now ≤ (m.meet e).now := by
  cases e with
  | line text => exact (keepsTime_enter m text).now.ge
  | byte b dest => exact (allowsAll_keepsTime.receive m b dest).now.ge
  | tick =>
    rcases keepsTime_tick m with kept | waits
    · exact kept.now.ge
    · exact waits.1.ge
  | interrupt => exact (allowsAll_keepsTime.enterState m .stopped m.owner).now.ge
  | clock time => exact forward
  | diagnostics level | readings readings => exact le_rfl

/-! ## Delays that are cut short -/

/-- The program is in a delay that has not ended, if perhaps paused. -/
structure IsWaiting (m : Machine) : Prop where
  ahead : m.now < m.deadline
  program : m.program = .awaitingDelay ∨ m.program = .paused

/-- The program is stopped or goes on, although the deadline lies ahead. -/
structure IsStale (m : Machine) : Prop where
  ahead : m.now < m.deadline
  program : m.program = .stopped ∨ m.program = .active

/-- In a run, a delay with this deadline begins, and before it ends the program is stopped or is
started anew. -/
def CutsShort (m : Machine) (events : List Event) (deadline : Nat) : Prop :=
  ∃ before during e after, events = before ++ (during ++ e :: after) ∧
    let k := m.meetAll before
    k.program = .awaitingDelay ∧
      (∀ done, done <+: during →
        (k.meetAll done).IsWaiting ∧ (k.meetAll done).deadline = deadline) ∧
      ((k.meetAll during).meet e).IsStale ∧ ((k.meetAll during).meet e).deadline = deadline

/-- A deadline stays, and lies ahead, all through a run. -/
def Lasts (m : Machine) (deadline : Nat) (events : List Event) : Prop :=
  ∀ done, done <+: events → (m.meetAll done).deadline = deadline ∧ (m.meetAll done).now < deadline

variable {deadline : Nat} {e : Event} {events : List Event}

theorem Lasts.tail (lasts : m.Lasts deadline (e :: events)) :
    (m.meet e).Lasts deadline events := fun done start =>
  lasts (e :: done) (List.cons_prefix_cons.mpr ⟨rfl, start⟩)

/-- A delay whose deadline lasts until the program no longer waits is cut short. The induction is on
the run, and the delay goes on as long as the program waits. -/
theorem exists_of_lasts (lasts : m.Lasts deadline events) (waiting : m.IsWaiting)
    (stale : (m.meetAll events).IsStale) :
    ∃ during e after, events = during ++ e :: after ∧
      (∀ done, done <+: during →
        (m.meetAll done).IsWaiting ∧ (m.meetAll done).deadline = deadline) ∧
      ((m.meetAll during).meet e).IsStale ∧ ((m.meetAll during).meet e).deadline = deadline := by
  induction events generalizing m with
  | nil =>
    have running := stale.program
    rcases waiting.program with waits | paused
    · simp [meetAll, waits] at running
    · simp [meetAll, paused] at running
  | cons e events ih =>
    have here := lasts [] List.nil_prefix
    obtain ⟨same, ahead⟩ := lasts [e] (List.cons_prefix_cons.mpr ⟨rfl, List.nil_prefix⟩)
    have ahead' : (m.meet e).now < (m.meet e).deadline := same.symm ▸ ahead
    -- After the first event the program waits still, or its delay has just been cut short.
    have next : (m.meet e).IsWaiting ∨ (m.meet e).IsStale := by
      cases program : (m.meet e).program with
      | awaitingDelay => exact .inl ⟨ahead', .inl program⟩
      | paused => exact .inl ⟨ahead', .inr program⟩
      | stopped => exact .inr ⟨ahead', .inl program⟩
      | active => exact .inr ⟨ahead', .inr program⟩
    rcases next with waits | cut
    · obtain ⟨during, e', after, rfl, waits', cut, last⟩ := ih lasts.tail waits stale
      refine ⟨e :: during, e', after, rfl, fun done start => ?_, cut, last⟩
      rcases List.prefix_cons_iff.mp start with rfl | ⟨rest, rfl, start'⟩
      · exact ⟨waiting, here.1⟩
      · exact waits' rest start'
    · refine ⟨[], e, events, rfl, fun done start => ?_, cut, same⟩
      rw [List.prefix_nil.mp start]
      exact ⟨waiting, here.1⟩

/-- If a deadline lies ahead that no delay waits for, then it did so from the start, or a delay was
cut short. The induction is on the run: its first event leaves the deadline as it was, or the delay
begins there. -/
theorem cutsShort_of_isStale (forward : m.GoesForward events)
    (stale : (m.meetAll events).IsStale) :
    m.Lasts (m.meetAll events).deadline events ∨
      m.CutsShort events (m.meetAll events).deadline := by
  induction events generalizing m with
  | nil =>
    refine .inl fun done start => ?_
    rw [List.prefix_nil.mp start]
    exact ⟨rfl, stale.ahead⟩
  | cons e events ih =>
    -- What holds from the second machine on is carried back over the first event.
    rcases ih forward.2 stale with lasts | ⟨before, during, e', after, rfl, cut⟩
    · obtain ⟨same, ahead⟩ := lasts [] List.nil_prefix
      rcases deadline_meet m e with kept | waits
      · refine .inl fun done start => ?_
        rcases List.prefix_cons_iff.mp start with rfl | ⟨rest, rfl, start'⟩
        · exact ⟨kept.symm.trans same, (now_le_meet forward.1).trans_lt ahead⟩
        · exact lasts rest start'
      · obtain ⟨during, e', after, rfl, cut⟩ :=
          exists_of_lasts lasts ⟨same.symm ▸ ahead, .inl waits⟩ stale
        exact .inr ⟨[e], during, e', after, rfl, waits, cut⟩
    · exact .inr ⟨e :: before, during, e', after, rfl, cut⟩

/-! ## Pausing and resuming -/

/-- A program that runs is paused. -/
theorem exists_receiveAll_pause (idle : Idle m) (two : 2 ≤ m.limits.statementLength)
    (running : m.isRunning = true) (dest : Destination) : ∃ outbox,
      m.receiveAll (Opcode.pause.code ++ [Byte.statementEnd]) dest =
        { m with outbox, program := .paused } := by
  have named : Opcode.ofStatement? Opcode.pause.code = some .pause := by decide
  obtain ⟨before, after, executed⟩ := exists_execute_eq named m .live dest
  have performed : reached (Machine.perform .pause (Opcode.pause.code.drop 2) .live dest
      { m with outbox := before }) = pause { m with outbox := before } dest := rfl
  obtain ⟨outbox, entered⟩ := exists_enterState_eq { m with outbox := before } .paused dest
  have paused : pause { m with outbox := before } dest = { m with outbox, program := .paused } :=
    (if_pos running).trans entered
  refine ⟨after, ?_⟩
  rw [receiveAll_statement idle (Instruction.plain_code .pause) (by decide) two, executed,
    performed, paused]

/-- A program that is paused waits for a deadline that lies ahead, and goes on otherwise. -/
theorem exists_receiveAll_resume (idle : Idle m) (two : 2 ≤ m.limits.statementLength)
    (paused : m.program = .paused) (dest : Destination) : ∃ outbox,
      m.receiveAll (Opcode.resume.code ++ [Byte.statementEnd]) dest =
        { m with outbox, program := if m.now < m.deadline then .awaitingDelay else .active } := by
  have named : Opcode.ofStatement? Opcode.resume.code = some .resume := by decide
  obtain ⟨before, after, executed⟩ := exists_execute_eq named m .live dest
  have performed : reached (Machine.perform .resume (Opcode.resume.code.drop 2) .live dest
      { m with outbox := before }) = resume { m with outbox := before } dest := rfl
  obtain ⟨outbox, entered⟩ := exists_enterState_eq { m with outbox := before }
    (if m.now < m.deadline then .awaitingDelay else .active) dest
  have resumed : resume { m with outbox := before } dest = { m with
      outbox, program := if m.now < m.deadline then .awaitingDelay else .active } :=
    (if_pos paused).trans entered
  refine ⟨after, ?_⟩
  rw [receiveAll_statement idle (Instruction.plain_code .resume) (by decide) two, executed,
    performed, resumed]

/-- Whatever has happened to a machine whose clock was never set back: a program that goes on is as
it was after it was paused and resumed, unless its deadline lies ahead. In that case it waits, and
there has been a delay that was cut short. -/
theorem resumes_unless_cut_short (limits : Limits) (region : Bytes) (medium : Medium)
    (coin : Coin) (events : List Event) (two : 2 ≤ limits.statementLength)
    (dest dest' : Destination) :
    let start := fresh limits (.ofRegion region medium) coin
    let m := start.meetAll events
    start.GoesForward events → m.program = .active → m.line = [] → m.discarding = false →
      (∃ outbox, (m.receiveAll (Opcode.pause.code ++ [Byte.statementEnd]) dest).receiveAll
          (Opcode.resume.code ++ [Byte.statementEnd]) dest' =
        { m with outbox, program := if m.now < m.deadline then .awaitingDelay else .active }) ∧
      (m.now < m.deadline → start.CutsShort events m.deadline) := by
  intro start m forward active line discarding
  obtain ⟨safe, same⟩ := (Safe.opened limits region medium coin).meetAll events
  have device : m.device = .executeImmediately := by
    cases device : m.device with
    | executeImmediately => rfl
    | storeProgram => cases active.symm.trans (safe.stopped device)
  have two' : 2 ≤ m.limits.statementLength := same.symm ▸ two
  constructor
  · have idle : Idle m := ⟨device, line, discarding⟩
    obtain ⟨outbox, paused⟩ :=
      exists_receiveAll_pause idle two' (by simp [isRunning, active]) dest
    obtain ⟨outbox', resumed⟩ := exists_receiveAll_resume
      (m := { m with outbox, program := .paused }) ⟨device, line, discarding⟩ two' rfl dest'
    exact ⟨outbox', by rw [paused, resumed]⟩
  · intro ahead
    rcases cutsShort_of_isStale forward ⟨ahead, .inr active⟩ with lasts | cut
    · -- A deadline that was never set lies in the past.
      obtain ⟨never, before⟩ := lasts [] List.nil_prefix
      have zero : start.deadline = 0 := rfl
      have later : start.now < start.deadline := never.symm ▸ before
      omega
    · exact cut

/-- A program is stopped in a delay and started anew: the deadline lies ahead of its first
statement. -/
theorem cuts_short_of_restart :
    let start := fresh {} (.ofRegion (List.replicate 50 0) .volatile) (.ofSeed 0)
    let events : List Event := [.line "begin", .line "delay 10", .line "println 1", .line "end",
      .tick, .line "stop", .line "run"]
    let m := start.meetAll events
    2 ≤ ({} : Limits).statementLength ∧ start.GoesForward events ∧ m.program = .active ∧
      m.line = [] ∧ m.discarding = false ∧ m.now < m.deadline ∧
      start.CutsShort events m.deadline := by
  intro start events
  have forward : start.GoesForward events := by simp [events, GoesForward, Forward]
  have resumes := resumes_unless_cut_short {} (List.replicate 50 0) .volatile (.ofSeed 0) events
    (by decide) console console forward
  dsimp only at resumes ⊢
  generalize run : Machine.meetAll _ events = m at resumes ⊢
  have here : m.program = .active ∧ m.line = [] ∧ m.discarding = false ∧ m.now < m.deadline := by
    rw [← run]
    decide +kernel
  obtain ⟨active, line, discarding, ahead⟩ := here
  exact ⟨by decide, forward, active, line, discarding, ahead,
    (resumes active line discarding).2 ahead⟩

/-- A program that was stopped in a delay and started anew, at its first statement: when it is
paused and resumed, it waits. -/
theorem waits_after_restart :
    let m := (ofLimits {} (.ofRegion (List.replicate 50 0) .volatile) 0).meetAll
      [.line "begin", .line "delay 10", .line "println 1", .line "end", .tick, .line "stop",
        .line "run"]
    let n := (m.receiveAll (Opcode.pause.code ++ [Byte.statementEnd]) console).receiveAll
      (Opcode.resume.code ++ [Byte.statementEnd]) console
    m.program = .active ∧ m.pc = 0 ∧ m.line = [] ∧ m.discarding = false ∧
      n.program = .awaitingDelay ∧ n.tick = n := by
  decide +kernel

end Machine

end ControlScript
