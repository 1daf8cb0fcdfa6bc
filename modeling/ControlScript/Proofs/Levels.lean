import ControlScript.Proofs.Listing
import ControlScript.Proofs.Safety
import ControlScript.Proofs.Surfaces

/-!
# The level of diagnostics only filters diagnostics

Two machines that differ in their levels of diagnostics alone do the same, whatever happens to them.
The one with the lower level leaves some diagnostics out of what the other writes, and that is all.
Statements that set the level set both to the same. Only a status tells the level itself, so none may
be executed.

## Main definitions

* `Thinned` — output without some of its diagnostics
* `Surface.Quieter` — a surface that shows less than another
* `Machine.executed` — the statements that are executed when something happens
* `Machine.Reply`, `Machine.reply` — what an event answers to whoever causes it

## Main results

* `Machine.Beside.receive`, `Machine.Beside.meet` — a byte that comes in, and any event
* `Machine.level_filters_diagnostics` — any number of events
-/

namespace ControlScript

open Attempt

/-- Output without some of its diagnostics. -/
inductive Thinned : List Delivery → List Delivery → Prop where
  | nil : Thinned [] []
  | keep {shown all : List Delivery} (d : Delivery) (rest : Thinned shown all) :
    Thinned (d :: shown) (d :: all)
  | leaveOut {shown all : List Delivery} (dest : Destination) (text : String)
    (rest : Thinned shown all) :
    Thinned shown ({ destination := dest, output := .diagnostic text } :: all)

namespace Thinned

variable {shown all shown' all' : List Delivery}

theorem refl (all : List Delivery) : Thinned all all := by
  induction all with
  | nil => exact .nil
  | cons d all ih => exact .keep d ih

theorem append (first : Thinned shown all) (second : Thinned shown' all') :
    Thinned (shown ++ shown') (all ++ all') := by
  induction first with
  | nil => exact second
  | keep d _ ih => exact .keep d ih
  | leaveOut dest text _ ih => exact .leaveOut dest text ih

end Thinned

/-- A surface that shows less than another: some diagnostics are left out, because its level is no
higher. What comes in is the same. -/
structure Surface.Quieter (σ τ : Surface) : Prop where
  line : τ.line = σ.line
  discarding : τ.discarding = σ.discarding
  level : σ.diagnostics ≤ τ.diagnostics
  output : Thinned σ.outbox.toList τ.outbox.toList

namespace Surface.Quieter

variable {σ τ : Surface}

theorem deliver (quieter : Quieter σ τ) (dest : Destination) (output : Output) :
    Quieter (σ.deliver dest output) (τ.deliver dest output) where
  line := quieter.line
  discarding := quieter.discarding
  level := quieter.level
  output := by
    simp only [Surface.deliver, Array.toList_push]
    exact quieter.output.append (.refl _)

/-- A diagnostic that is shown on the quieter surface is shown on the other. -/
theorem diagnose (quieter : Quieter σ τ) (level : Nat) (dest : Destination) (text : String) :
    Quieter (σ.diagnose level dest text) (τ.diagnose level dest text) := by
  unfold Surface.diagnose
  by_cases shown : level ≤ σ.diagnostics
  · rw [if_pos shown, if_pos (shown.trans quieter.level)]
    exact quieter.deliver dest _
  rw [if_neg shown]
  split
  · refine ⟨quieter.line, quieter.discarding, quieter.level, ?_⟩
    have longer := quieter.output.append (.leaveOut dest text .nil)
    rw [List.append_nil] at longer
    simpa only [Surface.deliver, Array.toList_push] using longer
  · exact quieter

end Surface.Quieter

theorem Surface.Lasting.quieter : Surface.Lasting Surface.Quieter where
  deliver := Surface.Quieter.deliver
  diagnose := Surface.Quieter.diagnose
  setDiagnostics quieter level :=
    ⟨quieter.line, quieter.discarding, Nat.le_refl level, quieter.output⟩

/-- The statement that was found, unless it was too long. -/
def Item.statement? : Item → Option Bytes
  | .statement text => some text
  | .tooLong => none

namespace Machine

/-- The statements that are executed when something happens. -/
def executed (m : Machine) : Event → List Bytes
  | .line text =>
    let compiled := m.compiler.compileLine m.vars m.readings text
    ((m.renewed compiled.compiler compiled.vars).items console
      (Instruction.encode compiled.emitted)).filterMap Item.statement?
  | .byte b dest => (m.items dest [b]).filterMap Item.statement?
  | .tick =>
    if m.IsDue then
      ((m.store.fetch? m.pc m.limits.statementLength).map Item.ofFetched).toList.filterMap
        Item.statement?
    else []
  | _ => []

/-- What an event answers to whoever causes it. -/
inductive Reply where
  | nothing
  | fault (fault : Option Fault)
  | running (running : Bool)
deriving DecidableEq, Repr

/-- A line that is entered has a fault or none, and a tick tells whether the program runs on. -/
def reply (m : Machine) : Event → Reply
  | .line text => .fault (m.enter text).2
  | .tick => .running m.tick.isRunning
  | _ => .nothing

/-- No status is told. -/
def Untold (statement : Bytes) : Prop := Opcode.ofStatement? statement ≠ some .status

instance (statement : Bytes) : Decidable (Untold statement) := inferInstanceAs (Decidable (_ ≠ _))

open Surface (Quieter)

variable {m n : Machine} {b : UInt8} {dest : Destination}

theorem mem_executed_byte {text : Bytes} (dest : Destination)
    (found : m.item? b = some (.statement text)) : text ∈ m.executed (.byte b dest) := by
  refine List.mem_filterMap.mpr ⟨.statement text, ?_, rfl⟩
  rw [items, found]
  exact List.mem_append_left _ (List.mem_singleton_self _)

theorem mem_executed_tick {fetched : Fetched} (due : m.IsDue)
    (found : m.store.fetch? m.pc m.limits.statementLength = some fetched)
    (whole : fetched.truncated = false) : fetched.text ∈ m.executed .tick := by
  unfold executed
  rw [if_pos due, found]
  refine List.mem_filterMap.mpr ⟨.statement fetched.text, ?_, rfl⟩
  rw [Option.map_some, Item.ofFetched, whole]
  exact List.mem_singleton_self _

/-- A byte of a download. -/
theorem Beside.download (beside : m.Beside Quieter n) (b : UInt8) (dest : Destination) :
    (m.download b dest).Beside Quieter (n.download b dest) := by
  obtain ⟨τ, related, rfl⟩ := beside.exists_eq
  -- Where a download ends, the rest of the line is dropped on both sides.
  have ended (filter : DownloadFilter) (store : Store) : Beside Quieter
      { m with filter, store, device := .executeImmediately, discarding := true }
      { m.withSurface τ with filter, store, device := .executeImmediately, discarding := true } :=
    ⟨rfl, related.line, rfl, related.level, related.output⟩
  unfold Machine.download
  rw [show DownloadFilter.process b ((m.withSurface τ).filter, (m.withSurface τ).store) =
    DownloadFilter.process b (m.filter, m.store) from rfl]
  cases result : DownloadFilter.process b (m.filter, m.store) with
  | ok outcome after =>
    obtain ⟨filter, store⟩ := after
    cases outcome with
    | more => exact ⟨rfl, related⟩
    | finished =>
      exact ((ended filter store).diagnose .quieter 2 dest _).start .quieter dest
    | aborted => exact (ended filter store).diagnose .quieter 2 dest _
  | error f after =>
    obtain ⟨filter, store⟩ := after
    have cleared : Beside Quieter
        { m with filter, store := reached (Store.clear store) }
        { m.withSurface τ with filter, store := reached (Store.clear store) } := ⟨rfl, related⟩
    have reported := cleared.diagnose .quieter 1 dest f.render
    dsimp only
    cases fault? (Store.clear store) with
    | none => exact reported
    | some f' => exact reported.diagnose .quieter 1 dest f'.render

theorem Beside.shift (beside : m.Beside Quieter n) (b : UInt8) :
    (m.shift b).Beside Quieter (n.shift b) := by
  have line : n.line = m.line := beside.2.line
  have discarding : n.discarding = m.discarding := beside.2.discarding
  have limit : n.limits.statementLength = m.limits.statementLength :=
    beside.same (·.limits.statementLength) fun _ _ => rfl
  have changed (line : Bytes) (discarding : Bool) :
      Beside Quieter { m with line, discarding } { n with line, discarding } := by
    obtain ⟨τ, related, rfl⟩ := beside.exists_eq
    exact ⟨rfl, rfl, rfl, related.level, related.output⟩
  unfold Machine.shift
  rw [line, discarding, limit]
  split
  · exact changed [] false
  · split
    · exact beside
    · split
      · exact changed [] true
      · exact changed (m.line ++ [b]) m.discarding

theorem Beside.item?_eq (beside : m.Beside Quieter n) (b : UInt8) : n.item? b = m.item? b := by
  have line : n.line = m.line := beside.2.line
  have discarding : n.discarding = m.discarding := beside.2.discarding
  have limits : n.limits = m.limits := beside.same _ fun _ _ => rfl
  have device : n.device = m.device := beside.same _ fun _ _ => rfl
  unfold Machine.item?
  rw [line, discarding, limits, device]

/-- A byte that comes in. -/
theorem Beside.receive (beside : m.Beside Quieter n) (b : UInt8) (dest : Destination)
    (untold : ∀ text, m.item? b = some (.statement text) → Untold text) :
    (m.receive b dest).Beside Quieter (n.receive b dest) := by
  have device : n.device = m.device := beside.same _ fun _ _ => rfl
  cases state : m.device with
  | storeProgram =>
    simp only [Machine.receive, device, state]
    exact beside.download b dest
  | executeImmediately =>
    rw [receive_eq_of_item? state, receive_eq_of_item? (device.trans state), beside.item?_eq b]
    -- The same item is found on both. Only a status among them would show the levels.
    have shifted := beside.shift b
    cases found : m.item? b with
    | none => exact shifted
    | some item =>
      cases item with
      | tooLong => exact shifted.diagnose .quieter 1 dest _
      | statement text =>
        exact shifted.execute .quieter (fun told => absurd told (untold text found)) .live dest

/-- Bytes that come in. -/
theorem Beside.receiveAll (beside : m.Beside Quieter n) (bytes : Bytes) (dest : Destination)
    (untold : ∀ text ∈ (m.items dest bytes).filterMap Item.statement?, Untold text) :
    (m.receiveAll bytes dest).Beside Quieter (n.receiveAll bytes dest) := by
  induction bytes generalizing m n with
  | nil => exact beside
  | cons b bytes ih =>
    rw [items, List.filterMap_append] at untold
    refine ih (beside.receive b dest fun text found => ?_) fun text member => ?_
    · refine untold text (List.mem_append_left _ ?_)
      simp [found, Item.statement?]
    · exact untold text (List.mem_append_right _ member)

/-- Whatever happens, as long as no status is told, the answers are the same and the machines stay
side by side. -/
theorem Beside.meet (beside : m.Beside Quieter n) (e : Event)
    (untold : ∀ text ∈ m.executed e, Untold text) :
    (m.meet e).Beside Quieter (n.meet e) ∧ m.reply e = n.reply e := by
  cases e with
  | line text =>
    -- The line is compiled to the same, since neither compiler nor variables differ.
    have same : n.compiler.compileLine n.vars n.readings text =
        m.compiler.compileLine m.vars m.readings text :=
      beside.same (fun k => k.compiler.compileLine k.vars k.readings text) fun _ _ => rfl
    let compiled := m.compiler.compileLine m.vars m.readings text
    have renewed := beside.change (fun k => k.renewed compiled.compiler compiled.vars)
      (fun _ _ => rfl) fun _ => rfl
    have entered : (m.enter text).1.Beside Quieter (n.enter text).1 := by
      rw [enter_eq rfl, enter_eq same]
      exact renewed.receiveAll (Instruction.encode compiled.emitted) console untold
    refine ⟨entered, congrArg Reply.fault ?_⟩
    rw [enter_eq rfl, enter_eq same]
  | byte b dest =>
    have received : (m.receive b dest).Beside Quieter (n.receive b dest) := by
      refine beside.receive b dest fun text found => ?_
      exact untold text (mem_executed_byte dest found)
    exact ⟨received, rfl⟩
  | tick =>
    have ticked : m.tick.Beside Quieter n.tick := by
      refine beside.tick .quieter fun due fetched found whole told => ?_
      exact absurd told (untold fetched.text (mem_executed_tick due found whole))
    have running : n.tick.isRunning = m.tick.isRunning := ticked.same _ fun _ _ => rfl
    exact ⟨ticked, congrArg Reply.running running.symm⟩
  | interrupt =>
    have owner : n.owner = m.owner := beside.same _ fun _ _ => rfl
    have stopped := beside.enterState .quieter .stopped m.owner
    refine ⟨?_, rfl⟩
    change (m.enterState .stopped m.owner).Beside Quieter (n.enterState .stopped n.owner)
    rw [owner]
    exact stopped
  | diagnostics level => exact ⟨beside.setDiagnostics .quieter level, rfl⟩
  | clock time =>
    exact ⟨beside.change (fun k => k.setClock time) (fun _ _ => rfl) fun _ => rfl, rfl⟩
  | readings readings =>
    exact ⟨beside.change (fun k => { k with readings }) (fun _ _ => rfl) fun _ => rfl, rfl⟩

theorem Beside.meetAll (beside : m.Beside Quieter n) {events : List Event}
    (untold : m.Always (fun m e => ∀ text ∈ m.executed e, Untold text) events) :
    (m.meetAll events).Beside Quieter (n.meetAll events) := by
  induction events generalizing m n with
  | nil => exact beside
  | cons e events ih =>
    obtain ⟨now, later⟩ := untold
    exact ih (beside.meet e now).1 later

theorem Always.append {P : Machine → Event → Prop} {before after : List Event}
    (always : m.Always P (before ++ after)) :
    m.Always P before ∧ (m.meetAll before).Always P after := by
  induction before generalizing m with
  | nil => exact ⟨trivial, always⟩
  | cons e before ih =>
    obtain ⟨now, later⟩ := always
    obtain ⟨first, second⟩ := ih later
    exact ⟨⟨now, first⟩, second⟩

/-- What is coming in is the same on both, so output and level are all that differs. -/
theorem Beside.eq_of_quieter (beside : m.Beside Quieter n) :
    n = { m with outbox := n.outbox, diagnostics := n.diagnostics } := by
  obtain ⟨τ, related, rfl⟩ := beside.exists_eq
  have line : τ.line = m.line := related.line
  have discarding : τ.discarding = m.discarding := related.discarding
  unfold withSurface
  rw [line, discarding]

/-- Two machines that differ in their levels of diagnostics alone go on to differ in these and in
their diagnostics alone, as long as no status is told: what the one with the lower level has written
is what the other has written, without some diagnostics. -/
theorem level_filters_diagnostics (m : Machine) {level : Nat} (higher : m.diagnostics ≤ level)
    {events : List Event}
    (untold : m.Always (fun m e => ∀ text ∈ m.executed e, Untold text) events) :
    ∀ before after, events = before ++ after →
      let low := m.meetAll before
      let high := meetAll { m with diagnostics := level } before
      high = { low with outbox := high.outbox, diagnostics := high.diagnostics } ∧
        low.diagnostics ≤ high.diagnostics ∧ Thinned low.outbox.toList high.outbox.toList ∧
        ∀ e rest, after = e :: rest → low.reply e = high.reply e := by
  rintro before after rfl low high
  have start : m.Beside Quieter { m with diagnostics := level } :=
    ⟨rfl, rfl, rfl, higher, .refl _⟩
  obtain ⟨first, second⟩ := untold.append
  have beside : low.Beside Quieter high := start.meetAll first
  refine ⟨beside.eq_of_quieter, beside.2.level, beside.2.output, ?_⟩
  rintro e rest rfl
  exact (beside.meet e second.1).2

/-- The machine with the higher level shows the statement that sets both levels to one. After that
both show the fault of the next statement. -/
theorem level_filters_diagnostics_of_set :
    let m := ofLimits {} (.ofBytes 4 []) 7
    let events := (Bytes.ofString "ID1\rVVx\r").map (Event.byte · console)
    let low := m.meetAll events
    let high := meetAll { m with diagnostics := 3 } events
    Thinned low.outbox.toList high.outbox.toList ∧
      (low.outbox.size = 1 ∧ high.outbox.size = 2) ∧ low.diagnostics = 1 ∧ high.diagnostics = 1 := by
  intro m events
  have untold : m.Always (fun m e => ∀ text ∈ m.executed e, Untold text) events := by
    decide +kernel
  have higher : m.diagnostics ≤ 3 := by decide
  obtain ⟨-, -, thinned, -⟩ :=
    level_filters_diagnostics m higher untold events [] (List.append_nil _).symm
  exact ⟨thinned, by decide +kernel, by decide +kernel⟩

end Machine

end ControlScript
