import ControlScript.Proofs.Ticks

/-!
# Machines that differ in their surfaces

What a machine has written, what is coming in and which diagnostics it shows are its surface. No
statement reads more of the surface than the level of diagnostics, and only a status tells it to
anybody. So two machines that differ in their surfaces alone do the same with every statement, and
go on to differ in their surfaces alone.

## Main definitions

* `Surface`, `Machine.surface`, `Machine.withSurface` — the surface of a machine
* `Surface.Lasting` — relations that go on while two surfaces are written to alike
* `Machine.Beside` — two machines that differ in their surfaces alone, as a relation says
* `Command.Respects` — commands that keep two machines side by side

## Main results

* `Command.Respects.bind` — commands are composed
* `Machine.respects_perform` — what an opcode does
* `Machine.Beside.execute`, `Machine.Beside.tick` — a statement that is executed, and a tick
-/

namespace ControlScript

open Attempt

/-- The part of a machine that faces the outside: what it has written, what is coming in, and which
diagnostics it shows. -/
structure Surface where
  outbox : Array Delivery
  line : Bytes
  discarding : Bool
  diagnostics : Nat
deriving DecidableEq, Repr

namespace Surface

/-- Sends output to a destination. -/
def deliver (σ : Surface) (dest : Destination) (output : Output) : Surface :=
  { σ with outbox := σ.outbox.push { destination := dest, output } }

/-- Sends a diagnostic, if diagnostics of its level are shown. -/
def diagnose (σ : Surface) (level : Nat) (dest : Destination) (text : String) : Surface :=
  if level ≤ σ.diagnostics then σ.deliver dest (.diagnostic text) else σ

/-- A relation between surfaces that goes on as long as both are written to and set alike. -/
structure Lasting (Q : Surface → Surface → Prop) : Prop where
  deliver : ∀ {σ τ}, Q σ τ → ∀ dest output, Q (σ.deliver dest output) (τ.deliver dest output)
  diagnose : ∀ {σ τ}, Q σ τ → ∀ level dest text,
    Q (σ.diagnose level dest text) (τ.diagnose level dest text)
  setDiagnostics : ∀ {σ τ}, Q σ τ → ∀ level,
    Q { σ with diagnostics := level } { τ with diagnostics := level }

end Surface

namespace Machine

/-- The surface of a machine. -/
def surface (m : Machine) : Surface where
  outbox := m.outbox
  line := m.line
  discarding := m.discarding
  diagnostics := m.diagnostics

/-- The machine with another surface. -/
def withSurface (m : Machine) (σ : Surface) : Machine :=
  { m with
    outbox := σ.outbox
    line := σ.line
    discarding := σ.discarding
    diagnostics := σ.diagnostics }

/-- Two machines that differ in their surfaces alone, and in these as a relation says. -/
def Beside (Q : Surface → Surface → Prop) (m n : Machine) : Prop :=
  n = m.withSurface n.surface ∧ Q m.surface n.surface

variable {Q : Surface → Surface → Prop} {m n : Machine}

/-- One machine is the other with another surface. -/
theorem Beside.exists_eq (beside : m.Beside Q n) :
    ∃ τ, Q m.surface τ ∧ n = m.withSurface τ :=
  ⟨n.surface, beside.2, beside.1⟩

/-- What does not depend on the surface is the same on both. -/
theorem Beside.same {α : Type} (beside : m.Beside Q n) (part : Machine → α)
    (apart : ∀ m τ, part (m.withSurface τ) = part m) : part n = part m := by
  rw [beside.1]
  exact apart m n.surface

/-- A change that has nothing to do with the surface is made to both. -/
theorem Beside.change (beside : m.Beside Q n) (f : Machine → Machine)
    (apart : ∀ m τ, f (m.withSurface τ) = (f m).withSurface τ)
    (surface : ∀ m, (f m).surface = m.surface) : (f m).Beside Q (f n) := by
  constructor
  · calc
      f n = f (m.withSurface n.surface) := congrArg f beside.1
      _ = (f m).withSurface n.surface := apart m n.surface
      _ = (f m).withSurface (f n).surface := by rw [surface n]
  · rw [surface m, surface n]
    exact beside.2

end Machine

namespace Command

variable {α β : Type} {Q : Surface → Surface → Prop}

/-- On two machines side by side a command gives the same, and it leaves them side by side. -/
def Respects (Q : Surface → Surface → Prop) (x : Command α) : Prop :=
  ∀ m n : Machine, m.Beside Q n →
    outcome (x m) = outcome (x n) ∧ (reached (x m)).Beside Q (reached (x n))

theorem respects_pure (a : α) : Respects Q (pure a : Command α) := fun _ _ beside => ⟨rfl, beside⟩

theorem respects_fail (cause : Cause) : Respects Q (Attempt.fail cause : Command α) :=
  fun _ _ beside => ⟨rfl, beside⟩

theorem respects_ofExcept (result : Except Fault α) :
    Respects Q (Attempt.ofExcept result : Command α) := by
  intro m n beside
  cases result <;> exact ⟨rfl, beside⟩

theorem respects_modify {f : Machine → Machine}
    (change : ∀ m n, m.Beside Q n → (f m).Beside Q (f n)) :
    Respects Q (modify f : Command PUnit) := fun m n beside => ⟨rfl, change m n beside⟩

theorem Respects.bind {x : Command α} {next : α → Command β} (first : x.Respects Q)
    (second : ∀ a, (next a).Respects Q) : (x >>= next).Respects Q := by
  intro m n beside
  obtain ⟨same, after⟩ := first m n beside
  rw [bind_apply, bind_apply]
  -- The outcomes are the same, so both go on or both stop.
  obtain ⟨a, k, l, done, done'⟩ | ⟨f, k, l, done, done'⟩ := cases_of_outcome same
  · rw [done, done'] at after ⊢
    exact second a k l after
  · rw [done, done'] at after ⊢
    exact ⟨rfl, after⟩

/-- What depends on the machine, but not on its surface. -/
theorem Respects.get_bind {next : Machine → Command β}
    (apart : ∀ m τ, next (m.withSurface τ) = next m) (second : ∀ m, (next m).Respects Q) :
    (get >>= next).Respects Q := by
  intro m n beside
  obtain ⟨τ, -, rfl⟩ := beside.exists_eq
  change outcome (next m m) = outcome (next (m.withSurface τ) (m.withSurface τ)) ∧
    (reached (next m m)).Beside Q (reached (next (m.withSurface τ) (m.withSurface τ)))
  rw [apart m τ]
  exact second m m _ beside

theorem respects_scanning (x : Scan α) (text : Bytes) : (scanning x text).Respects Q := by
  unfold scanning
  cases x text with
  | ok a rest => exact respects_pure _
  | error f _ => exact respects_ofExcept (.error f)

theorem respects_onVariables (x : Attempt Variables α) : (onVariables x).Respects Q := by
  intro m n beside
  have vars : n.vars = m.vars := beside.same _ fun _ _ => rfl
  have replaced (vars : Variables) :=
    beside.change (fun k => { k with vars }) (fun _ _ => rfl) fun _ => rfl
  unfold onVariables Attempt.on
  rw [vars]
  cases x m.vars with
  | ok a vars' => exact ⟨rfl, replaced vars'⟩
  | error f vars' => exact ⟨rfl, replaced vars'⟩

theorem respects_onStore (x : Attempt Store α) : (onStore x).Respects Q := by
  intro m n beside
  have store : n.store = m.store := beside.same _ fun _ _ => rfl
  have replaced (store : Store) :=
    beside.change (fun k => { k with store }) (fun _ _ => rfl) fun _ => rfl
  unfold onStore Attempt.on
  rw [store]
  cases x m.store with
  | ok a store' => exact ⟨rfl, replaced store'⟩
  | error f store' => exact ⟨rfl, replaced store'⟩

theorem respects_expression (text : Bytes) : (expression text).Respects Q := by
  refine .get_bind (fun _ _ => rfl) fun m => (respects_scanning _ text).bind fun a => ?_
  exact respects_pure a.1

end Command

namespace Machine

open Command

variable {Q : Surface → Surface → Prop} {m n : Machine}

/-- Output goes to both. -/
theorem Beside.deliver (lasting : Surface.Lasting Q) (beside : m.Beside Q n) (dest : Destination)
    (output : Output) : (m.deliver dest output).Beside Q (n.deliver dest output) := by
  obtain ⟨τ, related, rfl⟩ := beside.exists_eq
  exact ⟨rfl, lasting.deliver related dest output⟩

/-- A diagnostic changes the surface alone, and depends on it alone. -/
theorem diagnose_eq (m : Machine) (level : Nat) (dest : Destination) (text : String) :
    m.diagnose level dest text = m.withSurface (m.surface.diagnose level dest text) := by
  unfold diagnose Surface.diagnose
  by_cases shown : level ≤ m.diagnostics
  · rw [if_pos shown, if_pos (show level ≤ m.surface.diagnostics from shown)]
    rfl
  · rw [if_neg shown, if_neg (show ¬level ≤ m.surface.diagnostics from shown)]
    rfl

theorem Beside.diagnose (lasting : Surface.Lasting Q) (beside : m.Beside Q n) (level : Nat)
    (dest : Destination) (text : String) :
    (m.diagnose level dest text).Beside Q (n.diagnose level dest text) := by
  obtain ⟨τ, related, rfl⟩ := beside.exists_eq
  rw [diagnose_eq, diagnose_eq]
  exact ⟨rfl, lasting.diagnose related level dest text⟩

section

variable (lasting : Surface.Lasting Q)
include lasting

theorem respects_write (dest : Destination) (output : Output) : (write dest output).Respects Q :=
  respects_modify fun _ _ beside => beside.deliver lasting dest output

/-- The level is set on both. -/
theorem Beside.setDiagnostics (beside : m.Beside Q n) (level : Nat) :
    (m.setDiagnostics level).Beside Q (n.setDiagnostics level) := by
  obtain ⟨τ, related, rfl⟩ := beside.exists_eq
  exact ⟨rfl, lasting.setDiagnostics related _⟩

theorem Beside.enterState (beside : m.Beside Q n) (state : ProgramState) (dest : Destination) :
    (m.enterState state dest).Beside Q (n.enterState state dest) := by
  have program : n.program = m.program := beside.same _ fun _ _ => rfl
  unfold Machine.enterState
  rw [program]
  split
  · exact beside
  · have entered :=
      beside.change (fun k => { k with program := state }) (fun _ _ => rfl) fun _ => rfl
    exact entered.diagnose lasting 2 dest _

theorem Beside.start (beside : m.Beside Q n) (dest : Destination) :
    (m.start dest).Beside Q (n.start dest) := by
  have placed :=
    beside.change (fun k => { k with pc := 0, owner := dest }) (fun _ _ => rfl) fun _ => rfl
  exact placed.enterState lasting .active dest

theorem Beside.pause (beside : m.Beside Q n) (dest : Destination) :
    (m.pause dest).Beside Q (n.pause dest) := by
  have running : n.isRunning = m.isRunning := beside.same _ fun _ _ => rfl
  unfold Machine.pause
  rw [running]
  split
  · exact beside.enterState lasting .paused dest
  · exact beside

theorem Beside.resume (beside : m.Beside Q n) (dest : Destination) :
    (m.resume dest).Beside Q (n.resume dest) := by
  have program : n.program = m.program := beside.same _ fun _ _ => rfl
  have now : n.now = m.now := beside.same _ fun _ _ => rfl
  have deadline : n.deadline = m.deadline := beside.same _ fun _ _ => rfl
  unfold Machine.resume
  rw [program, now, deadline]
  split
  · exact beside.enterState lasting _ dest
  · exact beside

omit lasting in
theorem respects_jump (label : Bytes) : (Machine.jump label).Respects Q := by
  intro m n beside
  have found : n.store.findLabel? label = m.store.findLabel? label :=
    beside.same (fun k => k.store.findLabel? label) fun _ _ => rfl
  unfold Machine.jump
  rw [bind_apply, bind_apply, get_apply, get_apply]
  dsimp only
  rw [found]
  cases m.store.findLabel? label with
  | none => exact ⟨rfl, beside⟩
  | some offset =>
    have jumped :=
      beside.change (fun k => { k with pc := offset }) (fun _ _ => rfl) fun _ => rfl
    dsimp only
    rw [set_apply, set_apply]
    exact ⟨rfl, jumped⟩

omit lasting in
/-- Both machines have the same coin. -/
theorem respects_coinToss (args : Bytes) : (Machine.coinToss args).Respects Q := by
  refine (respects_scanning _ args).bind fun read => ?_
  obtain ⟨label, rest⟩ := read
  dsimp only
  intro m n beside
  have coin : n.coin = m.coin := beside.same _ fun _ _ => rfl
  have tossed :=
    beside.change (fun k => { k with coin := m.coin.toss }) (fun _ _ => rfl) fun _ => rfl
  rw [bind_apply, bind_apply, get_apply, get_apply]
  dsimp only
  rw [coin, bind_apply, bind_apply, set_apply, set_apply]
  dsimp only
  split
  · exact respects_jump label _ _ tossed
  · exact ⟨rfl, tossed⟩

omit lasting in
theorem respects_branch (outcome : Bool) (args : Bytes) : (Machine.branch outcome args).Respects Q := by
  refine .get_bind (fun _ _ => rfl) fun m => (respects_scanning _ args).bind fun read => ?_
  obtain ⟨⟨holds, label⟩, rest⟩ := read
  dsimp only
  split
  · exact respects_jump label
  · exact respects_pure ()

omit lasting in
theorem respects_delay (args : Bytes) : (Machine.delay args).Respects Q := by
  refine (respects_expression args).bind fun tenths => respects_modify fun m n beside => ?_
  exact beside.change (fun k => { k with
    program := .awaitingDelay, deadline := deadlineAfter k.now tenths }) (fun _ _ => rfl) fun _ => rfl

theorem respects_beginDownload (dest : Destination) : (Machine.beginDownload dest).Respects Q := by
  refine (respects_modify fun m n beside => ?_).bind fun _ => (respects_onStore _).bind fun _ =>
    respects_modify fun m n beside => ?_
  · exact (beside.enterState lasting .stopped dest).change (fun k => { k with filter := .fresh })
      (fun _ _ => rfl) fun _ => rfl
  · have stores :=
      beside.change (fun k => { k with device := .storeProgram }) (fun _ _ => rfl) fun _ => rfl
    exact stores.diagnose lasting 2 dest _

theorem respects_startProgram (dest : Destination) : (Machine.startProgram dest).Respects Q := by
  intro m n beside
  have store : n.store = m.store := beside.same _ fun _ _ => rfl
  unfold Machine.startProgram
  rw [bind_apply, bind_apply, get_apply, get_apply]
  dsimp only
  rw [store]
  split
  · exact ⟨rfl, beside⟩
  · exact ⟨rfl, beside.start lasting dest⟩

theorem respects_clearProgram (dest : Destination) : (Machine.clearProgram dest).Respects Q := by
  refine (respects_modify fun m n beside => ?_).bind fun _ => respects_onStore _
  exact (beside.enterState lasting .stopped dest).change (fun k => { k with pc := 0 })
    (fun _ _ => rfl) fun _ => rfl

omit lasting in
theorem respects_setVariable (args : Bytes) : (Machine.setVariable args).Respects Q := by
  refine .get_bind (fun _ _ => rfl) fun m => (respects_scanning _ args).bind fun read => ?_
  obtain ⟨⟨name, value⟩, rest⟩ := read
  exact (respects_onVariables _).bind fun (slot, _) => respects_onVariables _

theorem respects_viewVariable (args : Bytes) (dest : Destination) :
    (Machine.viewVariable args dest).Respects Q := by
  refine (respects_scanning _ args).bind fun (name, _) =>
    .get_bind (fun _ _ => rfl) fun m => (respects_ofExcept _).bind fun (slot, _) => ?_
  dsimp only
  split
  · exact respects_write lasting _ _
  · exact respects_write lasting _ _

/-- What an opcode does. Only a status tells the level of diagnostics. -/
theorem respects_perform {op : Opcode} (status : op = .status → ∀ {σ τ}, Q σ τ →
    τ.diagnostics = σ.diagnostics) (args : Bytes) (origin : Origin) (dest : Destination) :
    (perform op args origin dest).Respects Q := by
  unfold perform
  split
  · exact respects_fail _
  · cases op with
    | delay => exact respects_delay args
    | label | endDownload | abortDownload | comment => exact respects_pure ()
    | jump => exact (respects_scanning _ args).bind fun _ => respects_jump _
    | coinToss => exact respects_coinToss args
    | jumpIfTrue | jumpIfFalse => exact respects_branch _ args
    | beginDownload => exact respects_beginDownload lasting dest
    | start => exact respects_startProgram lasting dest
    | halt => exact respects_modify fun _ _ beside => beside.enterState lasting .stopped dest
    | pause => exact respects_modify fun _ _ beside => beside.pause lasting dest
    | resume => exact respects_modify fun _ _ beside => beside.resume lasting dest
    | clearProgram => exact respects_clearProgram lasting dest
    | clearVariables =>
      exact respects_modify fun _ _ beside =>
        beside.change (fun k => { k with vars := k.vars.clear }) (fun _ _ => rfl) fun _ => rfl
    | setVariable => exact respects_setVariable args
    | viewVariable => exact respects_viewVariable lasting args dest
    | writeText | writeLine | version => exact respects_write lasting _ _
    | writeValue => exact (respects_expression args).bind fun _ => respects_write lasting _ _
    | status =>
      refine respects_modify fun m n beside => ?_
      obtain ⟨τ, related, rfl⟩ := beside.exists_eq
      have same : (m.withSurface τ).status = m.status := by
        have level : (m.withSurface τ).diagnostics = m.diagnostics := status rfl related
        unfold Machine.status
        rw [level]
        rfl
      rw [same]
      exact beside.deliver lasting dest _
    | diagnostics =>
      exact (respects_expression args).bind fun _ =>
        respects_modify fun _ _ beside => beside.setDiagnostics lasting _

/-- A statement that is executed. -/
theorem Beside.execute {statement : Bytes} (status : Opcode.ofStatement? statement = some .status →
    ∀ {σ τ}, Q σ τ → τ.diagnostics = σ.diagnostics) (beside : m.Beside Q n) (origin : Origin)
    (dest : Destination) :
    (m.execute statement origin dest).Beside Q (n.execute statement origin dest) := by
  have traced := beside.diagnose lasting 3 dest (Utf8.decode statement)
  unfold Machine.execute
  dsimp only
  -- Traced or not, the machines are side by side, and that is all that matters from here on.
  generalize m.diagnose 3 dest (Utf8.decode statement) = k at traced
  generalize n.diagnose 3 dest (Utf8.decode statement) = l at traced
  cases named : Opcode.ofStatement? statement with
  | none => exact traced
  | some op =>
    have performed := respects_perform lasting (fun same => status (same ▸ named))
      (statement.drop 2) origin dest k l traced
    dsimp only
    obtain ⟨same, after⟩ := performed
    obtain ⟨_, k', l', done, done'⟩ | ⟨f, k', l', done, done'⟩ := cases_of_outcome same
    · rw [done, done'] at after ⊢
      exact after
    · rw [done, done'] at after ⊢
      exact after.diagnose lasting 1 dest _

/-- A statement of the program, or its end. -/
theorem Beside.executeNext (beside : m.Beside Q n)
    (status : ∀ fetched, m.store.fetch? m.pc m.limits.statementLength = some fetched →
      fetched.truncated = false → Opcode.ofStatement? fetched.text = some .status →
        ∀ {σ τ}, Q σ τ → τ.diagnostics = σ.diagnostics) :
    m.executeNext.Beside Q n.executeNext := by
  obtain ⟨τ, related, rfl⟩ := beside.exists_eq
  have fetches : (m.withSurface τ).store.fetch? (m.withSurface τ).pc
      (m.withSurface τ).limits.statementLength = m.store.fetch? m.pc m.limits.statementLength := rfl
  unfold Machine.executeNext
  rw [fetches]
  cases found : m.store.fetch? m.pc m.limits.statementLength with
  | none => exact beside.enterState lasting .stopped m.owner
  | some fetched =>
    have moved :=
      beside.change (fun k => { k with pc := fetched.next }) (fun _ _ => rfl) fun _ => rfl
    dsimp only
    cases long : fetched.truncated with
    | true => exact moved.diagnose lasting 1 m.owner _
    | false => exact moved.execute lasting (status fetched found long) .program m.owner

/-- A tick. -/
theorem Beside.tick (beside : m.Beside Q n)
    (status : m.IsDue → ∀ fetched, m.store.fetch? m.pc m.limits.statementLength = some fetched →
      fetched.truncated = false → Opcode.ofStatement? fetched.text = some .status →
        ∀ {σ τ}, Q σ τ → τ.diagnostics = σ.diagnostics) :
    m.tick.Beside Q n.tick := by
  have same : n.IsDue = m.IsDue := beside.same _ fun _ _ => rfl
  by_cases due : m.IsDue
  · rw [tick_of_isDue due, tick_of_isDue (same ▸ due)]
    have woken :=
      beside.change (fun k => { k with program := .active }) (fun _ _ => rfl) fun _ => rfl
    exact woken.executeNext lasting (status due)
  · rw [tick_of_not_isDue due, tick_of_not_isDue (same ▸ due)]
    exact beside

end

end Machine

end ControlScript
