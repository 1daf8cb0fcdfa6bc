import ControlScript.Proofs.Apart
import ControlScript.Proofs.Effects
import ControlScript.Proofs.Emission
import ControlScript.Proofs.Filtering

/-!
# Safety

Whatever happens to a machine, in any order, whether saving its store fails or not: its program does
not run while another one is stored, it runs only if it may, and it goes on only where a statement
starts. A change of the store stops the program, but for the end of a download, which starts it.

A line of script is received as some statements. Between two bytes of them the store may be half
written; so what is shown of a byte is that a change of the store leaves nothing that may be started,
until a download is completed. Only the last statement of a line can do that.

## Main definitions

* `Event`, `Machine.meet`, `Machine.meetAll` — what can happen to a machine
* `Machine.Always` — what is asked of each event of a run
* `Machine.Safe` — what holds of a machine at all times
* `Machine.Tame` — how a machine changes unless a download is completed
* `Machine.Completes` — some bytes complete a download

## Main results

* `Machine.Safe.receive`, `Machine.Safe.tick` — one byte, and one tick
* `Machine.Safe.orderly` — the statements of a line
* `Machine.safe_meetAll` — everything that can happen
-/

namespace ControlScript

open Attempt DownloadFilter

/-- What can happen to a machine. -/
inductive Event where
  /-- A line of script is entered. -/
  | line (text : String)
  | byte (b : UInt8) (dest : Destination)
  | tick
  | interrupt
  | diagnostics (level : Nat)
  /-- The clock is set. -/
  | clock (time : Nat)
  /-- The readings are renewed. -/
  | readings (readings : Readings)
deriving DecidableEq, Repr

namespace DownloadFilter

variable {f : DownloadFilter} {s : Store} {b : UInt8}

/-- What comes of a byte of a download. -/
inductive Processed (b : UInt8) (f : DownloadFilter) (s : Store) :
    EStateM.Result Fault (DownloadFilter × Store) Outcome → Prop
  | more {f' : DownloadFilter} {s' : Store} (same : s'.valid = s.valid) :
    Processed b f s (.ok .more (f', s'))
  | aborted {f' : DownloadFilter} {s' : Store} (invalid : s'.valid = false) :
    Processed b f s (.ok .aborted (f', s'))
  | error {fault : Fault} {f' : DownloadFilter} {s' : Store} :
    Processed b f s (.error fault (f', s'))
  /-- Only an `X` behind an `R` completes a download. -/
  | finished {f' : DownloadFilter} {s' : Store} (valid : s'.valid = true)
    (place : f.place = .gotR) (last : Byte.spells 'X' b = true) :
    Processed b f s (.ok .finished (f', s'))

theorem processed_keep (b : UInt8) (f f' : DownloadFilter) (s : Store) :
    Processed b f s (keep b (f', s)) := by
  unfold keep Store.append
  dsimp only
  split
  · exact .more rfl
  · split
    · next kept =>
      split at kept
      · cases kept
      · cases kept
        exact .more rfl
    · exact .error

theorem processed_abort (b : UInt8) (f f' : DownloadFilter) (s : Store) :
    Processed b f s (abort (f', s)) := by
  have invalid := Store.valid_clear s
  unfold abort conclude
  dsimp only
  cases cleared : Store.clear s with
  | ok _ store =>
    rw [cleared] at invalid
    exact .aborted invalid
  | error fault store => exact .error

theorem processed_finish (place : f.place = .gotR) (last : Byte.spells 'X' b = true) (s : Store) :
    Processed b f s (finish (f, s)) := by
  have valid : (reached (Store.finishDownload s)).valid = true := by
    rw [Store.reached_finishDownload]
  unfold finish conclude
  dsimp only
  cases finished : Store.finishDownload s with
  | ok _ store =>
    rw [finished] at valid
    exact .finished valid place last
  | error fault store => exact .error

/-- What comes of any byte of a download. -/
theorem processed_process (b : UInt8) (f : DownloadFilter) (s : Store) :
    Processed b f s (process b (f, s)) := by
  by_cases counts : Byte.counts b = true
  · rw [process_of_counts counts]
    cases place : f.place with
    | lineStart =>
      dsimp only
      split
      · exact .more rfl
      · split
        · exact .more rfl
        · exact processed_keep b f _ s
    | gotR =>
      dsimp only
      split
      · next last =>
        split
        · exact processed_abort b f f s
        · exact processed_finish place last s
      · split
        · exact processed_abort b f f s
        · exact .more rfl
    | storing => exact processed_keep b f _ s
    | skipping => exact .more rfl
  · rw [process_of_dropped (by simpa using counts)]
    exact .more rfl

/-- The filter is in a line that does not end the download. -/
def Deaf (f : DownloadFilter) : Prop := f.place = .storing ∨ f.place = .skipping

/-- Keeping a byte leaves the filter where it is in its line. -/
theorem exists_of_keep (b : UInt8) (f : DownloadFilter) (s : Store) : ∃ f' s',
    (keep b (f, s) = .ok .more (f', s') ∨ ∃ fault, keep b (f, s) = .error fault (f', s')) ∧
      f'.place = f.place := by
  unfold keep
  dsimp only
  split
  · exact ⟨f, s, .inl rfl, rfl⟩
  · split
    · exact ⟨f, _, .inl rfl, rfl⟩
    · exact ⟨_, _, .inr ⟨_, rfl⟩, rfl⟩

/-- A byte inside a line that does not end the download, or one that starts such a line, leaves the
filter in it. -/
theorem exists_deaf (plain : Byte.isControl b = false)
    (inside : Deaf f ∨ b ∈ Instruction.innerHeads) (s : Store) : ∃ f' s',
      (process b (f, s) = .ok .more (f', s') ∨ ∃ fault, process b (f, s) = .error fault (f', s')) ∧
        Deaf f' := by
  have counts : Byte.counts b = true := by simp [Byte.counts, plain]
  have goesOn : b ≠ Byte.statementEnd := (Byte.ne_of_not_isControl plain).2
  have kept (place : DownloadPlace) (deaf : place = .storing ∨ place = .skipping) : ∃ f' s',
      (keep b ({ f with place }, s) = .ok .more (f', s') ∨
        ∃ fault, keep b ({ f with place }, s) = .error fault (f', s')) ∧ Deaf f' := by
    obtain ⟨f', s', result, same⟩ := exists_of_keep b { f with place } s
    exact ⟨f', s', result, by rwa [Deaf, same]⟩
  have heads : b ∈ Instruction.innerHeads → Byte.spells 'R' b = false ∧
      Byte.spells 'X' b = false ∧ Byte.spells 'A' b = false := by
    have all : ∀ b ∈ Instruction.innerHeads, Byte.spells 'R' b = false ∧
      Byte.spells 'X' b = false ∧ Byte.spells 'A' b = false := by decide +kernel
    exact all b
  rw [process_of_counts counts]
  cases place : f.place with
  | lineStart =>
    obtain ⟨r, -, -⟩ := heads (inside.resolve_left (by simp [Deaf, place]))
    simpa [r, goesOn] using kept .storing (.inl rfl)
  | gotR =>
    obtain ⟨-, x, a⟩ := heads (inside.resolve_left (by simp [Deaf, place]))
    exact ⟨{ f with place := .skipping }, s, .inl (by simp [x, a, goesOn, placeAfter]), .inr rfl⟩
  | storing => simpa [placeAfter, goesOn] using kept .storing (.inl rfl)
  | skipping =>
    exact ⟨{ f with place := .skipping }, s, .inl (by simp [goesOn, placeAfter]), .inr rfl⟩

end DownloadFilter

namespace Machine

/-- The machine after an event. -/
def meet (m : Machine) : Event → Machine
  | .line text => (m.enter text).1
  | .byte b dest => m.receive b dest
  | .tick => m.tick
  | .interrupt => m.interrupt
  | .diagnostics level => m.setDiagnostics level
  | .clock time => m.setClock time
  | .readings readings => { m with readings }

/-- The machine after event after event. -/
def meetAll (m : Machine) (events : List Event) : Machine := events.foldl meet m

/-- Each event of a run is as asked for, at the machine that meets it. -/
def Always (P : Machine → Event → Prop) : Machine → List Event → Prop
  | _, [] => True
  | m, e :: events => P m e ∧ (m.meet e).Always P events

instance decidableAlways (P : Machine → Event → Prop) [∀ m e, Decidable (P m e)] :
    (m : Machine) → (events : List Event) → Decidable (m.Always P events)
  | _, [] => .isTrue trivial
  | m, e :: events =>
    have := decidableAlways P (m.meet e) events
    inferInstanceAs (Decidable (_ ∧ _))

/-- What holds of a machine at all times. -/
structure Safe (m : Machine) : Prop where
  storing : m.device = .storeProgram → m.store.valid = false
  running : m.program ≠ .stopped → m.store.valid = true ∧ m.store.IsStart m.pc
  line : m.line.length ≤ m.limits.statementLength

/-- How a machine changes unless a download is completed: if the store changes, nothing is left that
runs or may be started, and this stays so. -/
structure Tame (m n : Machine) : Prop where
  limits : n.limits = m.limits
  changed : n.store.region = m.store.region ∨ n.program = .stopped ∧ n.store.valid = false
  empty : m.program = .stopped → m.store.valid = false →
    n.program = .stopped ∧ n.store.valid = false

/-- Some bytes complete a download, and with what follows the store stays as it is then. -/
def Completes (m : Machine) (bytes : Bytes) (dest : Destination) : Prop :=
  ∃ before b after filter store, bytes = before ++ b :: after ∧
    (m.receiveAll before dest).device = .storeProgram ∧
    DownloadFilter.process b
        ((m.receiveAll before dest).filter, (m.receiveAll before dest).store) =
      .ok .finished (filter, store) ∧
    (m.receiveAll bytes dest).store = store

/-- An event completes a download. -/
def CompletedBy (m : Machine) : Event → Prop
  | .line text =>
    let compiled := m.compiler.compileLine m.vars m.readings text
    (m.renewed compiled.compiler compiled.vars).Completes (Instruction.encode compiled.emitted)
      console
  | .byte b dest => m.Completes [b] dest
  | _ => False

/-- The program has just been started, because a download was completed. -/
structure Begun (completes : Prop) (m n : Machine) : Prop where
  limits : n.limits = m.limits
  program : n.program = .active
  pc : n.pc = 0
  completes : completes

/-- A byte has completed a download, and the program was started. -/
structure Completed (m : Machine) (b : UInt8) (n : Machine) : Prop where
  limits : n.limits = m.limits
  device : m.device = .storeProgram
  processed : ∃ filter,
    DownloadFilter.process b (m.filter, m.store) = .ok .finished (filter, n.store)
  ended : n.device = .executeImmediately
  discarding : n.discarding = true
  program : n.program = .active
  pc : n.pc = 0

variable {k m n : Machine} {b : UInt8} {dest : Destination}

theorem Tame.refl (m : Machine) : Tame m m := ⟨rfl, .inl rfl, fun stopped invalid => ⟨stopped, invalid⟩⟩

theorem Tame.trans (first : Tame k m) (second : Tame m n) : Tame k n where
  limits := second.limits.trans first.limits
  changed := by
    rcases second.changed with same | emptied
    · rcases first.changed with same' | ⟨stopped, invalid⟩
      · exact .inl (same.trans same')
      · exact .inr (second.empty stopped invalid)
    · exact .inr emptied
  empty stopped invalid := by
    obtain ⟨stopped', invalid'⟩ := first.empty stopped invalid
    exact second.empty stopped' invalid'

namespace Safe

/-- While a program is stored, none runs. -/
theorem stopped (safe : m.Safe) (device : m.device = .storeProgram) : m.program = .stopped := by
  by_contra running
  have valid := (safe.running running).1
  rw [safe.storing device] at valid
  cases valid

/-- What a statement does is safe. A statement of the program is executed only while that runs. -/
theorem executed {origin : Origin} (safe : m.Safe) (executed : Executed origin m n)
    (runs : origin = .program → m.program ≠ .stopped) : n.Safe ∧ Tame m n := by
  cases executed with
  | steered steered =>
    -- A statement that only steers starts nothing: what runs afterwards ran before.
    have wakes (running : n.program ≠ .stopped) : m.program ≠ .stopped := by
      cases origin with
      | live => exact fun stopped => running (steered.program rfl stopped)
      | program => exact runs rfl
    refine ⟨⟨?_, ?_, ?_⟩, steered.limits, .inl (congrArg Store.region steered.store), ?_⟩
    · rw [steered.device, steered.store]
      exact safe.storing
    · intro running
      obtain ⟨valid, start⟩ := safe.running (wakes running)
      rw [steered.store]
      refine ⟨valid, ?_⟩
      rcases steered.pc with same | start'
      · rwa [same]
      · exact start'
    · rw [steered.line, steered.limits]
      exact safe.line
    · intro stopped invalid
      rw [steered.store]
      exact ⟨not_not.mp fun running => wakes running stopped, invalid⟩
  | started valid start steered =>
    refine ⟨⟨?_, ?_, ?_⟩, steered.limits, .inl (congrArg Store.region steered.store), ?_⟩
    · rw [steered.device, steered.store]
      exact safe.storing
    · rw [steered.store]
      exact fun _ => ⟨valid, start⟩
    · rw [steered.line, steered.limits]
      exact safe.line
    · intro stopped invalid
      cases invalid.symm.trans valid
  | removed removed =>
    refine ⟨⟨fun _ => removed.invalid, fun running => absurd removed.stopped running, ?_⟩,
      removed.limits, .inr ⟨removed.stopped, removed.invalid⟩,
      fun _ _ => ⟨removed.stopped, removed.invalid⟩⟩
    rw [removed.line, removed.limits]
    exact safe.line

/-- A byte of a download: it is completed, or if the store changes nothing may be started. -/
theorem download (safe : m.Safe) (device : m.device = .storeProgram) (b : UInt8)
    (dest : Destination) :
    (m.download b dest).Safe ∧
      (Tame m (m.download b dest) ∨ Completed m b (m.download b dest)) := by
  have stopped := safe.stopped device
  -- What is left when the download goes on, is given up or meets a fault.
  have left (filter : DownloadFilter) (store : Store) (device : DeviceState) (discarding : Bool)
      (invalid : store.valid = false) :
      Safe { m with filter, store, device, discarding } ∧
        Tame m { m with filter, store, device, discarding } :=
    ⟨⟨fun _ => invalid, fun running => absurd stopped running, safe.line⟩,
      rfl, .inr ⟨stopped, invalid⟩, fun _ _ => ⟨stopped, invalid⟩⟩
  have shown {n : Machine} (kept : n.Safe ∧ Tame m n) (level : Nat) (text : String) :
      (n.diagnose level dest text).Safe ∧ Tame m (n.diagnose level dest text) := by
    obtain ⟨outbox, shown⟩ := exists_diagnose_eq n level dest text
    rw [shown]
    exact ⟨{ kept.1 with }, { kept.2 with }⟩
  have processed := processed_process b m.filter m.store
  unfold Machine.download
  cases result : process b (m.filter, m.store) with
  | ok outcome after =>
    rw [result] at processed
    cases processed with
    | @more filter store same =>
      have kept := left filter store m.device m.discarding (same.trans (safe.storing device))
      exact ⟨kept.1, .inl kept.2⟩
    | @aborted filter store invalid =>
      have kept := shown (left filter store .executeImmediately true invalid) 2 "DOWNLOAD ABORTED"
      exact ⟨kept.1, .inl kept.2⟩
    | @finished filter store valid _ _ =>
      obtain ⟨outbox, started⟩ := exists_start_eq { m with
        filter, store, device := .executeImmediately, discarding := true } dest "DOWNLOAD COMPLETE"
      dsimp only
      rw [started]
      exact ⟨⟨fun stores => (by cases stores), fun _ => ⟨valid, .base⟩, safe.line⟩,
        .inr ⟨rfl, device, ⟨filter, result⟩, rfl, rfl, rfl, rfl⟩⟩
  | error f after =>
    obtain ⟨filter, store⟩ := after
    have kept := left filter (reached (Store.clear store)) m.device m.discarding
      (Store.valid_clear store)
    have reported := shown kept 1 f.render
    dsimp only
    split
    · exact ⟨reported.1, .inl reported.2⟩
    · next f' _ =>
      have again := shown reported 1 f'.render
      exact ⟨again.1, .inl again.2⟩

/-- A byte of a statement. -/
theorem assemble (safe : m.Safe) (b : UInt8) (dest : Destination) :
    (m.assemble b dest).Safe ∧ Tame m (m.assemble b dest) := by
  have next : Safe { m with line := [], discarding := false } :=
    ⟨safe.storing, safe.running, Nat.zero_le _⟩
  have same : Tame m { m with line := [], discarding := false } :=
    ⟨rfl, .inl rfl, fun stopped invalid => ⟨stopped, invalid⟩⟩
  unfold Machine.assemble
  split
  · dsimp only
    split
    · exact ⟨next, same⟩
    · obtain ⟨safe', tame⟩ := next.executed (.execute _ m.line .live dest) nofun
      exact ⟨safe', same.trans tame⟩
  · split
    · exact ⟨safe, .refl m⟩
    · split
      · have dropped : Safe { m with line := [], discarding := true } :=
          ⟨safe.storing, safe.running, Nat.zero_le _⟩
        obtain ⟨outbox, shown⟩ := exists_diagnose_eq { m with line := [], discarding := true } 1 dest
          (Fault.of .statementTooLong).render
        rw [report, shown]
        exact ⟨{ dropped with }, rfl, .inl rfl, fun stopped invalid => ⟨stopped, invalid⟩⟩
      · next room =>
        refine ⟨⟨safe.storing, safe.running, ?_⟩, rfl, .inl rfl,
          fun stopped invalid => ⟨stopped, invalid⟩⟩
        simp only [List.length_append, List.length_singleton]
        omega

/-- A byte that comes in. -/
theorem receive (safe : m.Safe) (b : UInt8) (dest : Destination) :
    (m.receive b dest).Safe ∧ (Tame m (m.receive b dest) ∨ Completed m b (m.receive b dest)) := by
  unfold Machine.receive
  cases device : m.device with
  | storeProgram => exact safe.download device b dest
  | executeImmediately =>
    obtain ⟨safe', tame⟩ := safe.assemble b dest
    exact ⟨safe', .inl tame⟩

/-- A statement of the program, or its end. -/
theorem executeNext (safe : m.Safe) (running : m.program ≠ .stopped) :
    m.executeNext.Safe ∧ Tame m m.executeNext := by
  obtain ⟨valid, start⟩ := safe.running running
  unfold Machine.executeNext
  cases fetched : m.store.fetch? m.pc m.limits.statementLength with
  | none =>
    obtain ⟨outbox, stopped⟩ := exists_enterState_eq m .stopped m.owner
    dsimp only
    rw [stopped]
    exact ⟨⟨safe.storing, fun running => absurd rfl running, safe.line⟩, rfl, .inl rfl,
      fun _ invalid => ⟨rfl, invalid⟩⟩
  | some fetched' =>
    have next : Safe { m with pc := fetched'.next } :=
      ⟨safe.storing, fun _ => ⟨valid, .next start fetched⟩, safe.line⟩
    have same : Tame m { m with pc := fetched'.next } :=
      ⟨rfl, .inl rfl, fun stopped invalid => ⟨stopped, invalid⟩⟩
    dsimp only
    split
    · obtain ⟨outbox, shown⟩ := exists_diagnose_eq { m with pc := fetched'.next } 1 m.owner
        (Fault.of .statementTooLong).render
      rw [report, shown]
      exact ⟨{ next with }, { same with }⟩
    · obtain ⟨safe', tame⟩ := next.executed (.execute _ fetched'.text .program m.owner)
        fun _ => running
      exact ⟨safe', same.trans tame⟩

/-- A tick. -/
theorem tick (safe : m.Safe) : m.tick.Safe ∧ Tame m m.tick := by
  unfold Machine.tick
  cases state : m.program with
  | stopped | paused => exact ⟨safe, .refl m⟩
  | active => exact safe.executeNext (by simp [state])
  | awaitingDelay =>
    have running := safe.running (by simp [state])
    have woken : Safe { m with program := .active } :=
      ⟨safe.storing, fun _ => running, safe.line⟩
    dsimp only
    split
    · exact ⟨safe, .refl m⟩
    · obtain ⟨safe', tame⟩ := woken.executeNext (by simp)
      refine ⟨safe', tame.limits, tame.changed, fun stopped => ?_⟩
      cases state.symm.trans stopped

end Safe

theorem device_report (m : Machine) (dest : Destination) (f : Fault) :
    (m.report dest f).device = m.device := by
  obtain ⟨outbox, shown⟩ := exists_diagnose_eq m 1 dest f.render
  rw [report, shown]

theorem Completes.cons {bytes : Bytes} (later : (m.receive b dest).Completes bytes dest) :
    m.Completes (b :: bytes) dest := by
  obtain ⟨before, c, after, filter, store, rfl, completed⟩ := later
  exact ⟨b :: before, c, after, filter, store, rfl, completed⟩

theorem Completes.append {bytes : Bytes} (before : Bytes)
    (later : (m.receiveAll before dest).Completes bytes dest) :
    m.Completes (before ++ bytes) dest := by
  induction before generalizing m with
  | nil => exact later
  | cons b before ih => exact (ih later).cons

namespace Safe

/-- Whatever stands in a statement, at most one download is completed by it, and what follows in the
statement is dropped. -/
theorem statement {text : Bytes} (safe : m.Safe) (plain : ∀ b ∈ text, Byte.isControl b = false)
    (dest : Destination) :
    let n := m.receiveAll (text ++ [Byte.statementEnd]) dest
    n.Safe ∧ (Tame m n ∨ Begun (m.Completes (text ++ [Byte.statementEnd]) dest) m n) := by
  induction text generalizing m with
  | nil =>
    obtain ⟨safe', tame | completed⟩ := safe.receive Byte.statementEnd dest
    · exact ⟨safe', .inl tame⟩
    · obtain ⟨filter, processed⟩ := completed.processed
      exact ⟨safe', .inr ⟨completed.limits, completed.program, completed.pc, [], Byte.statementEnd,
        [], filter, _, rfl, completed.device, processed, rfl⟩⟩
  | cons b text ih =>
    obtain ⟨safe', tame | completed⟩ := safe.receive b dest
    · obtain ⟨safe'', later⟩ := ih safe' fun c member => plain c (List.mem_cons_of_mem b member)
      refine ⟨safe'', ?_⟩
      rcases later with tame' | ⟨limits, program, pc, completes⟩
      · exact .inl (tame.trans tame')
      · exact .inr ⟨limits.trans tame.limits, program, pc, completes.cons⟩
    · obtain ⟨filter, processed⟩ := completed.processed
      have rest : m.receiveAll (b :: text ++ [Byte.statementEnd]) dest =
          { m.receive b dest with line := [], discarding := false } :=
        receiveAll_of_discarding completed.ended completed.discarding
          (fun c member => plain c (List.mem_cons_of_mem b member)) dest
      dsimp only
      rw [rest]
      refine ⟨⟨safe'.storing, safe'.running, Nat.zero_le _⟩, .inr ⟨completed.limits,
        completed.program, completed.pc, [], b, text ++ [Byte.statementEnd], filter, _, rfl,
        completed.device, processed, ?_⟩⟩
      rw [rest]

/-- A byte inside a line that does not end a download, or one that starts such a line. -/
theorem deaf (safe : m.Safe) (plain : Byte.isControl b = false)
    (inside : m.device = .storeProgram → Deaf m.filter ∨ b ∈ Instruction.innerHeads)
    (dest : Destination) :
    let n := m.receive b dest
    n.Safe ∧ Tame m n ∧ (n.device = .storeProgram → Deaf n.filter) := by
  obtain ⟨safe', happens⟩ := safe.receive b dest
  cases device : m.device with
  | executeImmediately =>
    have tame : Tame m (m.receive b dest) := happens.resolve_right fun completed => by
      cases device.symm.trans completed.device
    have same : (m.receive b dest).device = .executeImmediately := by
      have inLine := (Byte.ne_of_not_isControl plain).2
      simp only [Machine.receive, device, Machine.assemble, inLine, if_false]
      split
      · exact device
      · split
        · exact device_report _ _ _
        · rfl
    exact ⟨safe', tame, fun stores => by cases same.symm.trans stores⟩
  | storeProgram =>
    obtain ⟨filter, store, result, deaf⟩ := exists_deaf plain (inside device) m.store
    have tame : Tame m (m.receive b dest) := happens.resolve_right fun completed => by
      obtain ⟨_, processed⟩ := completed.processed
      rcases result with more | ⟨fault, error⟩
      · cases more.symm.trans processed
      · cases error.symm.trans processed
    refine ⟨safe', tame, fun _ => ?_⟩
    obtain ⟨store', outbox, kept⟩ := exists_download_of_goesOn result dest
    have same : (m.receive b dest).filter = filter := by
      rw [Machine.receive, device]
      exact congrArg Machine.filter kept
    rwa [same]

/-- The rest of a line that does not end a download. -/
theorem deafAll {text : Bytes} (safe : m.Safe) (plain : ∀ b ∈ text, Byte.isControl b = false)
    (inside : m.device = .storeProgram → Deaf m.filter) (dest : Destination) :
    let n := m.receiveAll text dest
    n.Safe ∧ Tame m n ∧ (n.device = .storeProgram → Deaf n.filter) := by
  induction text generalizing m with
  | nil => exact ⟨safe, .refl m, inside⟩
  | cons b text ih =>
    obtain ⟨safe', tame, inside'⟩ :=
      safe.deaf (plain b List.mem_cons_self) (fun device => .inl (inside device)) dest
    obtain ⟨safe'', tame', inside''⟩ :=
      ih safe' (fun c member => plain c (List.mem_cons_of_mem b member)) inside'
    exact ⟨safe'', tame.trans tame', inside''⟩

/-- A byte that is no `X` does not complete a download. -/
theorem noX (safe : m.Safe) (other : Byte.spells 'X' b = false) (dest : Destination) :
    (m.receive b dest).Safe ∧ Tame m (m.receive b dest) := by
  obtain ⟨safe', happens⟩ := safe.receive b dest
  refine ⟨safe', happens.resolve_right fun completed => ?_⟩
  obtain ⟨_, result⟩ := completed.processed
  have processed := processed_process b m.filter m.store
  rw [result] at processed
  cases processed with
  | finished _ _ last => cases other.symm.trans last

/-- A statement that cannot complete a download. -/
theorem inner {i : Instruction} (safe : m.Safe) (proper : i.Proper) (inner : i.Inner)
    (dest : Destination) :
    let n := m.receiveAll (i.text ++ [Byte.statementEnd]) dest
    n.Safe ∧ Tame m n := by
  have last {n : Machine} (safe : n.Safe) := safe.noX (b := Byte.statementEnd) (by decide) dest
  rcases inner with rfl | head
  · -- None of its bytes is an `X`.
    obtain ⟨first, tame⟩ := safe.noX (b := 0x52) (by decide) dest
    obtain ⟨second, tame'⟩ := first.noX (b := 0x41) (by decide) dest
    obtain ⟨third, tame''⟩ := last second
    exact ⟨third, tame.trans (tame'.trans tame'')⟩
  · obtain ⟨b, text, split⟩ := List.exists_cons_of_ne_nil proper.text_ne_nil
    have plain := proper.plain
    rw [split] at head plain ⊢
    have starts : b ∈ Instruction.innerHeads := by simpa using head
    obtain ⟨first, tame, inside⟩ :=
      safe.deaf (plain b List.mem_cons_self) (fun _ => .inr starts) dest
    obtain ⟨rest, tame', -⟩ :=
      first.deafAll (fun c member => plain c (List.mem_cons_of_mem b member)) inside dest
    obtain ⟨whole, tame''⟩ := last rest
    have parts : m.receiveAll (b :: text ++ [Byte.statementEnd]) dest =
        ((m.receive b dest).receiveAll text dest).receive Byte.statementEnd dest := by
      rw [receiveAll_append]
      rfl
    dsimp only
    rw [parts]
    exact ⟨whole, tame.trans (tame'.trans tame'')⟩

/-- Statements that cannot complete a download. -/
theorem innerAll {code : List Instruction} (safe : m.Safe) (proper : ∀ i ∈ code, i.Proper)
    (inner : ∀ i ∈ code, i.Inner) (dest : Destination) :
    let n := m.receiveAll (Instruction.encode code) dest
    n.Safe ∧ Tame m n := by
  induction code generalizing m with
  | nil => exact ⟨safe, .refl m⟩
  | cons i code ih =>
    obtain ⟨first, tame⟩ :=
      safe.inner (proper i List.mem_cons_self) (inner i List.mem_cons_self) dest
    obtain ⟨rest, tame'⟩ := ih first (fun j member => proper j (List.mem_cons_of_mem i member))
      fun j member => inner j (List.mem_cons_of_mem i member)
    have parts : m.receiveAll (Instruction.encode (i :: code)) dest =
        (m.receiveAll (i.text ++ [Byte.statementEnd]) dest).receiveAll (Instruction.encode code)
          dest := by
      rw [← receiveAll_append, List.append_assoc]
      exact congrArg (m.receiveAll · dest) (Instruction.encode_cons i code)
    dsimp only
    rw [parts]
    exact ⟨rest, tame.trans tame'⟩

/-- The statements of a line. -/
theorem orderly {code : List Instruction} (safe : m.Safe) (orderly : Instruction.Orderly code)
    (dest : Destination) :
    let n := m.receiveAll (Instruction.encode code) dest
    n.Safe ∧ (Tame m n ∨ Begun (m.Completes (Instruction.encode code) dest) m n) := by
  obtain ⟨proper, first, last, rfl, short, inner⟩ := orderly
  obtain ⟨proper, proper'⟩ := List.forall_mem_append.mp proper
  obtain ⟨safe', tame⟩ := safe.innerAll proper inner dest
  dsimp only
  rw [Instruction.encode_append, receiveAll_append]
  cases last with
  | nil => exact ⟨safe', .inl tame⟩
  | cons i rest =>
    obtain rfl : rest = [] := by simpa using short
    have one : Instruction.encode [i] = i.text ++ [Byte.statementEnd] := by
      simp [Instruction.encode]
    obtain ⟨safe'', happens⟩ := safe'.statement (proper' i List.mem_cons_self).plain dest
    rw [one]
    refine ⟨safe'', ?_⟩
    rcases happens with tame' | ⟨limits, program, pc, completes⟩
    · exact .inl (tame.trans tame')
    · exact .inr ⟨limits.trans tame.limits, program, pc, completes.append _⟩

/-- Whatever happens to a machine, it is safe again. If its store changes, its program stops, or a
download is completed. -/
theorem meet (safe : m.Safe) (e : Event) :
    (m.meet e).Safe ∧ (Tame m (m.meet e) ∨ Begun (m.CompletedBy e) m (m.meet e)) := by
  cases e with
  | line text =>
    let compiled := m.compiler.compileLine m.vars m.readings text
    have renewed : (m.renewed compiled.compiler compiled.vars).Safe := { safe with }
    obtain ⟨safe', happens⟩ := renewed.orderly
      (Compiler.orderly_emitted m.compiler m.vars m.readings text) console
    have entered : m.meet (.line text) = (m.renewed compiled.compiler compiled.vars).receiveAll
        (Instruction.encode compiled.emitted) console := rfl
    rw [entered]
    -- What came in no longer matters, but for the machine that it has left.
    generalize Machine.receiveAll _ _ console = n at safe' happens ⊢
    exact ⟨safe', happens.imp (fun tame => { tame with }) fun begun => { begun with }⟩
  | byte b dest =>
    obtain ⟨safe', happens⟩ := safe.receive b dest
    refine ⟨safe', happens.imp_right fun completed => ?_⟩
    obtain ⟨filter, processed⟩ := completed.processed
    exact ⟨completed.limits, completed.program, completed.pc, [], b, [], filter, _, rfl,
      completed.device, processed, rfl⟩
  | tick => exact ⟨safe.tick.1, .inl safe.tick.2⟩
  | interrupt =>
    obtain ⟨outbox, stopped⟩ := exists_enterState_eq m .stopped m.owner
    simp only [Machine.meet, interrupt, stopped]
    exact ⟨⟨safe.storing, fun running => absurd rfl running, safe.line⟩,
      .inl ⟨rfl, .inl rfl, fun _ invalid => ⟨rfl, invalid⟩⟩⟩
  | diagnostics level => exact ⟨{ safe with }, .inl { Tame.refl m with }⟩
  | clock time => exact ⟨{ safe with }, .inl { Tame.refl m with }⟩
  | readings readings => exact ⟨{ safe with }, .inl { Tame.refl m with }⟩

/-- A machine is safe from the start: it executes what comes in, and runs no program. -/
theorem opened (limits : Limits) (region : Bytes) (medium : Medium) (coin : Coin) :
    (fresh limits (.ofRegion region medium) coin).Safe where
  storing := nofun
  running := fun running => absurd rfl running
  line := Nat.zero_le _

/-- Events one after the other. The induction is on them, and what each of them leaves is safe. -/
theorem meetAll (safe : m.Safe) (events : List Event) :
    (m.meetAll events).Safe ∧ (m.meetAll events).limits = m.limits := by
  induction events generalizing m with
  | nil => exact ⟨safe, rfl⟩
  | cons e events ih =>
    obtain ⟨safe', happens⟩ := safe.meet e
    obtain ⟨later, same⟩ := ih safe'
    exact ⟨later, same.trans (happens.elim Tame.limits Begun.limits)⟩

end Safe

/-- Whatever has happened to a machine, its program does not run while another is stored; it runs
only if it may, and from where a statement starts; a line that comes in is never too long. And
whatever happens next, if the store changes, the program is stopped or was just started by the end
of a download. -/
theorem safe_meetAll (limits : Limits) (region : Bytes) (medium : Medium) (coin : Coin)
    (events : List Event) :
    let m := (fresh limits (.ofRegion region medium) coin).meetAll events
    (m.device = .storeProgram → m.program = .stopped) ∧
      (m.program ≠ .stopped →
        m.store.valid = true ∧ m.store.IsStart m.pc ∧ m.pc ≤ m.store.length) ∧
      (∀ e, (m.meet e).store.region ≠ m.store.region → (m.meet e).program = .stopped ∨
        (m.meet e).program = .active ∧ (m.meet e).pc = 0 ∧ m.CompletedBy e) ∧
      m.line.length ≤ limits.statementLength := by
  intro m
  obtain ⟨safe, same⟩ := (Safe.opened limits region medium coin).meetAll events
  refine ⟨safe.stopped, fun running => ?_, fun e changed => ?_, ?_⟩
  · obtain ⟨valid, start⟩ := safe.running running
    exact ⟨valid, start, start.le_length⟩
  · rcases (safe.meet e).2 with tame | begun
    · exact .inl (tame.changed.resolve_left changed).1
    · exact .inr ⟨begun.program, begun.pc, begun.completes⟩
  · have line := safe.line
    rwa [same] at line

end Machine

end ControlScript
