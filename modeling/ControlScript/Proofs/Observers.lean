import ControlScript.Proofs.Filtered
import ControlScript.Proofs.Levels

/-!
# Observers do not disturb a program

While a program runs, anybody may send statements that show something of the machine. They are
executed by the same means as those of the program, but all they change is the output for whoever
sent them and the line that is coming in. A program that was downloaded never looks at either: none of
its lines is meant for the machine, so no download begins and every byte is taken for a statement. So
for whoever started the program it makes no difference whether there are observers.

## Main definitions

* `Surface.Told`, `Surface.SameTo` — what one destination is told, and what another does not notice
* `Opcode.shows`, `Shows` — statements that only show something
* `Machine.Watches` — what may happen while somebody watches
* `Machine.Watched` — a machine with a program of lines
* `Machine.Reachable` — a machine as it may come about

## Main results

* `Machine.told_execute`, `Machine.told_receive` — a statement, and a byte
* `Machine.Watched.tick` — the program goes on
* `Machine.Beside.watched` — a machine that is watched beside one that is not
* `Machine.observers_do_not_disturb` — the program of a machine that is reached
-/

namespace ControlScript

open Attempt Command

namespace Surface

/-- What has become of a surface when somebody was told something. The level of diagnostics stays. -/
structure Told (dest : Destination) (σ τ : Surface) : Prop where
  level : τ.diagnostics = σ.diagnostics
  output : ∃ later, τ.outbox = σ.outbox ++ later ∧ ∀ d ∈ later, d.destination = dest

/-- The output for a destination. -/
def sentTo (σ : Surface) (dest : Destination) : List Delivery :=
  σ.outbox.toList.filter (·.destination == dest)

/-- Surfaces that show the same to a destination and have the same level of diagnostics. -/
structure SameTo (dest : Destination) (σ τ : Surface) : Prop where
  level : τ.diagnostics = σ.diagnostics
  output : τ.sentTo dest = σ.sentTo dest

variable {ρ σ τ : Surface} {dest other : Destination}

namespace Told

theorem refl (dest : Destination) (σ : Surface) : Told dest σ σ :=
  ⟨rfl, #[], by simp, by simp⟩

theorem trans (first : Told dest ρ σ) (second : Told dest σ τ) : Told dest ρ τ := by
  obtain ⟨level, earlier, output, toDest⟩ := first
  obtain ⟨level', later, output', toDest'⟩ := second
  refine ⟨level'.trans level, earlier ++ later, ?_, ?_⟩
  · rw [output', output, Array.append_assoc]
  · intro d member
    rcases Array.mem_append.mp member with before | after
    · exact toDest d before
    · exact toDest' d after

theorem deliver (dest : Destination) (output : Output) (σ : Surface) :
    Told dest σ (σ.deliver dest output) :=
  ⟨rfl, #[{ destination := dest, output }], rfl, by simp⟩

theorem diagnose (level : Nat) (dest : Destination) (text : String) (σ : Surface) :
    Told dest σ (σ.diagnose level dest text) := by
  unfold Surface.diagnose
  split
  · exact deliver dest _ σ
  · exact refl dest σ

/-- Others are shown nothing of it. -/
theorem sameTo (told : Told dest σ τ) (apart : dest ≠ other) : SameTo other σ τ := by
  obtain ⟨level, later, output, toDest⟩ := told
  refine ⟨level, ?_⟩
  have nothing : later.toList.filter (·.destination == other) = [] := by
    rw [List.filter_eq_nil_iff]
    intro d member same
    rw [toDest d (Array.mem_toList_iff.mp member)] at same
    exact apart (beq_iff_eq.mp same)
  rw [sentTo, output, Array.toList_append, List.filter_append, nothing, List.append_nil]
  rfl

end Told

theorem SameTo.trans (first : SameTo dest ρ σ) (second : SameTo dest σ τ) : SameTo dest ρ τ :=
  ⟨second.level.trans first.level, second.output.trans first.output⟩

theorem SameTo.deliver (same : SameTo dest σ τ) (other : Destination) (output : Output) :
    SameTo dest (σ.deliver other output) (τ.deliver other output) := by
  refine ⟨same.level, ?_⟩
  have before := same.output
  unfold sentTo at before ⊢
  simp only [Surface.deliver, Array.toList_push, List.filter_append, before]

/-- Whoever writes to both shows the same on both. -/
theorem Lasting.sameTo (dest : Destination) : Lasting (SameTo dest) where
  deliver := SameTo.deliver
  diagnose {σ τ} same level other text := by
    unfold Surface.diagnose
    rw [same.level]
    split
    · exact same.deliver other _
    · exact same
  setDiagnostics same level := ⟨rfl, same.output⟩

end Surface

/-- Opcodes that only show something when they come in, or do nothing at all. -/
def Opcode.shows (op : Opcode) : Bool :=
  op.category = .write ∨ op.category = .control ∨ op ∈ [.viewVariable, .version, .status, .comment]

/-- Statements that only show something, or do nothing at all. -/
def Shows (statement : Bytes) : Prop := (Opcode.ofStatement? statement).all Opcode.shows = true

instance (statement : Bytes) : Decidable (Shows statement) := inferInstanceAs (Decidable (_ = _))

namespace Machine

variable {k m n : Machine} {b : UInt8} {dest : Destination}

open Surface

theorem Beside.trans {Q : Surface → Surface → Prop}
    (trans : ∀ {ρ σ τ}, Q ρ σ → Q σ τ → Q ρ τ) (first : k.Beside Q m) (second : m.Beside Q n) :
    k.Beside Q n := by
  refine ⟨?_, trans first.2 second.2⟩
  rw [second.1, first.1]
  rfl

theorem told_trans (first : k.Beside (Told dest) m) (second : m.Beside (Told dest) n) :
    k.Beside (Told dest) n := first.trans Told.trans second

theorem told_refl (dest : Destination) (m : Machine) : m.Beside (Told dest) m :=
  ⟨rfl, .refl dest _⟩

theorem told_deliver (dest : Destination) (output : Output) (m : Machine) :
    m.Beside (Told dest) (m.deliver dest output) :=
  ⟨rfl, .deliver dest output _⟩

theorem told_diagnose (level : Nat) (dest : Destination) (text : String) (m : Machine) :
    m.Beside (Told dest) (m.diagnose level dest text) := by
  rw [diagnose_eq]
  exact ⟨rfl, .diagnose level dest text _⟩

/-- What leaves the machine alone tells nobody anything. -/
theorem told_of_reached {α : Type} {x : Command α} (same : ∀ m, reached (x m) = m) :
    x.Within (Beside (Told dest)) := by
  intro m
  rw [same]
  exact told_refl dest m

theorem told_bind {α β : Type} {x : Command α} {next : α → Command β}
    (first : x.Within (Beside (Told dest))) (second : ∀ a, (next a).Within (Beside (Told dest))) :
    (x >>= next).Within (Beside (Told dest)) :=
  first.bind told_trans second

theorem told_write (dest : Destination) (output : Output) :
    (write dest output).Within (Beside (Told dest)) :=
  within_modify (told_deliver dest output)

theorem told_expression (text : Bytes) : (expression text).Within (Beside (Told dest)) := by
  refine .get_bind fun m => ?_
  exact told_bind (told_of_reached (reached_scanning _ text))
    (fun _ => told_of_reached fun _ => rfl) m

theorem told_viewVariable (args : Bytes) (dest : Destination) :
    (viewVariable args dest).Within (Beside (Told dest)) := by
  refine told_bind (told_of_reached (reached_scanning _ args)) fun (name, _) =>
    .get_bind fun m => told_bind (told_of_reached (reached_ofExcept _)) (fun (slot, _) => ?_) m
  dsimp only
  split
  · exact told_write dest _
  · exact told_write dest _

/-- An opcode that only shows something when it comes in shows it to whoever sent it. -/
theorem told_perform {op : Opcode} (shows : op.shows = true) (args : Bytes) (dest : Destination) :
    (perform op args .live dest).Within (Beside (Told dest)) := by
  unfold perform
  split
  -- Outside a program its statements are refused before they do anything.
  · exact told_of_reached fun _ => rfl
  · next program =>
    cases op with
    | delay | label | jump | coinToss | jumpIfTrue | jumpIfFalse => exact absurd ⟨rfl, rfl⟩ program
    | beginDownload | start | halt | pause | resume | clearProgram | endDownload | abortDownload
    | clearVariables | setVariable | diagnostics => cases shows
    | viewVariable => exact told_viewVariable args dest
    | writeText | writeLine | version => exact told_write dest _
    | writeValue => exact told_bind (told_expression args) fun _ => told_write dest _
    | status => exact within_modify fun m => told_deliver dest _ m
    | comment => exact told_of_reached fun _ => rfl

/-- A statement that only shows something. -/
theorem told_execute {statement : Bytes} (shows : Shows statement) (m : Machine)
    (dest : Destination) : m.Beside (Told dest) (m.execute statement .live dest) := by
  have traced := told_diagnose 3 dest (Utf8.decode statement) m
  unfold Machine.execute
  dsimp only
  cases named : Opcode.ofStatement? statement with
  | none => exact traced
  | some op =>
    have own : op.shows = true := by simpa [Shows, named] using shows
    have performed := told_perform own (statement.drop 2) dest
      (m.diagnose 3 dest (Utf8.decode statement))
    have both := told_trans traced performed
    dsimp only
    cases done : perform op (statement.drop 2) .live dest
        (m.diagnose 3 dest (Utf8.decode statement)) with
    | ok _ n =>
      rw [done] at both
      exact both
    | error f n =>
      rw [done] at both
      exact told_trans both (told_diagnose 1 dest _ n)

/-- Nobody is told of a byte that is added to the line that comes in. -/
theorem told_shift (b : UInt8) (dest : Destination) (m : Machine) :
    m.Beside (Told dest) (m.shift b) := by
  have changed (line : Bytes) (discarding : Bool) :
      m.Beside (Told dest) { m with line, discarding } :=
    ⟨rfl, rfl, #[], Array.append_empty.symm, by simp⟩
  unfold Machine.shift
  split
  · exact changed [] false
  · split
    · exact told_refl dest m
    · split
      · exact changed [] true
      · exact changed (m.line ++ [b]) m.discarding

/-- A byte that completes no statement, or one that only shows something. -/
theorem told_receive (device : m.device = .executeImmediately) (b : UInt8) (dest : Destination)
    (shows : ∀ text, m.item? b = some (.statement text) → Shows text) :
    m.Beside (Told dest) (m.receive b dest) := by
  have shifted := told_shift b dest m
  rw [receive_eq_of_item? device]
  cases found : m.item? b with
  | none => exact shifted
  | some item =>
    cases item with
    | statement text => exact told_trans shifted (told_execute (shows text found) _ dest)
    | tooLong => exact told_trans shifted (told_diagnose 1 dest _ _)

/-- A machine that takes what comes in for statements and has a program of lines, none of which is
meant for it. -/
structure Watched (m : Machine) : Prop where
  safe : m.Safe
  device : m.device = .executeImmediately
  holds : m.store.HoldsLines

namespace Watched

/-- A program of lines never changes the device or the store. -/
theorem tick (watched : m.Watched) : m.tick.Watched := by
  suffices same : m.tick.device = m.device ∧ m.tick.store = m.store by
    exact ⟨watched.safe.tick.1, same.1.trans watched.device, same.2 ▸ watched.holds⟩
  by_cases due : m.IsDue
  swap
  · rw [tick_of_not_isDue due]
    exact ⟨rfl, rfl⟩
  have running : m.program ≠ .stopped := by
    intro stopped
    simp [IsDue, stopped] at due
  cases found : m.store.fetch? m.pc m.limits.statementLength with
  | none =>
    obtain ⟨outbox, ended⟩ := exists_enterState_eq { m with program := .active } .stopped m.owner
    rw [tick_of_isDue due, executeNext]
    simp only [found, ended, and_self]
  | some fetched =>
    rw [tick_of_fetch? due found]
    cases whole : fetched.truncated with
    | true =>
      obtain ⟨outbox, reported⟩ := exists_diagnose_eq (m.goneTo fetched.next) 1 m.owner
        (Fault.of .statementTooLong).render
      rw [if_pos rfl, report, reported]
      exact ⟨rfl, rfl⟩
    | false =>
      -- What is executed is a line of the program, so it is not about the program.
      obtain ⟨-, start⟩ := watched.safe.running running
      obtain ⟨nonempty, own⟩ := watched.holds.text_of_fetch? start found whole
      have steered := Steered.execute nonempty own .program m.owner (m.goneTo fetched.next)
      rw [if_neg (by simp)]
      exact ⟨steered.device, steered.store⟩

/-- Neither does a statement that only shows something. -/
theorem receive (watched : m.Watched) (b : UInt8) (dest : Destination)
    (shows : ∀ text, m.item? b = some (.statement text) → Shows text) :
    (m.receive b dest).Watched := by
  have told := told_receive watched.device b dest shows
  refine ⟨(watched.safe.receive b dest).1, ?_, ?_⟩
  · rw [told.1]
    exact watched.device
  · rw [told.1]
    exact watched.holds

end Watched

/-- What may happen to a machine while somebody watches it: time passes, the program goes on, and
from other destinations come bytes, which complete only statements that show something. -/
def Watches (dest : Destination) (m : Machine) : Event → Prop
  | .tick => True
  | .clock _ => True
  | .byte b from' => from' ≠ dest ∧ ∀ text ∈ m.executed (.byte b from'), Shows text
  | _ => False

instance (dest : Destination) (m : Machine) : (e : Event) → Decidable (m.Watches dest e)
  | .tick | .clock _ => .isTrue trivial
  | .byte _ _ => inferInstanceAs (Decidable (_ ∧ _))
  | .line _ | .interrupt | .diagnostics _ | .readings _ => .isFalse id

/-- The events of a run but for the bytes that come in. -/
def withoutBytes (events : List Event) : List Event :=
  events.filter fun e => match e with
    | .byte _ _ => false
    | _ => true

/-- A machine that is watched goes on beside one that is not. -/
theorem Beside.watched {events : List Event} (watched : n.Watched)
    (beside : m.Beside (SameTo dest) n) (always : n.Always (Watches dest) events) :
    (m.meetAll (withoutBytes events)).Beside (SameTo dest) (n.meetAll events) := by
  have lasting := Lasting.sameTo dest
  induction events generalizing m n with
  | nil => exact beside
  | cons e events ih =>
    obtain ⟨now, later⟩ := always
    cases e with
    | tick =>
      have ticked : m.tick.Beside (SameTo dest) n.tick :=
        beside.tick lasting fun _ _ _ _ _ _ _ same => same.level
      exact ih watched.tick ticked later
    | clock time =>
      have kept : (n.setClock time).Watched :=
        ⟨(watched.safe.meet (.clock time)).1, watched.device, watched.holds⟩
      have set := beside.change (fun k => k.setClock time) (fun _ _ => rfl) fun _ => rfl
      exact ih kept set later
    | byte b from' =>
      obtain ⟨apart, shows⟩ := now
      have shows' : ∀ text, n.item? b = some (.statement text) → Shows text := by
        intro text found
        exact shows text (mem_executed_byte from' found)
      have told := told_receive watched.device b from' shows'
      -- The byte comes to one machine alone, and nothing of it is for `dest`.
      have still : m.Beside (SameTo dest) (n.receive b from') :=
        beside.trans SameTo.trans ⟨told.1, told.2.sameTo apart⟩
      exact ih (watched.receive b from' shows') still later
    | line | interrupt | diagnostics | readings => cases now

/-- Only output and what is coming in differ. -/
theorem Beside.eq_of_sameTo (beside : m.Beside (SameTo dest) n) :
    n = { m with outbox := n.outbox, line := n.line, discarding := n.discarding } := by
  obtain ⟨τ, related, rfl⟩ := beside.exists_eq
  have level : τ.diagnostics = m.diagnostics := related.level
  unfold withSurface
  rw [level]

/-- A machine that was opened with some program in store, and has met some events since. -/
def Reachable (m : Machine) : Prop :=
  ∃ limits region medium coin events,
    m = (fresh limits (.ofRegion region medium) coin).meetAll events

namespace Reachable

theorem meetAll (reachable : m.Reachable) (later : List Event) : (m.meetAll later).Reachable := by
  obtain ⟨limits, region, medium, coin, events, rfl⟩ := reachable
  refine ⟨limits, region, medium, coin, events ++ later, ?_⟩
  exact List.foldl_append.symm

theorem safe (reachable : m.Reachable) : m.Safe := by
  obtain ⟨limits, region, medium, coin, events, rfl⟩ := reachable
  exact ((Safe.opened limits region medium coin).meetAll events).1

theorem sifts (reachable : m.Reachable) : m.Sifts := by
  obtain ⟨limits, region, medium, coin, events, rfl⟩ := reachable
  have opened : (fresh limits (.ofRegion region medium) coin).Sifts := sifts_of_device rfl
  exact opened.meetAll (Safe.opened limits region medium coin) events

end Reachable

/-- Whoever started a program that was downloaded, be it before the machine was opened again, is not
disturbed by others who send statements that only show something, in whatever pieces: what is sent
to that destination, the program, its variables, its time and chance are as they would be without
them. -/
theorem observers_do_not_disturb {k : Machine} (reachable : k.Reachable) {e : Event}
    (completed : k.CompletedBy e) {m : Machine} (reachable' : m.Reachable)
    (stored : m.store.program = (k.meet e).store.program) (device : m.device = .executeImmediately)
    {events : List Event} (always : m.Always (Watches m.owner) events) :
    ∀ first rest, events = first ++ rest →
      let watched := m.meetAll first
      let alone := m.meetAll (withoutBytes first)
      watched.surface.sentTo m.owner = alone.surface.sentTo m.owner ∧
        watched = { alone with
          outbox := watched.outbox, line := watched.line, discarding := watched.discarding } := by
  rintro first rest rfl
  obtain ⟨lines, program, plain⟩ := reachable.sifts.holdsLines_of_completedBy completed
  have watched : m.Watched := ⟨reachable'.safe, device, lines, stored.trans program, plain⟩
  have beside := Beside.watched watched ⟨rfl, rfl, rfl⟩ always.append.1
  exact ⟨beside.2.output, beside.eq_of_sameTo⟩

/-- A byte completes a download if that is what the filter makes of it. -/
theorem completes_of_outcome (device : m.device = .storeProgram)
    (finished : (outcome (DownloadFilter.process b (m.filter, m.store))).toOption = some .finished)
    (dest : Destination) : m.CompletedBy (.byte b dest) := by
  cases result : DownloadFilter.process b (m.filter, m.store) with
  | error f after =>
    rw [result] at finished
    cases finished
  | ok outcome after =>
    rw [result] at finished
    cases finished
    obtain ⟨filter, store⟩ := after
    obtain ⟨outbox, started⟩ := exists_start_eq { m with
      filter, store, device := .executeImmediately, discarding := true } dest "DOWNLOAD COMPLETE"
    have taken : (m.receive b dest).store = store := by
      rw [Machine.receive, device]
      simp only [Machine.download, result, started]
    exact ⟨[], b, [], filter, store, rfl, device, result, taken⟩

/-- A program that writes two values was downloaded from destination one. Between the two, destination
two sends a statement and the beginning of another. -/
theorem observers_do_not_disturb_of_two :
    let before := (Bytes.ofString "RM\rWV1\rWV2\rR").map (Event.byte · 1)
    let events := .tick :: (Bytes.ofString "\rWL\rI").map (Event.byte · 2) ++ [.clock 5, .tick]
    let k := (ofLimits {} (.ofRegion (List.replicate 16 Byte.programEnd) .volatile) 7).meetAll before
    let m := k.meetAll [.byte 0x58 1]
    (m.meetAll events).surface.sentTo m.owner =
        (m.meetAll (withoutBytes events)).surface.sentTo m.owner ∧
      ((m.meetAll events).outbox.size = 3 ∧ (m.meetAll (withoutBytes events)).outbox.size = 2) := by
  intro before events k m
  have reachable : k.Reachable := ⟨_, _, _, _, before, rfl⟩
  have reachable' : m.Reachable := reachable.meetAll [.byte 0x58 1]
  have completed : k.CompletedBy (.byte 0x58 1) :=
    completes_of_outcome (by decide +kernel) (by decide +kernel) 1
  have device : m.device = .executeImmediately := by decide +kernel
  have always : m.Always (Watches m.owner) events := by decide +kernel
  obtain ⟨undisturbed, -⟩ := observers_do_not_disturb reachable completed reachable' rfl device
    always events [] (List.append_nil _).symm
  exact ⟨undisturbed, by decide +kernel⟩

end Machine

end ControlScript
