import ControlScript.Machine.Step
import ControlScript.Proofs.Closed

/-!
# Downloads

A download fills the store byte by byte. What it has been given so far is either all there, or it
was too long for the store, and then nothing is left of it. Statements that do not start with `R`
reach the store as they are, each with its end.

## Main definitions

* `Medium.IsReliable` — a medium that saves whatever it is asked to save
* `Machine.Alike` — what a download leaves as it is
* `Machine.Filling` — a machine that has been given some bytes for its store

## Main results

* `Machine.Filling.encode` — statements that reach the store
* `Machine.Filling.endDownload`, `Machine.Filling.abortDownload` — the ends of a download
-/

namespace ControlScript

open Instruction

/-- A medium that saves whatever it is asked to save. -/
def Medium.IsReliable : Medium → Prop
  | .volatile => True
  | .file f => f.reachable = true ∧ f.failures = []

theorem Medium.IsReliable.not_fails {medium : Medium} (reliable : medium.IsReliable) :
    medium.fails = false := by
  cases medium with
  | volatile => rfl
  | file f => simp [fails, File.fails, reliable.1, reliable.2]

theorem Medium.IsReliable.afterSave {medium : Medium} (reliable : medium.IsReliable)
    (region : Bytes) : (medium.afterSave region).IsReliable := by
  cases medium with
  | volatile => trivial
  | file f => exact ⟨reliable.1, by simp [File.afterWrite, reliable.2]⟩

namespace Store

variable {s : Store}

/-- Removing the program does not fail. -/
theorem exists_clear_eq (reliable : s.medium.IsReliable) : ∃ medium, medium.IsReliable ∧
    clear s = .ok () { s.write 0 Byte.programEnd with cursor := 0, valid := false, medium } := by
  refine ⟨_, reliable.afterSave (s.region.set 0 Byte.programEnd), ?_⟩
  simp [clear, Attempt.bind_apply, save, write, reliable.not_fails]

/-- Ending the program does not fail. -/
theorem exists_finishDownload_eq (reliable : s.medium.IsReliable) :
    ∃ medium, medium.IsReliable ∧ finishDownload s =
      .ok () { s.write s.cursor Byte.programEnd with valid := true, medium } := by
  refine ⟨_, reliable.afterSave (s.region.set s.cursor Byte.programEnd), ?_⟩
  simp [finishDownload, Attempt.bind_apply, save, write, reliable.not_fails]

/-- A byte is written behind what is in the region so far. -/
theorem exists_write_eq {content : Bytes} (starts : content <+: s.region)
    (fits : content.length < s.capacity) (b : UInt8) :
    ∃ rest, (s.write content.length b).region = content ++ b :: rest := by
  obtain ⟨rest, region⟩ := starts
  have length : content.length + rest.length = s.capacity := by
    rw [capacity, ← region, List.length_append]
  cases rest with
  | nil =>
    rw [List.length_nil] at length
    omega
  | cons r rest => exact ⟨rest, by simp [write, ← region]⟩

/-- The program ends where its end is written. -/
theorem program_write_programEnd {content : Bytes} (starts : content <+: s.region)
    (fits : content.length < s.capacity) (plain : ∀ b ∈ content, b ≠ Byte.programEnd) :
    (s.write content.length Byte.programEnd).program = content := by
  obtain ⟨rest, region⟩ := exists_write_eq starts fits Byte.programEnd
  rw [program, region]
  exact (takeWhile_append_of_ends (fun b member => by simpa using plain b member) (by simp)).1

end Store

namespace Machine

variable {m n : Machine} {dest : Destination}

/-- A diagnostic shows in the output alone. -/
theorem exists_diagnose_eq (m : Machine) (level : Nat) (dest : Destination) (text : String) :
    ∃ outbox, m.diagnose level dest text = { m with outbox } := by
  unfold diagnose
  split
  · exact ⟨_, rfl⟩
  · exact ⟨m.outbox, rfl⟩

theorem exists_enterState_eq (m : Machine) (state : ProgramState) (dest : Destination) :
    ∃ outbox, m.enterState state dest = { m with program := state, outbox } := by
  unfold enterState
  split
  · next same => exact ⟨m.outbox, by rw [← same]⟩
  · exact exists_diagnose_eq { m with program := state } _ _ _

/-- A diagnostic is shown behind the output so far. -/
theorem exists_diagnose_append (m : Machine) (level : Nat) (dest : Destination) (text : String) :
    ∃ later, m.diagnose level dest text = { m with outbox := m.outbox ++ later } := by
  unfold diagnose
  split
  · exact ⟨#[{ destination := dest, output := .diagnostic text }], rfl⟩
  · exact ⟨#[], by rw [Array.append_empty]⟩

/-- A program is started, with a remark on what comes before. -/
theorem exists_start_eq (m : Machine) (dest : Destination) (text : String) :
    ∃ outbox, (m.remark dest text).start dest =
      { m with program := .active, pc := 0, owner := dest, outbox } := by
  obtain ⟨outbox, shown⟩ := exists_diagnose_eq m 2 dest text
  rw [remark, shown, start]
  exact exists_enterState_eq _ _ _

/-- Two machines that differ at most in their program and in what a download is at. -/
structure Alike (m n : Machine) : Prop where
  limits : n.limits = m.limits
  compiler : n.compiler = m.compiler
  vars : n.vars = m.vars
  readings : n.readings = m.readings
  diagnostics : n.diagnostics = m.diagnostics
  outbox : m.diagnostics = 0 → n.outbox = m.outbox

namespace Alike

theorem refl (m : Machine) : Alike m m := ⟨rfl, rfl, rfl, rfl, rfl, fun _ => rfl⟩

theorem trans {k : Machine} (first : Alike k m) (second : Alike m n) : Alike k n where
  limits := second.limits.trans first.limits
  compiler := second.compiler.trans first.compiler
  vars := second.vars.trans first.vars
  readings := second.readings.trans first.readings
  diagnostics := second.diagnostics.trans first.diagnostics
  outbox quiet := (second.outbox (first.diagnostics.trans quiet)).trans (first.outbox quiet)

theorem diagnose (m : Machine) {level : Nat} (shown : 0 < level) (dest : Destination)
    (text : String) : Alike m (m.diagnose level dest text) := by
  unfold Machine.diagnose
  split
  · exact ⟨rfl, rfl, rfl, rfl, rfl, fun quiet => by omega⟩
  · exact refl m

theorem report (m : Machine) (dest : Destination) (f : Fault) : Alike m (m.report dest f) :=
  diagnose m Nat.one_pos dest _

theorem remark (m : Machine) (dest : Destination) (text : String) : Alike m (m.remark dest text) :=
  diagnose m Nat.two_pos dest text

theorem enterState (m : Machine) (state : ProgramState) (dest : Destination) :
    Alike m (m.enterState state dest) := by
  unfold Machine.enterState
  split
  · exact refl m
  · have entered : Alike m { m with program := state } :=
      ⟨rfl, rfl, rfl, rfl, rfl, fun _ => rfl⟩
    exact entered.trans (remark _ dest _)

theorem start (m : Machine) (dest : Destination) : Alike m (m.start dest) := by
  have rewound : Alike m { m with pc := 0, owner := dest } :=
    ⟨rfl, rfl, rfl, rfl, rfl, fun _ => rfl⟩
  exact rewound.trans (enterState _ .active dest)

/-- A byte of a download. -/
theorem download (m : Machine) (b : UInt8) (dest : Destination) : Alike m (m.download b dest) := by
  have stored (filter : DownloadFilter) (store : Store) (device : DeviceState) (discarding : Bool) :
      Alike m { m with filter, store, device, discarding } :=
    ⟨rfl, rfl, rfl, rfl, rfl, fun _ => rfl⟩
  unfold Machine.download
  split
  · exact stored _ _ m.device m.discarding
  · exact (stored _ _ _ _).trans ((remark _ _ _).trans (start _ _))
  · exact (stored _ _ _ _).trans (remark _ _ _)
  · have reported (f : Fault) (filter : DownloadFilter) (store : Store) :=
      (stored filter store m.device m.discarding).trans (report _ dest f)
    dsimp only
    split
    · exact reported _ _ _
    · exact (reported _ _ _).trans (report _ _ _)

end Alike

/-- A machine that has been given some bytes for its store, where `room` bytes
have room. They are all there or, if they were too many, none of them. -/
structure Filling (room : Nat) (place : DownloadPlace) (content : Bytes) (m : Machine) :
    Prop where
  device : m.device = .storeProgram
  stopped : m.program = .stopped
  place : m.filter.place = place
  invalid : m.store.valid = false
  reliable : m.store.medium.IsReliable
  capacity : m.store.capacity = room
  fits : content.length < room →
    m.filter.overflowed = false ∧ m.store.cursor = content.length ∧ content <+: m.store.region
  full : room ≤ content.length → m.filter.overflowed = true ∧ m.store.program = []

theorem download_of_more {b : UInt8} {filter : DownloadFilter} {store : Store}
    (processed : DownloadFilter.process b (m.filter, m.store) = .ok .more (filter, store)) :
    m.download b dest = { m with filter, store } := by
  simp only [download, processed]

theorem download_of_error {b : UInt8} {f : Fault} {filter : DownloadFilter} {store cleared : Store}
    (processed : DownloadFilter.process b (m.filter, m.store) = .error f (filter, store))
    (clears : Store.clear store = .ok () cleared) :
    m.download b dest = { m with filter, store := cleared }.report dest f := by
  simp only [download, processed, clears]
  rfl

/-- A byte of a download that goes on. -/
theorem exists_download_of_goesOn {filter : DownloadFilter} {store : Store}
    (result : DownloadFilter.process b (m.filter, m.store) = .ok .more (filter, store) ∨
      ∃ fault, DownloadFilter.process b (m.filter, m.store) = .error fault (filter, store))
    (dest : Destination) :
    ∃ store outbox, m.download b dest = { m with filter, store, outbox } := by
  rcases result with more | ⟨fault, error⟩
  · exact ⟨store, m.outbox, download_of_more more⟩
  · obtain ⟨outbox, shown⟩ := exists_diagnose_eq
      { m with filter, store := Attempt.reached (Store.clear store) } 1 dest fault.render
    rw [download, error]
    dsimp only
    rw [report, shown]
    split
    · exact ⟨_, _, rfl⟩
    · next fault' _ =>
      obtain ⟨outbox', shown'⟩ := exists_diagnose_eq
        { m with filter, store := Attempt.reached (Store.clear store), outbox } 1 dest fault'.render
      rw [report, shown']
      exact ⟨_, _, rfl⟩

/-- A byte of a line that reaches the store. -/
def Reaches (place : DownloadPlace) (b : UInt8) : Prop :=
  place = .lineStart ∧ Byte.isControl b = false ∧ Byte.spells 'R' b = false ∨
    place = .storing ∧ (Byte.isControl b = false ∨ b = Byte.statementEnd)

theorem process_of_reaches {filter : DownloadFilter} {b : UInt8} (reaches : Reaches filter.place b)
    (s : Store) : DownloadFilter.process b (filter, s) = DownloadFilter.keep b
      ({ filter with place := DownloadFilter.placeAfter .storing b }, s) := by
  have taken : ¬(Byte.isControl b && b != Byte.statementEnd) = true := by
    rcases reaches with ⟨-, plain, -⟩ | ⟨-, plain | rfl⟩ <;> simp [*]
  rw [DownloadFilter.process, if_neg taken]
  rcases reaches with ⟨place, plain, other⟩ | ⟨place, -⟩
  · have inside : b ≠ Byte.statementEnd := (Byte.ne_of_not_isControl plain).2
    simp [Attempt.bind_apply, place, other, inside, DownloadFilter.moveTo,
      DownloadFilter.placeAfter]
  · simp [Attempt.bind_apply, place, DownloadFilter.moveTo]

/-- Bytes that reach the store one after the other. -/
def ReachAll : DownloadPlace → Bytes → Prop
  | _, [] => True
  | place, b :: bytes => Reaches place b ∧ ReachAll (DownloadFilter.placeAfter .storing b) bytes

/-- Where bytes that reach the store leave the filter. -/
def placeAfterAll (place : DownloadPlace) (bytes : Bytes) : DownloadPlace :=
  bytes.foldl (fun _ b => DownloadFilter.placeAfter .storing b) place

theorem placeAfterAll_append (place : DownloadPlace) (first second : Bytes) :
    placeAfterAll place (first ++ second) = placeAfterAll (placeAfterAll place first) second :=
  List.foldl_append

theorem ReachAll.append {place : DownloadPlace} {first second : Bytes}
    (reach : ReachAll place first) (later : ReachAll (placeAfterAll place first) second) :
    ReachAll place (first ++ second) := by
  induction first generalizing place with
  | nil => exact later
  | cons b first ih => exact ⟨reach.1, ih reach.2 later⟩

/-- The rest of a statement reaches the store. -/
theorem reachAll_inside {text : Bytes} (plain : ∀ b ∈ text, Byte.isControl b = false) :
    ReachAll .storing text ∧ placeAfterAll .storing text = .storing := by
  induction text with
  | nil => exact ⟨trivial, rfl⟩
  | cons b text ih =>
    have plain' := plain b List.mem_cons_self
    have stays : DownloadFilter.placeAfter .storing b = .storing :=
      if_neg (Byte.ne_of_not_isControl plain').2
    obtain ⟨reach, place⟩ := ih fun c member => plain c (List.mem_cons_of_mem b member)
    have all : ReachAll .storing (b :: text) := ⟨.inr ⟨rfl, .inl plain'⟩, by rwa [stays]⟩
    have last : placeAfterAll (DownloadFilter.placeAfter .storing b) text = .storing := by
      rwa [stays]
    exact ⟨all, last⟩

/-- A statement that does not start with `R` reaches the store, with its end. -/
theorem reachAll_statement {text : Bytes} (plain : ∀ b ∈ text, Byte.isControl b = false)
    (nonempty : text ≠ []) (own : text.head?.any (Byte.spells 'R') = false) :
    ReachAll .lineStart (text ++ [Byte.statementEnd]) ∧
      placeAfterAll .lineStart (text ++ [Byte.statementEnd]) = .lineStart := by
  obtain ⟨b, text, rfl⟩ := List.exists_cons_of_ne_nil nonempty
  have plain' := plain b List.mem_cons_self
  have begins : DownloadFilter.placeAfter .storing b = .storing :=
    if_neg (Byte.ne_of_not_isControl plain').2
  obtain ⟨reach, place⟩ := reachAll_inside fun c member =>
    plain c (List.mem_cons_of_mem b member)
  have first : ReachAll .lineStart (b :: text) :=
    ⟨.inl ⟨rfl, plain', by simpa using own⟩, by rwa [begins]⟩
  have middle : placeAfterAll .lineStart (b :: text) = .storing := by
    change placeAfterAll (DownloadFilter.placeAfter .storing b) text = .storing
    rwa [begins]
  refine ⟨first.append ?_, ?_⟩
  · rw [middle]
    exact ⟨.inr ⟨rfl, .inr rfl⟩, trivial⟩
  · rw [placeAfterAll_append, middle]
    rfl

/-- Statements that become part of a program reach the store, each with its end. -/
theorem reachAll_encode {code : List Instruction} (kept : ∀ i ∈ code, i.Kept) :
    ReachAll .lineStart (Instruction.encode code) ∧
      placeAfterAll .lineStart (Instruction.encode code) = .lineStart := by
  induction code with
  | nil => exact ⟨trivial, rfl⟩
  | cons i code ih =>
    obtain ⟨proper, own⟩ := kept i List.mem_cons_self
    obtain ⟨first, place⟩ := reachAll_statement proper.plain proper.text_ne_nil own
    obtain ⟨later, last⟩ := ih fun j member => kept j (List.mem_cons_of_mem i member)
    have split : Instruction.encode (i :: code) =
        (i.text ++ [Byte.statementEnd]) ++ Instruction.encode code := rfl
    rw [split, placeAfterAll_append, place]
    exact ⟨first.append (by rwa [place]), last⟩

namespace Filling

variable {room : Nat} {place : DownloadPlace} {content : Bytes} {b : UInt8}

theorem report (filling : Filling room place content m) (dest : Destination) (f : Fault) :
    Filling room place content (m.report dest f) := by
  unfold Machine.report diagnose
  split
  · exact { filling with }
  · exact filling

/-- A byte that reaches the store is added to it, or it is one too many. -/
theorem byte (filling : Filling room place content m) (reaches : Reaches place b)
    (dest : Destination) :
    Filling room (DownloadFilter.placeAfter .storing b) (content ++ [b]) (m.download b dest) := by
  have processed := process_of_reaches (filling.place ▸ reaches) m.store
  have longer : (content ++ [b]).length = content.length + 1 := by simp
  by_cases within : content.length < room
  · obtain ⟨fitting, cursor, starts⟩ := filling.fits within
    simp only [DownloadFilter.keep, fitting, Bool.false_eq_true, if_false, Store.append,
      filling.capacity, cursor] at processed
    by_cases last : room ≤ content.length + 1
    · -- The end of the program needs a byte of the room, so this one is refused.
      obtain ⟨medium, reliable, cleared⟩ := Store.exists_clear_eq filling.reliable
      have program := Store.program_clear m.store
      rw [cleared] at program
      rw [if_pos last] at processed
      rw [download_of_error processed cleared]
      refine Filling.report ?_ dest _
      refine ⟨filling.device, filling.stopped, rfl, rfl, reliable, ?_, ?_,
        fun _ => ⟨rfl, program⟩⟩
      · exact (Store.capacity_write _ _ _).trans filling.capacity
      · intro fits
        omega
    · rw [if_neg last] at processed
      rw [download_of_more processed]
      obtain ⟨rest, region⟩ := Store.exists_write_eq starts (filling.capacity ▸ within) b
      refine ⟨filling.device, filling.stopped, rfl, filling.invalid, filling.reliable, ?_, ?_, ?_⟩
      · exact (Store.capacity_write _ _ _).trans filling.capacity
      · exact fun _ => ⟨rfl, longer.symm, rest, by rw [List.append_assoc]; exact region.symm⟩
      · intro full
        omega
  · -- A byte was refused before, and all that follow are dropped.
    obtain ⟨overflowed, program⟩ := filling.full (Nat.le_of_not_lt within)
    simp only [DownloadFilter.keep, overflowed, if_true] at processed
    rw [download_of_more processed]
    refine ⟨filling.device, filling.stopped, rfl, filling.invalid, filling.reliable,
      filling.capacity, ?_, fun _ => ⟨rfl, program⟩⟩
    intro fits
    omega

theorem receive_eq_download (filling : Filling room place content m) (b : UInt8)
    (dest : Destination) : m.receive b dest = m.download b dest := by
  rw [receive, filling.device]

/-- Bytes that reach the store are added to it, or they are too many. -/
theorem bytes {bytes : Bytes} (filling : Filling room place content m)
    (reach : ReachAll place bytes) (dest : Destination) :
    Filling room (placeAfterAll place bytes) (content ++ bytes) (m.receiveAll bytes dest) ∧
      Alike m (m.receiveAll bytes dest) := by
  induction bytes generalizing m place content with
  | nil => exact ⟨by rwa [List.append_nil], Alike.refl m⟩
  | cons b bytes ih =>
    obtain ⟨reaches, later⟩ := reach
    have next := filling.byte reaches dest
    have alike := Alike.download m b dest
    rw [← filling.receive_eq_download] at next alike
    obtain ⟨filled, alike'⟩ := ih next later
    rw [List.append_assoc] at filled
    exact ⟨filled, alike.trans alike'⟩

/-- Statements that reach the store, each with its end. -/
theorem encode {code : List Instruction} (filling : Filling room .lineStart content m)
    (kept : ∀ i ∈ code, i.Kept) (dest : Destination) :
    Filling room .lineStart (content ++ Instruction.encode code)
        (m.receiveAll (Instruction.encode code) dest) ∧
      Alike m (m.receiveAll (Instruction.encode code) dest) := by
  obtain ⟨reach, place⟩ := reachAll_encode kept
  have filled := filling.bytes reach dest
  rwa [place] at filled

/-- After an `R` at the start of a line, the next byte decides what the line is for. -/
theorem receive_eq_gotR (filling : Filling room .lineStart content m) (dest : Destination) :
    m.receive 0x52 dest = { m with filter := { m.filter with place := .gotR } } := by
  have processed : DownloadFilter.process 0x52 (m.filter, m.store) =
      .ok .more ({ m.filter with place := .gotR }, m.store) := by
    rw [DownloadFilter.process, if_neg (by decide)]
    simp [Attempt.bind_apply, filling.place, DownloadFilter.moveTo,
      show Byte.spells 'R' 0x52 = true by decide]
  rw [filling.receive_eq_download, download_of_more processed]

theorem gotR (filling : Filling room .lineStart content m) (dest : Destination) :
    Filling room .gotR content (m.receive 0x52 dest) := by
  rw [filling.receive_eq_gotR]
  exact ⟨filling.device, filling.stopped, rfl, filling.invalid, filling.reliable, filling.capacity,
    filling.fits, filling.full⟩

end Filling

/-- A machine between two statements, which takes the next one as it comes in. -/
structure Idle (m : Machine) : Prop where
  device : m.device = .executeImmediately
  line : m.line = []
  discarding : m.discarding = false

/-- The end of a line of which the rest is dropped. -/
theorem receive_of_discarding (device : m.device = .executeImmediately)
    (discarding : m.discarding = true) :
    m.receive Byte.statementEnd dest = { m with line := [], discarding := false } := by
  simp [receive, device, assemble, discarding]

namespace Filling

variable {room : Nat} {place : DownloadPlace} {content : Bytes} {b : UInt8}

/-- A download that is given up leaves nothing in the store. -/
theorem abort (filling : Filling room .gotR content m)
    (processed : DownloadFilter.process b (m.filter, m.store) =
      DownloadFilter.abort (m.filter, m.store)) (dest : Destination) :
    let n := (m.receive b dest).receive Byte.statementEnd dest
    Idle n ∧ Alike m n ∧ n.store.valid = false ∧ n.store.program = [] ∧ n.program = .stopped := by
  obtain ⟨medium, -, cleared⟩ := Store.exists_clear_eq filling.reliable
  have program := Store.program_clear m.store
  rw [cleared] at program
  have alike := Alike.download m b dest
  obtain ⟨outbox, given⟩ : ∃ outbox, m.download b dest =
      { m with filter := .fresh, device := .executeImmediately, discarding := true, outbox
               store := { m.store.write 0 Byte.programEnd with
                 cursor := 0, valid := false, medium } } := by
    simp only [DownloadFilter.abort, DownloadFilter.conclude, cleared] at processed
    simp only [download, processed]
    exact exists_diagnose_eq _ _ _ _
  rw [filling.receive_eq_download]
  rw [given] at alike ⊢
  rw [receive_of_discarding rfl rfl]
  exact ⟨⟨rfl, rfl, rfl⟩, alike.trans ⟨rfl, rfl, rfl, rfl, rfl, fun _ => rfl⟩, rfl, program,
    filling.stopped⟩

/-- The machine that a completed download leaves, before the program is started. -/
def completed (m : Machine) (medium : Medium) : Machine :=
  { m with
    filter := .fresh, device := .executeImmediately, discarding := true
    store := { m.store.write m.store.cursor Byte.programEnd with valid := true, medium } }

/-- The last byte of a download that fits starts the program. -/
theorem exists_download_eq (filling : Filling room .gotR content m) (fits : content.length < room)
    (dest : Destination) : ∃ medium, m.download 0x58 dest =
      ((completed m medium).remark dest "DOWNLOAD COMPLETE").start dest := by
  obtain ⟨fitting, -, -⟩ := filling.fits fits
  obtain ⟨medium, -, finished⟩ := Store.exists_finishDownload_eq filling.reliable
  have processed : DownloadFilter.process 0x58 (m.filter, m.store) =
      DownloadFilter.finish (m.filter, m.store) := by
    rw [DownloadFilter.process, if_neg (by decide)]
    simp [Attempt.bind_apply, filling.place, fitting, show Byte.spells 'X' 0x58 = true by decide]
  simp only [DownloadFilter.finish, DownloadFilter.conclude, finished] at processed
  refine ⟨medium, ?_⟩
  simp only [download, processed]
  rfl

/-- A download that is completed leaves the program in the store and starts it. -/
theorem finish (filling : Filling room .gotR content m) (fits : content.length < room)
    (plain : ∀ b ∈ content, b ≠ Byte.programEnd) (dest : Destination) :
    let n := (m.receive 0x58 dest).receive Byte.statementEnd dest
    Idle n ∧ Alike m n ∧ n.store.valid = true ∧ n.store.program = content ∧
      n.program = .active ∧ n.pc = 0 ∧ n.owner = dest := by
  obtain ⟨-, cursor, starts⟩ := filling.fits fits
  have alike := Alike.download m 0x58 dest
  obtain ⟨medium, outbox, given⟩ : ∃ medium outbox, m.download 0x58 dest =
      { completed m medium with outbox, pc := 0, owner := dest, program := .active } := by
    obtain ⟨medium, finished⟩ := filling.exists_download_eq fits dest
    rw [finished]
    exact ⟨medium, exists_start_eq (completed m medium) dest "DOWNLOAD COMPLETE"⟩
  rw [filling.receive_eq_download]
  rw [given] at alike ⊢
  rw [receive_of_discarding rfl rfl]
  refine ⟨⟨rfl, rfl, rfl⟩, alike.trans ⟨rfl, rfl, rfl, rfl, rfl, fun _ => rfl⟩, rfl, ?_, rfl, rfl,
    rfl⟩
  change (m.store.write m.store.cursor Byte.programEnd).program = content
  rw [cursor]
  exact Store.program_write_programEnd starts (filling.capacity ▸ fits) plain

/-- The end of a download: the program is in the store and starts, if there was room for it. -/
theorem endDownload (filling : Filling room .lineStart content m)
    (plain : ∀ b ∈ content, b ≠ Byte.programEnd) (dest : Destination) :
    let n := m.receiveAll (Instruction.encode [.endDownload]) dest
    Idle n ∧ Alike m n ∧ if content.length < room then
        n.store.valid = true ∧ n.store.program = content ∧ n.program = .active ∧ n.pc = 0 ∧
          n.owner = dest
      else n.store.valid = false ∧ n.store.program = [] ∧ n.program = .stopped := by
  have got := filling.gotR dest
  have alike := Alike.download m 0x52 dest
  rw [← filling.receive_eq_download] at alike
  have received : m.receiveAll (Instruction.encode [.endDownload]) dest =
      ((m.receive 0x52 dest).receive 0x58 dest).receive Byte.statementEnd dest := rfl
  rw [received]
  split
  · next fits =>
    obtain ⟨idle, alike', finished⟩ := got.finish fits plain dest
    exact ⟨idle, alike.trans alike', finished⟩
  · next full =>
    have overflowed := (got.full (Nat.le_of_not_lt full)).1
    have processed : DownloadFilter.process 0x58 ((m.receive 0x52 dest).filter,
        (m.receive 0x52 dest).store) =
          DownloadFilter.abort ((m.receive 0x52 dest).filter, (m.receive 0x52 dest).store) := by
      rw [DownloadFilter.process, if_neg (by decide)]
      simp [Attempt.bind_apply, got.place, overflowed, show Byte.spells 'X' 0x58 = true by decide]
    obtain ⟨idle, alike', aborted⟩ := got.abort processed dest
    exact ⟨idle, alike.trans alike', aborted⟩

/-- A download that is given up. -/
theorem abortDownload (filling : Filling room .lineStart content m) (dest : Destination) :
    let n := m.receiveAll (Instruction.encode [.abortDownload]) dest
    Idle n ∧ Alike m n ∧ n.store.valid = false ∧ n.store.program = [] ∧ n.program = .stopped := by
  have got := filling.gotR dest
  have alike := Alike.download m 0x52 dest
  rw [← filling.receive_eq_download] at alike
  have processed : DownloadFilter.process 0x41 ((m.receive 0x52 dest).filter,
      (m.receive 0x52 dest).store) =
        DownloadFilter.abort ((m.receive 0x52 dest).filter, (m.receive 0x52 dest).store) := by
    rw [DownloadFilter.process, if_neg (by decide)]
    simp [Attempt.bind_apply, got.place, show Byte.spells 'X' 0x41 = false by decide,
      show Byte.spells 'A' 0x41 = true by decide]
  obtain ⟨idle, alike', aborted⟩ := got.abort processed dest
  exact ⟨idle, alike.trans alike', aborted⟩

end Filling

/-- A piece of a statement that has room comes in. -/
theorem receiveAll_of_plain {text : Bytes} (device : m.device = .executeImmediately)
    (discarding : m.discarding = false) (plain : ∀ b ∈ text, Byte.isControl b = false)
    (fits : m.line.length + text.length ≤ m.limits.statementLength) (dest : Destination) :
    m.receiveAll text dest = { m with line := m.line ++ text } := by
  induction text generalizing m with
  | nil => simp [receiveAll]
  | cons b text ih =>
    have plain' := plain b List.mem_cons_self
    rw [List.length_cons] at fits
    have taken : m.receive b dest = { m with line := m.line ++ [b] } := by
      have room : ¬m.limits.statementLength ≤ m.line.length := by omega
      simp [receive, device, assemble, (Byte.ne_of_not_isControl plain').2, plain', discarding,
        room]
    change (m.receive b dest).receiveAll text dest = _
    rw [taken]
    have later := ih (m := { m with line := m.line ++ [b] }) device discarding
      (fun c member => plain c (List.mem_cons_of_mem b member))
      (by simp only [List.length_append, List.length_singleton]; omega)
    rw [later, List.append_assoc]
    rfl

/-- The rest of a line that is dropped, with its end. -/
theorem receiveAll_of_discarding {text : Bytes} (device : m.device = .executeImmediately)
    (discarding : m.discarding = true) (plain : ∀ b ∈ text, Byte.isControl b = false)
    (dest : Destination) :
    m.receiveAll (text ++ [Byte.statementEnd]) dest = { m with line := [], discarding := false } := by
  induction text with
  | nil => exact receive_of_discarding device discarding
  | cons b text ih =>
    have dropped : m.receive b dest = m := by
      have inside := (Byte.ne_of_not_isControl (plain b List.mem_cons_self)).2
      simp [receive, device, assemble, inside, discarding]
    change (m.receive b dest).receiveAll (text ++ [Byte.statementEnd]) dest = _
    rw [dropped]
    exact ih fun c member => plain c (List.mem_cons_of_mem b member)

/-- A statement that has room is executed when it has come in. -/
theorem receiveAll_statement {text : Bytes} (idle : Idle m)
    (plain : ∀ b ∈ text, Byte.isControl b = false) (nonempty : text ≠ [])
    (fits : text.length ≤ m.limits.statementLength) (dest : Destination) :
    m.receiveAll (text ++ [Byte.statementEnd]) dest = m.execute text .live dest := by
  have room : m.line.length + text.length ≤ m.limits.statementLength := by
    rw [idle.line, List.length_nil]
    omega
  have same : { m with line := [], discarding := false } = m := by
    rw [← idle.line, ← idle.discarding]
  have last (n : Machine) (device : n.device = .executeImmediately) (line : n.line = text)
      (discarding : n.discarding = false) : n.receiveAll [Byte.statementEnd] dest =
        { n with line := [], discarding := false }.execute text .live dest := by
    simp [receiveAll, receive, device, assemble, line, discarding, nonempty]
  rw [receiveAll_append, receiveAll_of_plain idle.device idle.discarding plain room,
    last { m with line := m.line ++ text } idle.device (by rw [idle.line]; rfl) idle.discarding]
  exact congrArg (fun n : Machine => n.execute text .live dest) same

/-- A download begins with the program stopped and removed. -/
theorem exists_beginDownload_eq (positive : 0 < m.store.capacity)
    (reliable : m.store.medium.IsReliable) (dest : Destination) :
    ∃ n, beginDownload dest m = .ok () n ∧ Filling m.store.capacity .lineStart [] n ∧
      Alike m n := by
  obtain ⟨outbox, stopped⟩ := exists_enterState_eq m .stopped dest
  have alike := Alike.enterState m .stopped dest
  rw [stopped] at alike
  obtain ⟨medium, kept, cleared⟩ := Store.exists_clear_eq reliable
  let cleared' : Machine := { m with
    program := .stopped, outbox, filter := .fresh, device := .storeProgram
    store := { m.store.write 0 Byte.programEnd with cursor := 0, valid := false, medium } }
  have performed : beginDownload dest m = .ok () (cleared'.remark dest "STORING PROGRAM") := by
    simp only [beginDownload, Attempt.bind_apply, Attempt.modify_apply, stopped, Command.onStore,
      Attempt.on, Store.beginDownload, cleared]
    rfl
  have first : Alike m cleared' := alike.trans ⟨rfl, rfl, rfl, rfl, rfl, fun _ => rfl⟩
  refine ⟨_, performed, ?_, first.trans (Alike.remark cleared' dest _)⟩
  obtain ⟨later, remarked⟩ := exists_diagnose_eq cleared' 2 dest "STORING PROGRAM"
  rw [remark, remarked]
  refine ⟨rfl, rfl, rfl, rfl, kept, Store.capacity_write _ _ _, ?_, ?_⟩
  · exact fun _ => ⟨rfl, rfl, List.nil_prefix⟩
  · intro full
    rw [List.length_nil] at full
    omega

/-- A statement without a fault is executed by performing its opcode. -/
theorem execute_of_ok {statement : Bytes} {op : Opcode} {origin : Origin} {k n : Machine}
    (traced : m.diagnose 3 dest (Utf8.decode statement) = k)
    (named : Opcode.ofStatement? statement = some op)
    (performed : perform op (statement.drop 2) origin dest k = .ok () n) :
    m.execute statement origin dest = n := by
  rw [execute, traced, named]
  dsimp only
  rw [performed]

/-- The statement that begins a download. -/
theorem filling_of_beginDownload (idle : Idle m) (two : 2 ≤ m.limits.statementLength)
    (positive : 0 < m.store.capacity) (reliable : m.store.medium.IsReliable) (dest : Destination) :
    let n := m.receiveAll (Instruction.encode [.beginDownload]) dest
    Filling m.store.capacity .lineStart [] n ∧ Alike m n := by
  have received : m.receiveAll (Instruction.encode [.beginDownload]) dest =
      m.execute Opcode.beginDownload.code .live dest := by
    have plain : ∀ b ∈ Opcode.beginDownload.code, Byte.isControl b = false := by decide +kernel
    exact receiveAll_statement idle plain (by decide) two dest
  obtain ⟨outbox, shown⟩ := exists_diagnose_eq m 3 dest (Utf8.decode Opcode.beginDownload.code)
  have alike := Alike.diagnose m (Nat.succ_pos 2) dest
    (Utf8.decode Opcode.beginDownload.code)
  rw [shown] at alike
  obtain ⟨n, performed, filling, alike'⟩ :=
    exists_beginDownload_eq (m := { m with outbox }) positive reliable dest
  have executed : m.execute Opcode.beginDownload.code .live dest = n := by
    have opcode : Opcode.ofStatement? Opcode.beginDownload.code = some .beginDownload := by decide
    exact execute_of_ok shown opcode performed
  dsimp only
  rw [received, executed]
  exact ⟨filling, alike.trans alike'⟩

end Machine

end ControlScript
