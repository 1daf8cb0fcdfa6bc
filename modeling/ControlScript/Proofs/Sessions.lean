import ControlScript.Proofs.Apart
import ControlScript.Proofs.Downloads
import ControlScript.Proofs.Marks
import Mathlib.Data.List.Infix

/-!
# Entering a program

While a program is entered line by line, the download that its first line has begun goes on. The
lines without a fault are downloaded, and the compiler remembers that a line had one. So the last
line either completes the download of all that the lines were compiled to, or gives it up, and then
nothing is left of the program.

## Main definitions

* `Act`, `Session` — what is done to a machine, and what comes of it
* `Session.Underway` — a program is being entered
* `Session.Concluded` — a program has been entered, all of it or nothing

## Main results

* `Session.Underway.line`, `Session.Underway.act` — a line, and any act, while a program is entered
* `Session.Underway.conclude` — the last line of a program
* `Session.all_or_nothing` — what a program that is entered leaves in the machine
-/

namespace ControlScript

open Instruction

/-- What is done to a machine from outside. -/
inductive Act where
  /-- A line of script is entered. -/
  | line (text : String)
  | tick
  /-- The clock is set. -/
  | clock (time : Nat)
deriving DecidableEq, Repr

/-- A machine, with what the lines entered so far were compiled to and their faults. -/
structure Session where
  machine : Machine
  emitted : List Instruction := []
  faults : List Fault := []
deriving DecidableEq, Repr

namespace Session

/-- One act. -/
def act (s : Session) : Act → Session
  | .line text =>
    let compiled := s.machine.compiler.compileLine s.machine.vars s.machine.readings text
    { machine := (s.machine.enter text).1
      emitted := s.emitted ++ compiled.emitted
      faults := s.faults ++ (s.machine.enter text).2.toList }
  | .tick => { s with machine := s.machine.tick }
  | .clock time => { s with machine := s.machine.setClock time }

/-- Act after act. -/
def actAll (s : Session) (acts : List Act) : Session := acts.foldl act s

theorem actAll_append (s : Session) (before after : List Act) :
    s.actAll (before ++ after) = (s.actAll before).actAll after := List.foldl_append

/-- What comes of a line once it is compiled: the code for it comes in. -/
def receive (s : Session) (compiled : Compilation) : Session where
  machine := (s.machine.renewed compiled.compiler compiled.vars).receiveAll
    (encode compiled.emitted) console
  emitted := s.emitted ++ compiled.emitted
  faults := s.faults ++ compiled.fault.toList

theorem act_line (s : Session) (text : String) : s.act (.line text) =
    s.receive (s.machine.compiler.compileLine s.machine.vars s.machine.readings text) := rfl

theorem compiler_receive (s : Session) (compiled : Compilation) :
    (s.receive compiled).machine.compiler = compiled.compiler :=
  Machine.compiler_receiveAll _ _ _

/-- A program is being entered: the download of the code for its lines goes on. -/
structure Underway (room : Nat) (code : List Instruction) (s : Session) : Prop where
  filling : Machine.Filling room .lineStart (encode code) s.machine
  kept : ∀ i ∈ code, i.Kept
  emitted : s.emitted = .beginDownload :: code
  inProgram : s.machine.compiler.compiling = true
  marked : s.machine.compiler.programError = true ↔ s.faults ≠ []

/-- A program has been entered. If no line had a fault and there was room, it is in the store and
starts; otherwise nothing is left of it. -/
structure Concluded (room : Nat) (s : Session) : Prop where
  device : s.machine.device = .executeImmediately
  framed : s.faults = [] → ∃ code, s.emitted = .beginDownload :: (code ++ [.endDownload]) ∧
    stored s.emitted = encode code
  stored : if s.faults = [] ∧ (stored s.emitted).length + 1 ≤ room then
      s.machine.store.valid = true ∧ s.machine.store.program = stored s.emitted ∧
        s.machine.program = .active ∧ s.machine.pc = 0 ∧ s.machine.owner = console
    else s.machine.store.valid = false ∧ s.machine.store.program = [] ∧
      s.machine.program = .stopped

variable {s : Session} {room : Nat} {code : List Instruction} {text : String}

/-- No byte of the statements of a program ends it. -/
theorem ne_programEnd_of_mem_encode (kept : ∀ i ∈ code, i.Kept) :
    ∀ b ∈ encode code, b ≠ Byte.programEnd := by
  intro b member
  obtain ⟨i, inCode, inText⟩ := List.mem_flatMap.mp member
  rcases List.mem_append.mp inText with inside | last
  · exact (Byte.ne_of_not_isControl ((kept i inCode).proper.plain b inside)).1
  · rw [List.mem_singleton.mp last]
    exact Byte.statementEnd_ne_programEnd

/-- A download goes on where a line was compiled. -/
theorem filling_of_compiled {m : Machine} {content : Bytes}
    (filling : Machine.Filling room .lineStart content m) (compiler : Compiler) (vars : Variables) :
    Machine.Filling room .lineStart content (m.renewed compiler vars) := { filling with }

namespace Underway

section

variable {compiled : Compilation} {more : List Instruction}

/-- A line without a fault that is a part of the program: its code is downloaded. -/
theorem append (underway : Underway room code s) (kept : ∀ i ∈ more, i.Kept)
    (emits : compiled.emitted = more) (faultless : compiled.fault = none)
    (inProgram : compiled.compiler.compiling = true)
    (mark : compiled.compiler.programError = s.machine.compiler.programError) :
    Machine.Alike (s.machine.renewed compiled.compiler compiled.vars)
        (s.receive compiled).machine ∧ Underway room (code ++ more) (s.receive compiled) := by
  subst emits
  have prepared := filling_of_compiled underway.filling compiled.compiler compiled.vars
  obtain ⟨filled, alike⟩ := prepared.encode kept console
  rw [← encode_append] at filled
  refine ⟨alike, filled, List.forall_mem_append.mpr ⟨underway.kept, kept⟩, ?_, ?_, ?_⟩
  · rw [receive, underway.emitted, List.cons_append]
  · rw [compiler_receive, inProgram]
  · rw [compiler_receive, mark, underway.marked]
    simp [receive, faultless]

/-- A line with a fault: nothing is downloaded, and the fault is remembered. -/
theorem mark (underway : Underway room code s) (nothing : compiled.emitted = [])
    (faulty : compiled.fault ≠ none) (inProgram : compiled.compiler.compiling = true)
    (marked : compiled.compiler.programError = true) :
    Machine.Alike (s.machine.renewed compiled.compiler compiled.vars)
        (s.receive compiled).machine ∧ Underway room code (s.receive compiled) := by
  have prepared := filling_of_compiled underway.filling compiled.compiler compiled.vars
  obtain ⟨f, fault⟩ := Option.ne_none_iff_exists'.mp faulty
  have machine : (s.receive compiled).machine =
      s.machine.renewed compiled.compiler compiled.vars := by
    rw [receive, nothing]
    rfl
  refine ⟨machine ▸ .refl _, machine ▸ prepared, underway.kept, ?_, ?_, ?_⟩
  · rw [receive, nothing, List.append_nil, underway.emitted]
  · rw [compiler_receive, inProgram]
  · rw [compiler_receive, marked]
    simp [receive, fault]

/-- The last line, if none had a fault: the program is stored and started if there is room. -/
theorem finish (underway : Underway room code s) (kept : ∀ i ∈ more, i.Kept)
    (emits : compiled.emitted = more ++ [.endDownload]) (faultless : compiled.fault = none)
    (noFaults : s.faults = []) :
    Machine.Alike (s.machine.renewed compiled.compiler compiled.vars)
        (s.receive compiled).machine ∧
      Concluded room (s.receive compiled) ∧ (s.receive compiled).faults = [] := by
  have prepared := filling_of_compiled underway.filling compiled.compiler compiled.vars
  obtain ⟨filled, alike⟩ := prepared.encode kept console
  rw [← encode_append] at filled
  have keptAll := List.forall_mem_append.mpr ⟨underway.kept, kept⟩
  obtain ⟨idle, alike', outcome⟩ :=
    filled.endDownload (ne_programEnd_of_mem_encode keptAll) console
  have received : (s.receive compiled).machine =
      ((s.machine.renewed compiled.compiler compiled.vars).receiveAll
        (encode more) console).receiveAll (encode [.endDownload]) console := by
    rw [receive, emits, encode_append, Machine.receiveAll_append]
  have emitted : (s.receive compiled).emitted =
      .beginDownload :: ((code ++ more) ++ [.endDownload]) := by
    rw [receive, underway.emitted, emits, List.cons_append, List.append_assoc]
  have faults : (s.receive compiled).faults = [] := by simp [receive, noFaults, faultless]
  have whole : stored (s.receive compiled).emitted = encode (code ++ more) := by
    rw [emitted]
    exact stored_framed false keptAll
  refine ⟨?_, ⟨?_, fun _ => ⟨code ++ more, emitted, whole⟩, ?_⟩, faults⟩
  · rw [received]
    exact alike.trans alike'
  · rw [received]
    exact idle.device
  · rw [whole, faults, received]
    simpa [Nat.succ_le_iff] using outcome

/-- The last line, if one had a fault: the download is given up. -/
theorem giveUp (underway : Underway room code s) (emits : compiled.emitted = [.abortDownload])
    (faulty : compiled.fault ≠ none) :
    Machine.Alike (s.machine.renewed compiled.compiler compiled.vars)
        (s.receive compiled).machine ∧ Concluded room (s.receive compiled) := by
  have prepared := filling_of_compiled underway.filling compiled.compiler compiled.vars
  obtain ⟨idle, alike, outcome⟩ := prepared.abortDownload console
  obtain ⟨f, fault⟩ := Option.ne_none_iff_exists'.mp faulty
  have faults : (s.receive compiled).faults ≠ [] := by simp [receive, fault]
  rw [← emits] at idle alike outcome
  refine ⟨alike, idle.device, fun none => absurd none faults, ?_⟩
  rw [if_neg fun both => faults both.1]
  exact outcome

end

/-- A line of a program while it is entered. -/
theorem line (underway : Underway room code s) (noBegin : Keyword.ofText? text ≠ some .begin)
    (goesOn : (s.act (.line text)).machine.compiler.compiling = true) :
    let compiled := s.machine.compiler.compileLine s.machine.vars s.machine.readings text
    Machine.Alike (s.machine.renewed compiled.compiler compiled.vars)
        (s.act (.line text)).machine ∧
      ∃ code, Underway room code (s.act (.line text)) := by
  intro compiled
  rw [act_line, compiler_receive] at goesOn
  rw [act_line]
  by_cases faultless : compiled.fault = none
  · obtain ⟨more, kept, ⟨-, emits, -, mark⟩ | ⟨left, -⟩⟩ :=
      Compiler.emitted_of_accepted underway.inProgram noBegin faultless
    · obtain ⟨alike, next⟩ := underway.append kept emits faultless goesOn mark
      exact ⟨alike, _, next⟩
    · cases goesOn.symm.trans left
  · obtain ⟨nothing, marked⟩ := Compiler.emitted_of_fault underway.inProgram faultless
    rw [if_pos goesOn] at nothing
    obtain ⟨alike, next⟩ := underway.mark nothing faultless goesOn marked
    exact ⟨alike, _, next⟩

/-- The last line of a program. -/
theorem conclude (underway : Underway room code s) (noBegin : Keyword.ofText? text ≠ some .begin)
    (ended : (s.act (.line text)).machine.compiler.compiling = false) :
    let compiled := s.machine.compiler.compileLine s.machine.vars s.machine.readings text
    Machine.Alike (s.machine.renewed compiled.compiler compiled.vars)
        (s.act (.line text)).machine ∧
      Concluded room (s.act (.line text)) ∧ ((s.act (.line text)).faults ≠ [] →
        (s.act (.line text)).machine.compiler.programError = true) := by
  intro compiled
  rw [act_line, compiler_receive] at ended
  rw [act_line, compiler_receive]
  by_cases faultless : compiled.fault = none
  · obtain ⟨more, kept, ⟨-, -, stays, -⟩ | ⟨-, emits, unmarked⟩⟩ :=
      Compiler.emitted_of_accepted underway.inProgram noBegin faultless
    · cases ended.symm.trans stays
    -- An end that is accepted finds no mark, so no line before it had a fault.
    have noFaults : s.faults = [] := by
      by_contra faulty
      rw [underway.marked.mpr faulty] at unmarked
      cases unmarked
    obtain ⟨alike, concluded, none⟩ := underway.finish kept emits faultless noFaults
    exact ⟨alike, concluded, fun faulty => absurd none faulty⟩
  · obtain ⟨emits, marked⟩ := Compiler.emitted_of_fault underway.inProgram faultless
    rw [if_neg (by rw [ended]; decide)] at emits
    obtain ⟨alike, concluded⟩ := underway.giveUp emits faultless
    exact ⟨alike, concluded, fun _ => marked⟩

/-- One act while a program is entered. -/
theorem act (underway : Underway room code s) {a : Act}
    (noBegin : ∀ text, a = .line text → Keyword.ofText? text ≠ some .begin)
    (goesOn : (s.act a).machine.compiler.compiling = true) :
    ∃ code, Underway room code (s.act a) := by
  cases a with
  | line text => exact (underway.line (noBegin text rfl) goesOn).2
  | tick =>
    have still : s.machine.tick = s.machine :=
      Machine.tick_of_not_isRunning (by simp [Machine.isRunning, underway.filling.stopped])
    refine ⟨code, ?_⟩
    simp only [Session.act, still]
    exact underway
  | clock time => exact ⟨code, { underway with filling := { underway.filling with } }⟩

/-- Act after act while a program is entered. -/
theorem actAll (underway : Underway room code s) {acts : List Act}
    (noBegin : ∀ text, .line text ∈ acts → Keyword.ofText? text ≠ some .begin)
    (goesOn : ∀ done, done <+: acts → (s.actAll done).machine.compiler.compiling = true) :
    ∃ code, Underway room code (s.actAll acts) := by
  induction acts generalizing s code with
  | nil => exact ⟨code, underway⟩
  | cons a acts ih =>
    have first := goesOn [a] ⟨acts, rfl⟩
    obtain ⟨code', next⟩ := underway.act
      (fun text same => noBegin text (same ▸ List.mem_cons_self)) first
    exact ih next (fun text member => noBegin text (List.mem_cons_of_mem a member))
      fun done start => goesOn (a :: done) (List.cons_prefix_cons.mpr ⟨rfl, start⟩)

end Underway

/-- The first line of a program. -/
theorem underway_of_begin {m : Machine} (idle : m.Idle) (outside : m.compiler.compiling = false)
    (two : 2 ≤ m.limits.statementLength) (positive : 0 < m.store.capacity)
    (reliable : m.store.medium.IsReliable) (opens : Keyword.ofText? text = some .begin)
    (accepted : (m.compiler.compileLine m.vars m.readings text).fault = none) :
    let compiled := m.compiler.compileLine m.vars m.readings text
    Machine.Alike (m.renewed compiled.compiler compiled.vars)
        (act { machine := m } (.line text)).machine ∧
      Underway m.store.capacity [] (act { machine := m } (.line text)) := by
  obtain ⟨vars, compiled⟩ := Compiler.exists_compileLine_of_begin opens accepted
  rw [outside] at compiled
  have given := Machine.enter_eq compiled
  have same := Machine.compiler_enter m text
  obtain ⟨filling, alike⟩ := Machine.filling_of_beginDownload
    (m := m.renewed m.compiler.countLine.begun vars) { idle with } two positive reliable console
  simp only [act]
  rw [compiled] at same ⊢
  refine ⟨?_, ?_, List.forall_mem_nil _, rfl, ?_, ?_⟩
  · rw [given]
    exact alike
  · rw [given]
    exact filling
  · rw [same]
    rfl
  · rw [same, given]
    simp [Compiler.begun]

/-- Until another program is begun, the mark of a faulty program stays. -/
theorem marked_actAll {acts : List Act} (outside : s.machine.compiler.compiling = false)
    (marked : s.machine.compiler.programError = true)
    (noBegin : ∀ done text, done ++ [.line text] <+: acts → Keyword.ofText? text = some .begin →
      ((s.actAll done).machine.enter text).2 ≠ none) :
    (s.actAll acts).machine.compiler.programError = true := by
  induction acts generalizing s with
  | nil => exact marked
  | cons a acts ih =>
    -- Outside of a program, nothing but a line that begins one takes the mark away.
    have kept : (s.act a).machine.compiler.compiling = false ∧
        (s.act a).machine.compiler.programError = true := by
      cases a with
      | tick => exact ⟨by simpa [act] using outside, by simpa [act] using marked⟩
      | clock time => exact ⟨outside, marked⟩
      | line text =>
        simp only [act, Machine.compiler_enter]
        exact Compiler.marked_compileLine outside marked
          (noBegin [] text (List.cons_prefix_cons.mpr ⟨rfl, List.nil_prefix⟩))
    refine ih kept.1 kept.2 fun done text start begins => ?_
    exact noBegin (a :: done) text (List.cons_prefix_cons.mpr ⟨rfl, start⟩) begins

/-- A program that is entered line by line is either stored and started, all of it, or nothing is
left of it. It is stored just if no line has a fault and the store has room for it. After a fault
no program is started until another one is begun. -/
theorem all_or_nothing {m : Machine} (idle : m.Idle) (outside : m.compiler.compiling = false)
    (positive : 0 < m.store.capacity) (two : 2 ≤ m.limits.statementLength)
    (reliable : m.store.medium.IsReliable) (opening closing : String) (acts : List Act)
    (opens : Keyword.ofText? opening = some .begin)
    (noBegin : ∀ text, .line text ∈ acts → Keyword.ofText? text ≠ some .begin)
    (inside : ∀ done, done <+: acts →
      (actAll { machine := m } (.line opening :: done)).machine.compiler.compiling = true)
    (ended : (actAll { machine := m }
      (.line opening :: (acts ++ [.line closing]))).machine.compiler.compiling = false) :
    let after := actAll { machine := m } (.line opening :: (acts ++ [.line closing]))
    Concluded m.store.capacity after ∧
      (after.faults ≠ [] → ∀ later : List Act,
        (∀ done text, done ++ [.line text] <+: later → Keyword.ofText? text = some .begin →
          ((after.actAll done).machine.enter text).2 ≠ none) →
        ∀ text, Keyword.ofText? text = some .run →
          ((after.actAll later).machine.enter text).2 ≠ none) := by
  have accepted : (m.compiler.compileLine m.vars m.readings opening).fault = none := by
    have begun := (congrArg Compiler.compiling (Machine.compiler_enter m opening)).symm.trans
      (inside [] List.nil_prefix)
    rcases Compiler.compileLine_cases m.compiler m.vars m.readings opening with
      ⟨same, -⟩ | ⟨-, faultless, -⟩ | ⟨-, inProgram, -⟩
    · cases begun.symm.trans (same.trans outside)
    · exact faultless
    · cases inProgram.symm.trans outside
  obtain ⟨-, begun⟩ := underway_of_begin idle outside two positive reliable opens accepted
  obtain ⟨code, underway⟩ := begun.actAll noBegin inside
  have last : actAll { machine := m } (.line opening :: (acts ++ [.line closing])) =
      ((act { machine := m } (.line opening)).actAll acts).act (.line closing) :=
    actAll_append (act { machine := m } (.line opening)) acts [.line closing]
  rw [last] at ended ⊢
  have marks := Compiler.compileLine_cases
    ((act { machine := m } (.line opening)).actAll acts).machine.compiler
    ((act { machine := m } (.line opening)).actAll acts).machine.vars
    ((act { machine := m } (.line opening)).actAll acts).machine.readings closing
  -- The last line begins no other program, because none is being entered after it.
  have noBegin' : Keyword.ofText? closing ≠ some .begin := by
    rw [act, Machine.compiler_enter] at ended
    rcases marks with ⟨same, -⟩ | ⟨-, -, goesOn⟩ | ⟨ends, -, -⟩
    · cases ended.symm.trans (same.trans underway.inProgram)
    · cases ended.symm.trans goesOn
    · rw [ends]
      decide
  obtain ⟨-, concluded, marked⟩ := underway.conclude noBegin' ended
  refine ⟨concluded, fun faulty later noBegin text runs => ?_⟩
  exact Compiler.fault_of_run runs (marked_actAll ended (marked faulty) noBegin)

/-- A line of a program is faulty and a tick is given in between. -/
theorem nothing_of_stray_break :
    let m := Machine.ofLimits {} (.ofLimits { storeCapacity := 50 }) 0
    let after := actAll { machine := m }
      (.line "begin" :: ([.line "print 1", .tick, .line "break"] ++ [.line "end"]))
    after.faults ≠ [] ∧ Concluded 50 after ∧ (after.machine.enter "run").2 ≠ none := by
  intro m after
  have capacity : m.store.capacity = 50 := by decide +kernel
  have faulty : after.faults ≠ [] := by decide +kernel
  have inside : ∀ done ∈ List.inits [Act.line "print 1", .tick, .line "break"],
      (actAll { machine := m } (.line "begin" :: done)).machine.compiler.compiling = true := by
    decide +kernel
  obtain ⟨concluded, refused⟩ := all_or_nothing (m := m) ⟨rfl, rfl, rfl⟩ rfl (by decide) (by decide)
    trivial "begin" "end" [.line "print 1", .tick, .line "break"] (by decide) (by simp; decide)
    (fun done start => inside done ((List.mem_inits _ _).mpr start)) (by decide +kernel)
  rw [capacity] at concluded
  have refused' := refused faulty [] (by simp) "run" (by decide)
  have still (s : Session) : s.actAll [] = s := rfl
  rw [still] at refused'
  exact ⟨faulty, concluded, refused'⟩

end Session

end ControlScript
