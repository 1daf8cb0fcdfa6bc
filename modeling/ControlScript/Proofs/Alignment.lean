import ControlScript.Proofs.Logged
import ControlScript.Proofs.Storing

/-!
# Between two statements

Whatever a statement says, and whatever becomes of it, the machine takes the next one from its
start: it has no rest of a line left, or the filter of its download is at the start of a line. This
needs no reliable medium, and it holds even where a download ends in the middle of a line.

The statement that begins a download is executed if the device executes what comes in, and begins
the download if the store can be saved. A device that stores already drops it.

## Main definitions

* `Machine.Aligned` — the machine is between two statements
* `Machine.Turned` — what a statement may do to the device

## Main results

* `Machine.Turned.execute`, `Machine.Turned.tick` — a statement that is executed
* `Machine.Aligned.statement`, `Machine.Aligned.encode` — statements that come in
* `Machine.receiveAll_beginDownload_of_idle`, `Machine.receiveAll_beginDownload_of_storing` — the
  statement that begins a download
-/

namespace ControlScript

open Attempt Command

namespace Machine

variable {k m n : Machine} {b : UInt8} {text : Bytes}

/-- The machine is between two statements, both for the device and for the filter of a download. -/
structure Aligned (m : Machine) : Prop where
  idle : m.device = .executeImmediately → m.line = [] ∧ m.discarding = false
  place : m.device = .storeProgram → m.filter.place = .lineStart

theorem Aligned.toIdle (aligned : m.Aligned) (device : m.device = .executeImmediately) : Idle m :=
  ⟨device, (aligned.idle device).1, (aligned.idle device).2⟩

/-- A statement leaves the line that comes in alone, and the device too unless a download begins. -/
structure Turned (m n : Machine) : Prop where
  limits : n.limits = m.limits
  line : n.line = m.line
  discarding : n.discarding = m.discarding
  filter : n.filter = m.filter ∨ n.filter = .fresh
  device : n.device = m.device ∨ n.device = .storeProgram ∧ n.filter = .fresh

theorem allows_turned : Allows Turned where
  refl _ := ⟨rfl, rfl, rfl, .inl rfl, .inl rfl⟩
  trans := by
    intro k m n first second
    -- No statement leaves a filter of its own behind: it is the old one, or that of a new download.
    have filter : n.filter = k.filter ∨ n.filter = .fresh := by
      rcases second.filter with same | fresh
      · exact first.filter.imp same.trans same.trans
      · exact .inr fresh
    refine ⟨second.limits.trans first.limits, second.line.trans first.line,
      second.discarding.trans first.discarding, filter, ?_⟩
    rcases second.device with same | begun
    · refine first.device.imp same.trans fun ⟨stores, fresh⟩ => ⟨same.trans stores, ?_⟩
      exact second.filter.elim (fun same => same.trans fresh) id
    · exact .inr begun
  vars _ _ _ := ⟨rfl, rfl, rfl, .inl rfl, .inl rfl⟩
  outbox _ _ := ⟨rfl, rfl, rfl, .inl rfl, .inl rfl⟩
  diagnostics _ _ := ⟨rfl, rfl, rfl, .inl rfl, .inl rfl⟩

theorem Steered.turned {origin : Origin} (steered : Steered origin m n) : Turned m n :=
  ⟨steered.limits, steered.line, steered.discarding, .inl steered.filter, .inl steered.device⟩

namespace Turned

/-- A machine that is between two statements is so again. -/
theorem aligned (turned : Turned m n) (aligned : m.Aligned) : n.Aligned where
  idle device := by
    have same : m.device = .executeImmediately := by
      rcases turned.device with same | ⟨stores, -⟩
      · exact same.symm.trans device
      · cases device.symm.trans stores
    rw [turned.line, turned.discarding]
    exact aligned.idle same
  place device := by
    have fresh : n.filter = .fresh → n.filter.place = .lineStart := fun fresh => by
      rw [fresh]
      rfl
    rcases turned.device with same | ⟨-, begun⟩
    · rcases turned.filter with kept | begun
      · rw [kept]
        exact aligned.place (same.symm.trans device)
      · exact fresh begun
    · exact fresh begun

/-- The program may come to any state. -/
theorem enters (m : Machine) (state : ProgramState) : Turned m { m with program := state } :=
  ⟨rfl, rfl, rfl, .inl rfl, .inl rfl⟩

theorem beginDownload (dest : Destination) : (Machine.beginDownload dest).Within Turned := by
  intro m
  obtain ⟨outbox, stopped⟩ := exists_enterState_eq m .stopped dest
  simp only [Machine.beginDownload, bind_apply, modify_apply, stopped, onStore, Attempt.on,
    Store.beginDownload]
  -- The filter is fresh even if the store refuses the download, and the device does not follow it.
  cases Store.clear m.store with
  | ok _ store =>
    refine allows_turned.trans ?_ (allows_turned.diagnose _ 2 dest _)
    exact ⟨rfl, rfl, rfl, .inr rfl, .inr ⟨rfl, rfl⟩⟩
  | error f store => exact ⟨rfl, rfl, rfl, .inr rfl, .inl rfl⟩

theorem clearProgram (dest : Destination) : (Machine.clearProgram dest).Within Turned := by
  intro m
  obtain ⟨outbox, stopped⟩ := exists_enterState_eq m .stopped dest
  simp only [Machine.clearProgram, bind_apply, modify_apply, stopped, onStore, Attempt.on]
  cases Store.clear m.store <;> exact ⟨rfl, rfl, rfl, .inl rfl, .inl rfl⟩

theorem startProgram (dest : Destination) : (Machine.startProgram dest).Within Turned := by
  refine .get_bind fun m => ?_
  split
  · exact allows_turned.refl m
  · have rewound : Turned m { m with pc := 0, owner := dest } :=
      ⟨rfl, rfl, rfl, .inl rfl, .inl rfl⟩
    exact allows_turned.trans rewound (allows_turned.enterState enters _ .active dest)

theorem perform (op : Opcode) (args : Bytes) (origin : Origin) (dest : Destination) :
    (Machine.perform op args origin dest).Within Turned := by
  by_cases begins : op = .beginDownload
  · subst begins
    exact beginDownload dest
  by_cases starts : op = .start
  · subst starts
    exact startProgram dest
  by_cases clears : op = .clearProgram
  · subst clears
    exact clearProgram dest
  · exact fun m => (within_steered_perform begins starts clears args dest m).turned

theorem execute (m : Machine) (statement : Bytes) (origin : Origin) (dest : Destination) :
    Turned m (m.execute statement origin dest) :=
  allows_turned.execute (fun op _ => perform op _ origin dest) m

theorem tick (m : Machine) : Turned m m.tick :=
  allows_turned.tick enters (fun _ _ => ⟨rfl, rfl, rfl, .inl rfl, .inl rfl⟩)
    (fun m statement => execute m statement .program m.owner) m

end Turned

/-- A statement that comes in is nothing at all, is too long, or is executed. -/
theorem Idle.receiveAll_statement_cases (idle : Idle m)
    (plain : ∀ b ∈ text, Byte.isControl b = false) (dest : Destination) :
    let n := m.receiveAll (text ++ [Byte.statementEnd]) dest
    n = m ∨ n = m.report dest (.of .statementTooLong) ∨
      text ≠ [] ∧ n = m.execute text .live dest := by
  by_cases nonempty : text = []
  · left
    rw [nonempty]
    calc m.receive Byte.statementEnd dest
        = m.assemble Byte.statementEnd dest := by rw [receive, idle.device]
      _ = { m with line := [], discarding := false } := by
          rw [assemble, if_pos rfl]
          exact if_pos (by simp [idle.line])
      _ = m := by rw [← idle.line, ← idle.discarding]
  · by_cases fits : text.length ≤ m.limits.statementLength
    · exact .inr (.inr ⟨nonempty, receiveAll_statement idle plain nonempty fits dest⟩)
    · exact .inr (.inl (receiveAll_of_tooLong idle plain (Nat.lt_of_not_le fits) dest))

/-- What comes in while statements are executed leaves the machine between two statements. -/
theorem Idle.aligned_statement (idle : Idle m) (plain : ∀ b ∈ text, Byte.isControl b = false)
    (dest : Destination) : (m.receiveAll (text ++ [Byte.statementEnd]) dest).Aligned := by
  have aligned : m.Aligned :=
    ⟨fun _ => ⟨idle.line, idle.discarding⟩, fun device => by cases idle.device.symm.trans device⟩
  rcases idle.receiveAll_statement_cases plain dest with same | reported | ⟨-, executed⟩
  · rwa [same]
  · rw [reported]
    exact (allows_turned.diagnose m 1 dest _).aligned aligned
  · rw [executed]
    exact (Turned.execute m text .live dest).aligned aligned

/-- A byte of a download either leaves the device storing, or ends the download. -/
theorem receive_cases_of_storing (device : m.device = .storeProgram) (b : UInt8)
    (dest : Destination) :
    let n := m.receive b dest
    n.device = .storeProgram ∨ n.device = .executeImmediately ∧ n.discarding = true := by
  have taken : m.receive b dest = m.download b dest := by rw [receive, device]
  dsimp only
  rw [taken]
  cases result : DownloadFilter.process b (m.filter, m.store) with
  | error f after =>
    obtain ⟨filter, store⟩ := after
    obtain ⟨store', outbox, kept⟩ := exists_download_of_goesOn (.inr ⟨f, result⟩) dest
    rw [kept]
    exact .inl device
  | ok outcome after =>
    obtain ⟨filter, store⟩ := after
    cases outcome with
    | more =>
      obtain ⟨store', outbox, kept⟩ := exists_download_of_goesOn (.inl result) dest
      rw [kept]
      exact .inl device
    | aborted =>
      obtain ⟨outbox, shown⟩ := exists_diagnose_eq { m with
        filter, store, device := .executeImmediately, discarding := true } 2 dest "DOWNLOAD ABORTED"
      rw [download, result]
      exact .inr ⟨congrArg Machine.device shown, congrArg Machine.discarding shown⟩
    | finished =>
      obtain ⟨outbox, started⟩ := exists_start_eq { m with
        filter, store, device := .executeImmediately, discarding := true } dest "DOWNLOAD COMPLETE"
      rw [download, result]
      exact .inr ⟨congrArg Machine.device started, congrArg Machine.discarding started⟩

/-- The end of a line leaves a download at the start of the next one. -/
theorem aligned_receive_statementEnd (device : m.device = .storeProgram) (dest : Destination) :
    (m.receive Byte.statementEnd dest).Aligned := by
  have taken : m.receive Byte.statementEnd dest = m.download Byte.statementEnd dest := by
    rw [receive, device]
  -- Wherever in the line the filter is, the line is over, and no byte that ends it ends a download.
  obtain ⟨filter, store, result, place⟩ : ∃ filter store,
      (DownloadFilter.process Byte.statementEnd (m.filter, m.store) = .ok .more (filter, store) ∨
        ∃ fault, DownloadFilter.process Byte.statementEnd (m.filter, m.store) =
          .error fault (filter, store)) ∧ filter.place = .lineStart := by
    rw [DownloadFilter.process_of_counts (by decide)]
    cases place : m.filter.place with
    | lineStart => exact ⟨m.filter, m.store, .inl rfl, place⟩
    | gotR | skipping => exact ⟨{ m.filter with place := .lineStart }, m.store, .inl rfl, rfl⟩
    | storing => exact DownloadFilter.exists_of_keep _ { m.filter with place := .lineStart } m.store
  obtain ⟨store, outbox, kept⟩ := exists_download_of_goesOn result dest
  rw [taken, kept]
  exact ⟨fun executes => (by cases device.symm.trans executes), fun _ => place⟩

/-- What comes in while a program is stored leaves the machine between two statements. The induction
is on what comes in, and the filter may be anywhere in a line. -/
theorem aligned_statement_of_storing (device : m.device = .storeProgram)
    (plain : ∀ b ∈ text, Byte.isControl b = false) (dest : Destination) :
    (m.receiveAll (text ++ [Byte.statementEnd]) dest).Aligned := by
  induction text generalizing m with
  | nil => exact aligned_receive_statementEnd device dest
  | cons b text ih =>
    have later (c : UInt8) (member : c ∈ text) := plain c (List.mem_cons_of_mem b member)
    change ((m.receive b dest).receiveAll (text ++ [Byte.statementEnd]) dest).Aligned
    rcases receive_cases_of_storing device b dest with stores | ⟨executes, discarding⟩
    · exact ih stores later
    · -- The download has ended, and the rest of the line is dropped.
      rw [receiveAll_of_discarding executes discarding later]
      exact ⟨fun _ => ⟨rfl, rfl⟩, fun stores => by cases executes.symm.trans stores⟩

namespace Aligned

theorem renewed (aligned : m.Aligned) (compiler : Compiler) (vars : Variables) :
    (m.renewed compiler vars).Aligned := ⟨aligned.idle, aligned.place⟩

/-- Whatever stands in a statement, the machine is between two statements afterwards. -/
theorem statement (aligned : m.Aligned) (plain : ∀ b ∈ text, Byte.isControl b = false)
    (dest : Destination) : (m.receiveAll (text ++ [Byte.statementEnd]) dest).Aligned := by
  cases device : m.device with
  | executeImmediately => exact (aligned.toIdle device).aligned_statement plain dest
  | storeProgram => exact aligned_statement_of_storing device plain dest

/-- Statements that can be read again. -/
theorem encode {code : List Instruction} (aligned : m.Aligned) (proper : ∀ i ∈ code, i.Proper)
    (dest : Destination) : (m.receiveAll (Instruction.encode code) dest).Aligned := by
  induction code generalizing m with
  | nil => exact aligned
  | cons i code ih =>
    have first := aligned.statement (proper i List.mem_cons_self).plain dest
    have later := ih first fun j member => proper j (List.mem_cons_of_mem i member)
    rwa [← receiveAll_append] at later

end Aligned

/-- While a program is stored, the statement that begins a download is dropped. -/
theorem receiveAll_beginDownload_of_storing (device : m.device = .storeProgram)
    (place : m.filter.place = .lineStart) (dest : Destination) :
    m.receiveAll (Instruction.encode [.beginDownload]) dest = m := by
  -- The filter moves over the three bytes and keeps none of them.
  have moves (place place' : DownloadPlace) (b : UInt8)
      (moved : DownloadFilter.process b ({ m.filter with place }, m.store) =
        .ok .more ({ m.filter with place := place' }, m.store)) :
      ({ m with filter := { m.filter with place } } : Machine).receive b dest =
        { m with filter := { m.filter with place := place' } } := by
    simp only [receive, device]
    exact download_of_more moved
  have start : m = { m with filter := { m.filter with place := .lineStart } } := by rw [← place]
  rw [start]
  calc Machine.receiveAll { m with filter := { m.filter with place := .lineStart } }
        (Instruction.encode [.beginDownload]) dest
      = ((Machine.receive { m with filter := { m.filter with place := .lineStart } } 0x52
          dest).receive 0x4D dest).receive Byte.statementEnd dest := rfl
    _ = (Machine.receive { m with filter := { m.filter with place := .gotR } } 0x4D
          dest).receive Byte.statementEnd dest := by rw [moves .lineStart .gotR 0x52 rfl]
    _ = Machine.receive { m with filter := { m.filter with place := .skipping } }
          Byte.statementEnd dest := by rw [moves .gotR .skipping 0x4D rfl]
    _ = { m with filter := { m.filter with place := .lineStart } } :=
        moves .skipping .lineStart Byte.statementEnd rfl

/-- Otherwise it stops the program, and the device stores from then on just if the store could be
saved. -/
theorem receiveAll_beginDownload_of_idle (idle : Idle m) (two : 2 ≤ m.limits.statementLength)
    (dest : Destination) :
    let n := m.receiveAll (Instruction.encode [.beginDownload]) dest
    n.program = .stopped ∧
      n.device = if m.store.medium.fails then .executeImmediately else .storeProgram := by
  have received : m.receiveAll (Instruction.encode [.beginDownload]) dest =
      m.execute Opcode.beginDownload.code .live dest :=
    receiveAll_statement idle (Instruction.plain_code .beginDownload) (by decide) two dest
  have named : Opcode.ofStatement? Opcode.beginDownload.code = some .beginDownload := by decide
  obtain ⟨before, after, executed⟩ := exists_execute_eq named m .live dest
  dsimp only
  rw [received, executed]
  obtain ⟨outbox, stopped⟩ := exists_enterState_eq { m with outbox := before } .stopped dest
  have saves : Store.clear m.store = Store.save (m.store.ended false) := rfl
  have performed : perform .beginDownload (Opcode.beginDownload.code.drop 2) .live dest
      { m with outbox := before } = Machine.beginDownload dest { m with outbox := before } := rfl
  rw [performed]
  simp only [Machine.beginDownload, bind_apply, modify_apply, stopped, onStore, Attempt.on,
    Store.beginDownload, saves, Store.save_ended]
  cases m.store.medium.fails with
  | true => exact ⟨rfl, idle.device⟩
  | false =>
    obtain ⟨outbox', remarked⟩ := exists_diagnose_eq { m with
      outbox, program := .stopped, filter := .fresh, store := m.store.afterEnd false
      device := .storeProgram } 2 dest "STORING PROGRAM"
    simp only [Bool.false_eq_true, if_false]
    rw [remark, remarked]
    exact ⟨rfl, rfl⟩

/-- Statements that become part of a program, executed as they come in. None of them begins a
download or makes a program run. -/
theorem Idle.encode {code : List Instruction} (idle : Idle m) (kept : ∀ i ∈ code, i.Kept)
    (dest : Destination) :
    let n := m.receiveAll (Instruction.encode code) dest
    n.device = .executeImmediately ∧ (m.program = .stopped → n.program = .stopped) := by
  induction code generalizing m with
  | nil => exact ⟨idle.device, id⟩
  | cons i code ih =>
    obtain ⟨proper, own⟩ := kept i List.mem_cons_self
    have steered : Steered .live m (m.receiveAll (i.text ++ [Byte.statementEnd]) dest) := by
      -- Whatever becomes of the statement, it does no more than steer the machine.
      rcases idle.receiveAll_statement_cases proper.plain dest with same | reported | ⟨-, executed⟩
      · rw [same]
        exact (allows_steered .live).refl m
      · rw [reported]
        exact (allows_steered .live).diagnose m 1 dest _
      · rw [executed]
        exact Steered.execute proper.text_ne_nil own .live dest m
    have idle' : Idle (m.receiveAll (i.text ++ [Byte.statementEnd]) dest) :=
      ⟨steered.device.trans idle.device, steered.line.trans idle.line,
        steered.discarding.trans idle.discarding⟩
    obtain ⟨device, stays⟩ := ih idle' fun j member => kept j (List.mem_cons_of_mem i member)
    rw [← receiveAll_append] at device stays
    exact ⟨device, fun stopped => stays (steered.program rfl stopped)⟩

end Machine

end ControlScript
