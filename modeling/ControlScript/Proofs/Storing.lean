import ControlScript.Proofs.Safety

/-!
# While a program is stored

A machine that stores a program hands each byte to the filter of the download. What does not start
with an `R` is kept there and changes nothing but filter, store and output.

The download ends with an `X` or an `A` behind an `R`. The filter starts afresh, the program is
ended or removed, and the store is saved. If that succeeds, the machine executes statements again.
If it fails, the fault is shown and nothing is left in the store, but the machine goes on storing:
what comes in next is taken for a program that no one has begun.

## Main definitions

* `DownloadFilter.Ends`, `DownloadFilter.completes` — the bytes that end a download
* `Store.ended`, `Store.afterEnd` — what its end leaves in the store

## Main results

* `Machine.exists_receiveAll_of_reachAll` — bytes that become part of a program
* `Machine.exists_download_of_saved`, `Machine.exists_download_of_unsaved` — the end of a download
* `Machine.executes_iff_saved` — the end of a download, after whatever has happened
-/

namespace ControlScript

open Attempt

namespace Store

/-- What the end of a download leaves in a store. -/
def ended (s : Store) (completed : Bool) : Store :=
  if completed then { s.write s.cursor Byte.programEnd with valid := true }
  else { s.write 0 Byte.programEnd with cursor := 0, valid := false }

/-- What the end of a download leaves in a store once it was tried to save that. -/
def afterEnd (s : Store) (completed : Bool) : Store :=
  { s.ended completed with medium := s.medium.afterSave (s.ended completed).region }

@[simp] theorem medium_ended (s : Store) (completed : Bool) :
    (s.ended completed).medium = s.medium := by
  cases completed <;> rfl

@[simp] theorem valid_afterEnd (s : Store) (completed : Bool) :
    (s.afterEnd completed).valid = completed := by
  cases completed <;> rfl

/-- A download that is given up leaves no program. -/
theorem program_afterEnd (s : Store) : (s.afterEnd false).program = [] := by
  cases region : s.region <;> simp [afterEnd, ended, program, write, region]

/-- Saving the end of a download succeeds or fails with the medium. -/
theorem save_ended (s : Store) (completed : Bool) :
    Store.save (s.ended completed) =
      if s.medium.fails then .error (.of .storageFailure) (s.afterEnd completed)
      else .ok () (s.afterEnd completed) := by
  simp [save, afterEnd]

end Store

namespace DownloadFilter

variable {f : DownloadFilter} {b : UInt8}

/-- Behind an `R`, the byte ends a download. -/
def Ends (b : UInt8) : Prop := Byte.spells 'X' b = true ∨ Byte.spells 'A' b = true

/-- Whether a byte that ends a download completes it: an `X`, if the program did fit. -/
def completes (f : DownloadFilter) (b : UInt8) : Bool := Byte.spells 'X' b && !f.overflowed

/-- A byte that ends a download starts the filter afresh and saves what is left in the store. -/
theorem process_of_ends (place : f.place = .gotR) (ends : Ends b) (s : Store) :
    process b (f, s) =
      if s.medium.fails then .error (.of .storageFailure) (fresh, s.afterEnd (f.completes b))
      else .ok (if f.completes b then .finished else .aborted)
        (fresh, s.afterEnd (f.completes b)) := by
  have counts : Byte.counts b = true := by
    rcases ends with x | a
    · exact counts_of_spells (by decide) x
    · exact counts_of_spells (by decide) a
  -- Both ends start the filter afresh before they try to save the store.
  have aborted : abort (f, s) =
      if s.medium.fails then .error (.of .storageFailure) (fresh, s.afterEnd false)
      else .ok .aborted (fresh, s.afterEnd false) := by
    have saves : Store.clear s = Store.save (s.ended false) := rfl
    rw [abort, conclude, saves, Store.save_ended]
    cases s.medium.fails <;> rfl
  have finished : finish (f, s) =
      if s.medium.fails then .error (.of .storageFailure) (fresh, s.afterEnd true)
      else .ok .finished (fresh, s.afterEnd true) := by
    have saves : Store.finishDownload s = Store.save (s.ended true) := rfl
    rw [finish, conclude, saves, Store.save_ended]
    cases s.medium.fails <;> rfl
  rw [process_of_counts counts, place]
  dsimp only
  rw [aborted, finished]
  cases last : Byte.spells 'X' b with
  | true => cases room : f.overflowed <;> simp [completes, last, room]
  | false =>
    have given : Byte.spells 'A' b = true := ends.resolve_left (by simp [last])
    simp [completes, last, given]

end DownloadFilter

namespace Machine

variable {m : Machine} {b : UInt8}

/-- A byte that becomes part of a program. -/
theorem exists_receive_of_reaches (device : m.device = .storeProgram)
    (reaches : Reaches m.filter.place b) (dest : Destination) :
    ∃ filter store outbox, m.receive b dest = { m with filter, store, outbox } ∧
      filter.place = DownloadFilter.placeAfter .storing b := by
  obtain ⟨filter, store, result, place⟩ := DownloadFilter.exists_of_keep b
    { m.filter with place := DownloadFilter.placeAfter .storing b } m.store
  rw [← process_of_reaches reaches] at result
  obtain ⟨store, outbox, kept⟩ := exists_download_of_goesOn result dest
  have taken : m.receive b dest = m.download b dest := by rw [receive, device]
  exact ⟨filter, store, outbox, taken.trans kept, place⟩

/-- Bytes that become part of a program. -/
theorem exists_receiveAll_of_reachAll {bytes : Bytes} (device : m.device = .storeProgram)
    (reach : ReachAll m.filter.place bytes) (dest : Destination) :
    ∃ filter store outbox, m.receiveAll bytes dest = { m with filter, store, outbox } ∧
      filter.place = placeAfterAll m.filter.place bytes := by
  induction bytes generalizing m with
  | nil => exact ⟨m.filter, m.store, m.outbox, rfl, rfl⟩
  | cons b bytes ih =>
    obtain ⟨reaches, later⟩ := reach
    obtain ⟨filter, store, outbox, received, place⟩ := exists_receive_of_reaches device reaches dest
    rw [← place] at later
    obtain ⟨filter', store', outbox', received', place'⟩ :=
      ih (m := { m with filter, store, outbox }) device later
    change ∃ filter store outbox, (m.receive b dest).receiveAll bytes dest = _ ∧ _
    rw [received, received']
    exact ⟨filter', store', outbox', rfl, place'.trans (by rw [place]; rfl)⟩

/-- Statements that become part of a program: none of them is executed. -/
theorem exists_receiveAll_encode {code : List Instruction} (device : m.device = .storeProgram)
    (place : m.filter.place = .lineStart) (kept : ∀ i ∈ code, i.Kept) (dest : Destination) :
    ∃ filter store outbox,
      m.receiveAll (Instruction.encode code) dest = { m with filter, store, outbox } ∧
        filter.place = .lineStart := by
  obtain ⟨reach, last⟩ := reachAll_encode kept
  rw [← place] at reach
  obtain ⟨filter, store, outbox, received, place'⟩ :=
    exists_receiveAll_of_reachAll device reach dest
  exact ⟨filter, store, outbox, received, place'.trans (by rw [place, last])⟩

/-- A download that ends with a save that succeeds: the machine executes statements again. -/
theorem exists_download_of_saved (place : m.filter.place = .gotR) (ends : DownloadFilter.Ends b)
    (saves : m.store.medium.fails = false) (dest : Destination) :
    let completed := m.filter.completes b
    ∃ outbox, m.download b dest = { m with
      filter := .fresh
      store := m.store.afterEnd completed
      device := .executeImmediately
      discarding := true
      program := if completed then .active else m.program
      pc := if completed then 0 else m.pc
      owner := if completed then dest else m.owner
      outbox } := by
  have processed := DownloadFilter.process_of_ends place ends m.store
  simp only [saves, Bool.false_eq_true, if_false] at processed
  dsimp only
  cases completed : m.filter.completes b with
  | false =>
    rw [completed, if_neg Bool.false_ne_true] at processed
    rw [download, processed]
    exact exists_diagnose_eq _ _ _ _
  | true =>
    rw [completed, if_pos rfl] at processed
    rw [download, processed]
    exact exists_start_eq _ dest "DOWNLOAD COMPLETE"

/-- A download that ends with a save that fails: the fault is shown, and the store is cleared. -/
theorem exists_download_of_unsaved (place : m.filter.place = .gotR) (ends : DownloadFilter.Ends b)
    (fails : m.store.medium.fails = true) (dest : Destination) :
    ∃ later, m.download b dest = { m with
      filter := .fresh
      store := reached (Store.clear (m.store.afterEnd (m.filter.completes b)))
      outbox := (m.report dest (.of .storageFailure)).outbox ++ later } := by
  have processed := DownloadFilter.process_of_ends place ends m.store
  simp only [fails, if_true] at processed
  rw [download, processed]
  dsimp only
  have reported (filter : DownloadFilter) (store : Store) :
      { m with filter, store }.report dest (.of .storageFailure) =
        { m with filter, store, outbox := (m.report dest (.of .storageFailure)).outbox } := by
    unfold report diagnose
    split <;> rfl
  rw [reported]
  split
  · exact ⟨#[], by rw [Array.append_empty]⟩
  · exact exists_diagnose_append _ _ _ _

/-- The end of a line leaves the filter at the start of the next. -/
theorem receive_statementEnd_of_lineStart (device : m.device = .storeProgram)
    (place : m.filter.place = .lineStart) (dest : Destination) :
    m.receive Byte.statementEnd dest = m := by
  have processed := DownloadFilter.process_of_counts (b := Byte.statementEnd) (by decide) m.filter
    m.store
  rw [place] at processed
  have taken : m.receive Byte.statementEnd dest = m.download Byte.statementEnd dest := by
    rw [receive, device]
  rw [taken, download_of_more processed]

/-- After a download was ended, the next statement is stored if the machine goes on storing. -/
theorem exists_receiveAll_of_unsaved {text : Bytes} (device : m.device = .storeProgram)
    (place : m.filter.place = .lineStart) (plain : ∀ b ∈ text, Byte.isControl b = false)
    (nonempty : text ≠ []) (own : text.head?.any (Byte.spells 'R') = false) (dest : Destination) :
    ∃ filter store outbox,
      m.receiveAll (Byte.statementEnd :: (text ++ [Byte.statementEnd])) dest =
        { m with filter, store, outbox } := by
  obtain ⟨reach, -⟩ := reachAll_statement plain nonempty own
  rw [← place] at reach
  obtain ⟨filter, store, outbox, received, -⟩ := exists_receiveAll_of_reachAll device reach dest
  refine ⟨filter, store, outbox, ?_⟩
  change (m.receive Byte.statementEnd dest).receiveAll (text ++ [Byte.statementEnd]) dest = _
  rw [receive_statementEnd_of_lineStart device place, received]

/-- After a download was ended, the next statement is executed if the machine does that again. -/
theorem receiveAll_of_saved {text : Bytes} (device : m.device = .executeImmediately)
    (discarding : m.discarding = true) (plain : ∀ b ∈ text, Byte.isControl b = false)
    (nonempty : text ≠ []) (fits : text.length ≤ m.limits.statementLength) (dest : Destination) :
    m.receiveAll (Byte.statementEnd :: (text ++ [Byte.statementEnd])) dest =
      { m with line := [], discarding := false }.execute text .live dest := by
  change (m.receive Byte.statementEnd dest).receiveAll (text ++ [Byte.statementEnd]) dest = _
  rw [receive_of_discarding device discarding]
  exact receiveAll_statement (m := { m with line := [], discarding := false })
    ⟨device, rfl, rfl⟩ plain nonempty fits dest

/-- Bytes that come in, one after the other, leave a machine safe. -/
theorem Safe.receiveAll (safe : m.Safe) (bytes : Bytes) (dest : Destination) :
    (m.receiveAll bytes dest).Safe ∧ (m.receiveAll bytes dest).limits = m.limits := by
  induction bytes generalizing m with
  | nil => exact ⟨safe, rfl⟩
  | cons b bytes ih =>
    obtain ⟨safe', happens⟩ := safe.receive b dest
    obtain ⟨later, same⟩ := ih safe'
    exact ⟨later, same.trans (happens.elim Tame.limits Completed.limits)⟩

/-- Whatever has happened to a machine, and also between two bytes of a line of script: the byte
that ends a download starts the filter afresh, and the machine executes statements again just if
saving the store does not fail. If it fails, that is shown, the program is stopped and the store is
left invalid and empty; but the next statement is stored and not executed. -/
theorem executes_iff_saved (limits : Limits) (region : Bytes) (medium : Medium) (coin : Coin)
    (events : List Event) (compiler : Compiler) (vars : Variables) (received : Bytes) (b : UInt8)
    (dest : Destination) :
    let m := (((fresh limits (.ofRegion region medium) coin).meetAll events).renewed compiler
      vars).receiveAll received console
    let n := m.receive b dest
    let completed := m.filter.completes b
    m.device = .storeProgram → m.filter.place = .gotR → DownloadFilter.Ends b →
      n.filter = .fresh ∧
      if m.store.medium.fails then
        n.device = .storeProgram ∧ n.program = .stopped ∧
          n.store.valid = false ∧ n.store.program = [] ∧
          (∃ later, n.outbox = (m.report dest (.of .storageFailure)).outbox ++ later) ∧
          ∀ text, text ≠ [] → (∀ b ∈ text, Byte.isControl b = false) →
            text.head?.any (Byte.spells 'R') = false → ∃ filter store outbox,
              n.receiveAll (Byte.statementEnd :: (text ++ [Byte.statementEnd])) dest =
                { n with filter, store, outbox }
      else
        n.device = .executeImmediately ∧ n.program = (if completed then .active else .stopped) ∧
          n.store = m.store.afterEnd completed ∧ n.store.valid = completed ∧
          (completed = false → n.store.program = []) ∧
          ∀ text, text ≠ [] → (∀ b ∈ text, Byte.isControl b = false) →
            text.length ≤ n.limits.statementLength →
              n.receiveAll (Byte.statementEnd :: (text ++ [Byte.statementEnd])) dest =
                { n with line := [], discarding := false }.execute text .live dest := by
  intro m n completed device place ends
  have renewed : (((fresh limits (.ofRegion region medium) coin).meetAll events).renewed
    compiler vars).Safe := { ((Safe.opened limits region medium coin).meetAll events).1 with }
  -- In the middle of a line too, a machine that stores runs no program.
  have safe : m.Safe := (renewed.receiveAll received console).1
  have stopped := safe.stopped device
  have taken : n = m.download b dest := by
    change m.receive b dest = _
    rw [receive, device]
  cases fails : m.store.medium.fails with
  | true =>
    obtain ⟨later, ended⟩ := exists_download_of_unsaved place ends fails dest
    have unsaved := taken.trans ended
    -- The filter was fresh before it was tried to save, and takes the rest for a new program.
    have device' : n.device = .storeProgram := by rw [unsaved, device]
    have place' : n.filter.place = .lineStart := by rw [unsaved]; rfl
    refine ⟨by rw [unsaved], ?_⟩
    rw [if_pos rfl]
    refine ⟨device', by rw [unsaved, stopped], ?_, ?_, ⟨later, by rw [unsaved]⟩, ?_⟩
    · rw [unsaved]
      exact Store.valid_clear _
    · rw [unsaved]
      exact Store.program_clear _
    · intro text nonempty plain own
      exact exists_receiveAll_of_unsaved device' place' plain nonempty own dest
  | false =>
    obtain ⟨outbox, ended⟩ := exists_download_of_saved place ends fails dest
    have saved := taken.trans ended
    refine ⟨by rw [saved], ?_⟩
    rw [if_neg Bool.false_ne_true]
    refine ⟨by rw [saved], by rw [saved, stopped], by rw [saved], ?_, ?_, ?_⟩
    · rw [saved]
      exact m.store.valid_afterEnd completed
    · intro given
      rw [saved]
      exact (congrArg (Store.program <| m.store.afterEnd ·) given).trans m.store.program_afterEnd
    · intro text nonempty plain fits
      exact receiveAll_of_saved (by rw [saved]) (by rw [saved]) plain nonempty fits dest

/-- An empty download that is completed, but cannot be saved: the first save succeeds, and those
after it fail. -/
theorem executes_iff_saved_of_empty :
    let stores : Medium := .file { failures := [false, true, true] }
    let begins : List Event := [.byte 0x52 console, .byte 0x4D console,
      .byte Byte.statementEnd console]
    let m := (((fresh {} (.ofRegion (List.replicate 10 0) stores) (.ofSeed 0)).meetAll begins).renewed
      (.ofLimits {}) (.ofLimits {})).receiveAll [0x52] console
    let n := m.receive 0x58 console
    m.device = .storeProgram ∧ m.filter.place = .gotR ∧ m.store.medium.fails = true ∧
      n.device = .storeProgram ∧ n.store.valid = false ∧ n.store.program = [] := by
  intro stores begins
  have ended := executes_iff_saved {} (List.replicate 10 0) stores (.ofSeed 0) begins (.ofLimits {})
    (.ofLimits {}) [0x52] 0x58 console
  -- What has come in until then is evaluated for the three facts about it alone.
  dsimp only at ended ⊢
  generalize run : Machine.receiveAll _ [0x52] console = m at ended ⊢
  have here : m.device = .storeProgram ∧ m.filter.place = .gotR ∧ m.store.medium.fails = true := by
    rw [← run]
    decide +kernel
  obtain ⟨device, place, fails⟩ := here
  obtain ⟨-, left⟩ := ended device place (.inl (by decide))
  rw [if_pos fails] at left
  obtain ⟨device', -, invalid, empty, -⟩ := left
  exact ⟨device, place, fails, device', invalid, empty⟩

/-- A download whose end cannot be saved: the machine still stores what comes in, and does not show
the text `A` that it is told to write. -/
theorem stores_after_unsaved_end :
    let stores : Medium := .file { failures := [false, true, true] }
    let m := (ofLimits {} (.ofRegion (List.replicate 10 0) stores) 0).receiveAll
      (Bytes.ofString "RM\rR") console
    let n := m.receiveAll (Bytes.ofString "X\rWTA\r") console
    m.device = .storeProgram ∧ m.filter.place = .gotR ∧
      (m.receive 0x58 console).device = .storeProgram ∧ n.device = .storeProgram ∧
      n.outbox = #[] ∧ n.store.program = Bytes.ofString "WTA\r" := by
  decide +kernel

end Machine

end ControlScript
