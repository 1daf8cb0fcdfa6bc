import ControlScript.Proofs.Safety
import ControlScript.Proofs.Ticks

/-!
# What a completed download leaves

The filter of a download lets whole lines pass, and none that is meant for the machine. So a program
that came through it consists of such lines, whatever was stored before and whether or not storage is
reliable: as soon as a byte is refused the download can no longer be completed. From the start of a
statement on, nothing but one of these lines is ever fetched.

## Main definitions

* `Store.HoldsLines` — the program consists of lines that are not meant for the machine
* `DownloadFilter.Sound` — the store holds what the filter has let pass
* `Machine.Sifts` — while a program is stored, filter and store agree in that way

## Main results

* `DownloadFilter.Sound.process`, `DownloadFilter.Sound.finished` — a byte, and the last one
* `Store.HoldsLines.text_of_fetch?` — what is fetched from such a program
* `Machine.Sifts.meet` — whatever happens to a machine
* `Machine.Sifts.holdsLines_of_completedBy` — the program when a download has been completed
-/

namespace ControlScript

open Attempt Bytes

/-- The program consists of lines of a stream, none of which is meant for the machine. -/
def Store.HoldsLines (s : Store) : Prop :=
  ∃ lines : List Bytes, s.program = content lines ∧
    ∀ line ∈ lines, ∀ b ∈ line, Byte.isControl b = false

/-- After a store was cleared the next download starts at its beginning, even if saving failed. -/
theorem Store.cursor_clear (s : Store) : (reached (Store.clear s)).cursor = 0 := by
  rw [Store.reached_clear]

namespace DownloadFilter

variable {f f' : DownloadFilter} {s s' : Store} {b : UInt8} {fault : Fault}

/-- What is in the store are lines of a stream, and the beginning of another where the filter is in
a line that is stored. -/
structure Holds (lines : List Bytes) (line : Bytes) (f : DownloadFilter) (s : Store) : Prop where
  plain : ∀ l ∈ lines, ∀ b ∈ l, Byte.isControl b = false
  plain' : ∀ b ∈ line, Byte.isControl b = false
  place : if f.place = .storing then line ≠ [] ∧ line.isRemote = false else line = []
  cursor : s.cursor = (content lines ++ line).length
  starts : content lines ++ line <+: s.region
  fits : s.cursor < s.capacity ∨ s.capacity = 0

/-- Outside a line that is stored nothing of a line has been stored. -/
theorem Holds.line_eq_nil {lines : List Bytes} {line : Bytes} (holds : Holds lines line f s)
    (apart : f.place ≠ .storing) : line = [] := by
  have empty := holds.place
  rwa [if_neg apart] at empty

/-- Unless a byte was refused, the store holds what the filter has let pass. -/
def Sound (f : DownloadFilter) (s : Store) : Prop :=
  f.overflowed = true ∨ ∃ lines line, Holds lines line f s

/-- A store that was just cleared holds nothing, and a fresh filter has let nothing pass. -/
theorem sound_of_cleared (fresh : f.place = .lineStart) (cursor : s.cursor = 0) : Sound f s := by
  refine .inr ⟨[], [], List.forall_mem_nil _, List.forall_mem_nil _, ?_, cursor, List.nil_prefix, ?_⟩
  · rw [if_neg (by simp [fresh])]
  · rw [cursor]
    omega

/-- A byte that is kept is behind what is in the store. -/
theorem Holds.append {lines : List Bytes} {line : Bytes} (holds : Holds lines line f s)
    (added : Store.append b s = .ok () s') :
    s'.cursor = (content lines ++ line ++ [b]).length ∧
      content lines ++ line ++ [b] <+: s'.region ∧ (s'.cursor < s'.capacity ∨ s'.capacity = 0) := by
  unfold Store.append at added
  split at added
  · cases added
  · next room =>
    cases added
    have length : s.cursor = (content lines ++ line).length := holds.cursor
    obtain ⟨rest, region⟩ := Store.exists_write_eq holds.starts (by omega) b
    refine ⟨?_, ⟨rest, ?_⟩, .inl ?_⟩
    · simp only [length, List.length_append, List.length_singleton]
    · rw [List.append_assoc]
      dsimp only
      rw [length]
      exact region.symm
    · have same : ({ s.write s.cursor b with cursor := s.cursor + 1 } : Store).capacity =
          s.capacity := Store.capacity_write _ _ _
      rw [same]
      dsimp only
      omega

/-- A byte that is kept is added to the store, unless one was refused before. -/
theorem cases_of_keep {outcome : Outcome} (kept : keep b (f, s) = .ok outcome (f', s')) :
    f' = f ∧ (f.overflowed = true ∨ Store.append b s = .ok () s') := by
  unfold keep at kept
  dsimp only at kept
  split at kept
  · next overflowed =>
    cases kept
    exact ⟨rfl, .inl overflowed⟩
  · split at kept
    · next added =>
      cases kept
      exact ⟨rfl, .inr added⟩
    · cases kept

/-- The download goes on only behind a byte that ends it nowhere. -/
theorem not_more_of_conclude {outcome : Outcome} {last : Attempt Store Unit}
    (ends : outcome ≠ .more) : conclude outcome last (f, s) ≠ .ok .more (f', s') := by
  intro more
  unfold conclude at more
  dsimp only at more
  split at more
  · cases more
    exact ends rfl
  · cases more

theorem isControl_of_counts (counts : Byte.counts b = true) (apart : b ≠ Byte.statementEnd) :
    Byte.isControl b = false := by
  simpa [Byte.counts, apart] using counts

/-- Nothing is stored where the filter only moves on. -/
theorem Sound.moved {place : DownloadPlace} (sound : Sound f s) (apart : f.place ≠ .storing)
    (apart' : place ≠ .storing) : Sound { f with place } s := by
  rcases sound with overflowed | ⟨lines, line, holds⟩
  · exact .inl overflowed
  · refine .inr ⟨lines, line, { holds with place := ?_ }⟩
    rw [if_neg apart']
    exact holds.line_eq_nil apart

/-- The first byte of a line that is stored. -/
theorem Sound.begun (sound : Sound f s) (apart : f.place ≠ .storing)
    (plain : Byte.isControl b = false) (own : isRemote [b] = false) {outcome : Outcome}
    (kept : keep b ({ f with place := .storing }, s) = .ok outcome (f', s')) : Sound f' s' := by
  obtain ⟨rfl, overflowed | added⟩ := cases_of_keep kept
  · exact .inl overflowed
  rcases sound with overflowed | ⟨lines, line, holds⟩
  · exact .inl overflowed
  obtain ⟨cursor, starts, fits⟩ := holds.append added
  obtain rfl : line = [] := holds.line_eq_nil apart
  refine .inr ⟨lines, [b], holds.plain, ?_, ?_, by simpa using cursor, by simpa using starts, fits⟩
  · exact List.forall_mem_singleton.mpr plain
  · exact ⟨List.cons_ne_nil b [], own⟩

/-- Another byte of a line that is stored, or its end. -/
theorem Sound.kept (sound : Sound f s) (place : f.place = .storing) (counts : Byte.counts b = true)
    {outcome : Outcome}
    (kept : keep b ({ f with place := placeAfter .storing b }, s) = .ok outcome (f', s')) :
    Sound f' s' := by
  obtain ⟨rfl, overflowed | added⟩ := cases_of_keep kept
  · exact .inl overflowed
  rcases sound with overflowed | ⟨lines, line, holds⟩
  · exact .inl overflowed
  obtain ⟨cursor, starts, fits⟩ := holds.append added
  have inside := holds.place
  rw [if_pos place] at inside
  by_cases ends : b = Byte.statementEnd
  · subst ends
    -- The line is whole, and the next one has not begun.
    have whole : content (lines ++ [line]) ++ [] =
        content lines ++ line ++ [Byte.statementEnd] := by
      simp [content, isStored, inside]
    rw [← whole] at cursor starts
    refine .inr ⟨lines ++ [line], [], ?_, List.forall_mem_nil _, ?_, cursor, starts, fits⟩
    · exact List.forall_mem_append.mpr ⟨holds.plain, List.forall_mem_singleton.mpr holds.plain'⟩
    · simp [placeAfter]
  · have plain := isControl_of_counts counts ends
    rw [List.append_assoc] at cursor starts
    refine .inr ⟨lines, line ++ [b], holds.plain, ?_, ?_, cursor, starts, fits⟩
    · exact List.forall_mem_append.mpr ⟨holds.plain', List.forall_mem_singleton.mpr plain⟩
    · simp [placeAfter, ends, isRemote_append inside.1, inside.2]

/-- Behind a byte of a line that is not stored, none is stored either. -/
theorem placeAfter_skipping_ne (b : UInt8) : placeAfter .skipping b ≠ .storing := by
  unfold placeAfter
  split <;> simp

/-- A byte that is not refused. -/
theorem Sound.process (sound : Sound f s)
    (processed : DownloadFilter.process b (f, s) = .ok .more (f', s')) : Sound f' s' := by
  by_cases counts : Byte.counts b = true
  swap
  · rw [process_of_dropped (by simpa using counts)] at processed
    cases processed
    exact sound
  rw [process_of_counts counts] at processed
  cases place : f.place with
  | lineStart =>
    rw [place] at processed
    dsimp only at processed
    split_ifs at processed with remote ends
    · cases processed
      exact sound.moved (by simp [place]) (by simp)
    · cases processed
      exact sound
    · -- A line that does not start with `R` is kept from its first byte on.
      have own : isRemote [b] = false := by simpa [isRemote] using remote
      exact sound.begun (by simp [place]) (isControl_of_counts counts ends) own processed
  | gotR =>
    rw [place] at processed
    dsimp only at processed
    split_ifs at processed
    · exact absurd processed (not_more_of_conclude (by simp))
    · exact absurd processed (not_more_of_conclude (by simp))
    · exact absurd processed (not_more_of_conclude (by simp))
    · cases processed
      exact sound.moved (by simp [place]) (placeAfter_skipping_ne b)
  | storing =>
    rw [place] at processed
    exact sound.kept place counts processed
  | skipping =>
    rw [place] at processed
    cases processed
    exact sound.moved (by simp [place]) (placeAfter_skipping_ne b)

theorem fresh_of_conclude {outcome : Outcome} {last : Attempt Store Unit}
    (failed : conclude outcome last (f, s) = .error fault (f', s')) : f' = fresh := by
  unfold conclude at failed
  dsimp only at failed
  split at failed <;> cases failed
  rfl

theorem overflowed_of_keep (failed : keep b (f, s) = .error fault (f', s')) :
    f'.overflowed = true := by
  unfold keep at failed
  dsimp only at failed
  split at failed
  · cases failed
  · split at failed <;> cases failed
    rfl

/-- A byte that meets a fault was refused, or it was to end the download. -/
theorem cases_of_error (failed : DownloadFilter.process b (f, s) = .error fault (f', s')) :
    f'.overflowed = true ∨ f' = fresh := by
  by_cases counts : Byte.counts b = true
  swap
  · rw [process_of_dropped (by simpa using counts)] at failed
    cases failed
  rw [process_of_counts counts] at failed
  cases place : f.place with
  | lineStart =>
    rw [place] at failed
    dsimp only at failed
    split_ifs at failed
    exact .inl (overflowed_of_keep failed)
  | gotR =>
    rw [place] at failed
    dsimp only at failed
    split_ifs at failed
    · exact .inr (fresh_of_conclude failed)
    · exact .inr (fresh_of_conclude failed)
    · exact .inr (fresh_of_conclude failed)
  | storing =>
    rw [place] at failed
    exact .inl (overflowed_of_keep failed)
  | skipping =>
    rw [place] at failed
    cases failed

/-- The store is cleared where a byte meets a fault. -/
theorem sound_of_error (failed : DownloadFilter.process b (f, s) = .error fault (f', s')) :
    Sound f' (reached (Store.clear s')) := by
  rcases cases_of_error failed with overflowed | rfl
  · exact .inl overflowed
  · exact sound_of_cleared rfl (Store.cursor_clear s')

/-- A download is completed by ending the program, behind an `R` and if no byte was refused. -/
theorem finish_of_finished (processed : DownloadFilter.process b (f, s) = .ok .finished (f', s')) :
    f.place = .gotR ∧ f.overflowed = false ∧ finish (f, s) = .ok .finished (f', s') := by
  have cases := processed_process b f s
  rw [processed] at cases
  cases cases with
  | finished valid place last =>
    rw [process_of_counts (counts_of_spells (by decide) last), place] at processed
    dsimp only at processed
    rw [if_pos last] at processed
    split_ifs at processed with overflowed
    · unfold abort conclude at processed
      dsimp only at processed
      split at processed <;> cases processed
    · exact ⟨place, by simpa using overflowed, processed⟩

/-- What is ended is the program. -/
theorem exists_of_finish (finished : finish (f, s) = .ok .finished (f', s')) :
    ∃ medium, s' = { s.write s.cursor Byte.programEnd with valid := true, medium } := by
  have saved := Store.reached_finishDownload s
  unfold finish conclude at finished
  dsimp only at finished
  cases done : Store.finishDownload s with
  | error f'' store =>
    rw [done] at finished
    cases finished
  | ok _ store =>
    rw [done] at finished saved
    cases finished
    exact ⟨_, saved⟩

theorem ne_programEnd_of_mem_content {lines : List Bytes}
    (plain : ∀ l ∈ lines, ∀ b ∈ l, Byte.isControl b = false) :
    ∀ b ∈ content lines, b ≠ Byte.programEnd := by
  intro b member
  simp only [content, List.mem_flatMap, List.mem_filter, List.mem_append,
    List.mem_singleton] at member
  obtain ⟨line, ⟨own, -⟩, inside | rfl⟩ := member
  · exact (Byte.ne_of_not_isControl (plain line own b inside)).1
  · exact Byte.statementEnd_ne_programEnd

/-- The byte that completes a download. -/
theorem Sound.finished (sound : Sound f s)
    (processed : DownloadFilter.process b (f, s) = .ok .finished (f', s')) : s'.HoldsLines := by
  obtain ⟨place, fitting, finished⟩ := finish_of_finished processed
  obtain ⟨lines, line, holds⟩ := sound.resolve_left (by simp [fitting])
  obtain ⟨medium, rfl⟩ := exists_of_finish finished
  -- Behind the `R` nothing of its line has been stored.
  obtain rfl : line = [] := holds.line_eq_nil (by simp [place])
  have cursor := holds.cursor
  have starts := holds.starts
  rw [List.append_nil] at cursor starts
  refine ⟨lines, ?_, holds.plain⟩
  change (s.write s.cursor Byte.programEnd).program = content lines
  rcases holds.fits with fits | nothing
  · rw [cursor] at fits ⊢
    exact Store.program_write_programEnd starts fits (ne_programEnd_of_mem_content holds.plain)
  · have empty : s.region = [] := List.length_eq_zero_iff.mp nothing
    rw [empty, List.prefix_nil] at starts
    simp [Store.program, Store.write, empty, starts]

end DownloadFilter

namespace Store

variable {s : Store} {offset limit : Nat} {fetched : Fetched}

/-- What is fetched in front of a line of a program of lines is that line. -/
theorem fetch?_of_lines {before after : List Bytes} {line : Bytes}
    (program : s.program = (before ++ line :: after).flatMap (· ++ [Byte.statementEnd]))
    (plain : ∀ b ∈ line, Byte.isControl b = false) (limit : Nat) :
    s.fetch? (before.flatMap (· ++ [Byte.statementEnd])).length limit = some {
      next := ((before ++ [line]).flatMap (· ++ [Byte.statementEnd])).length
      truncated := limit < line.length
      text := line.take limit } := by
  have split : s.program = before.flatMap (· ++ [Byte.statementEnd]) ++
      (line ++ Byte.statementEnd :: after.flatMap (· ++ [Byte.statementEnd])) := by
    rw [program, List.flatMap_append, List.flatMap_cons, List.append_assoc]
    rfl
  rw [fetch?_statement limit split plain]
  simp [Nat.add_assoc]

/-- Every start in a program of lines is in front of one of them, or behind the last. -/
theorem exists_of_isStart {lines : List Bytes}
    (program : s.program = lines.flatMap (· ++ [Byte.statementEnd]))
    (plain : ∀ line ∈ lines, ∀ b ∈ line, Byte.isControl b = false) (start : s.IsStart offset) :
    ∃ before after, lines = before ++ after ∧
      offset = (before.flatMap (· ++ [Byte.statementEnd])).length := by
  induction start with
  | base => exact ⟨[], lines, rfl, rfl⟩
  | @next offset limit fetched start found ih =>
    obtain ⟨before, after, split, rfl⟩ := ih
    cases after with
    | nil =>
      -- Behind the last line there is nothing to fetch.
      rw [List.append_nil] at split
      rw [← split, ← program, fetch?_length] at found
      cases found
    | cons line after =>
      rw [split] at program
      have own := plain line (by simp [split])
      rw [fetch?_of_lines program own] at found
      cases found
      exact ⟨before ++ [line], after, by simp [split], rfl⟩

/-- What is fetched from a program of lines is one of them, unless it is too long. -/
theorem HoldsLines.text_of_fetch? (holds : s.HoldsLines) (start : s.IsStart offset)
    (found : s.fetch? offset limit = some fetched) (whole : fetched.truncated = false) :
    fetched.text ≠ [] ∧ fetched.text.isRemote = false := by
  obtain ⟨lines, program, plain⟩ := holds
  have plain' : ∀ line ∈ lines.filter isStored, ∀ b ∈ line, Byte.isControl b = false :=
    fun line member => plain line (List.mem_of_mem_filter member)
  obtain ⟨before, after, split, rfl⟩ := exists_of_isStart program plain' start
  rw [content, split] at program
  cases after with
  | nil =>
    rw [List.append_nil] at program
    rw [← program, fetch?_length] at found
    cases found
  | cons line after =>
    have member : line ∈ lines.filter isStored := by simp [split]
    rw [fetch?_of_lines program (plain' line member)] at found
    cases found
    have stored := (List.mem_filter.mp member).2
    dsimp only at whole ⊢
    rw [List.take_of_length_le (by simpa using whole)]
    simpa [isStored] using stored

end Store

namespace Machine

open Command

variable {m n : Machine}

/-- While a program is stored, the store holds what the filter has let pass. -/
def Sifts (m : Machine) : Prop :=
  m.device = .storeProgram → DownloadFilter.Sound m.filter m.store

theorem sifts_of_device (device : m.device = .executeImmediately) : m.Sifts :=
  fun stores => by cases device.symm.trans stores

/-- A machine that has changed neither device nor download. -/
theorem Sifts.congr (sifts : m.Sifts) (device : n.device = m.device) (filter : n.filter = m.filter)
    (store : n.store = m.store) : n.Sifts := by
  intro stores
  rw [filter, store]
  exact sifts (device.symm.trans stores)

theorem Sifts.diagnose (sifts : m.Sifts) (level : Nat) (dest : Destination) (text : String) :
    (m.diagnose level dest text).Sifts := by
  obtain ⟨outbox, shown⟩ := exists_diagnose_eq m level dest text
  rw [shown]
  exact sifts

theorem Sifts.enterState (sifts : m.Sifts) (state : ProgramState) (dest : Destination) :
    (m.enterState state dest).Sifts := by
  obtain ⟨outbox, entered⟩ := exists_enterState_eq m state dest
  rw [entered]
  exact sifts

/-- A download begins with an empty store and a fresh filter. -/
theorem sifts_beginDownload (m : Machine) (dest : Destination) :
    (reached (beginDownload dest m)).Sifts := by
  obtain ⟨outbox, stopped⟩ := exists_enterState_eq m .stopped dest
  have cursor := Store.cursor_clear m.store
  simp only [Machine.beginDownload, bind_apply, modify_apply, stopped, onStore, Attempt.on,
    Store.beginDownload]
  cases cleared : Store.clear m.store with
  | ok _ store =>
    rw [cleared] at cursor
    refine Sifts.diagnose (fun _ => ?_) 2 dest _
    exact DownloadFilter.sound_of_cleared rfl cursor
  | error f store =>
    rw [cleared] at cursor
    exact fun _ => DownloadFilter.sound_of_cleared rfl cursor

/-- A statement is executed only where the device does not store. -/
theorem sifts_perform (device : m.device = .executeImmediately) (op : Opcode) (args : Bytes)
    (origin : Origin) (dest : Destination) : (reached (perform op args origin dest m)).Sifts := by
  by_cases begins : op = .beginDownload
  · subst begins
    exact sifts_beginDownload m dest
  by_cases starts : op = .start
  · subst starts
    change (reached (startProgram dest m)).Sifts
    unfold startProgram
    rw [bind_apply, get_apply]
    dsimp only
    split
    · exact sifts_of_device device
    · exact Sifts.enterState (m := { m with pc := 0, owner := dest }) (sifts_of_device device)
        .active dest
  by_cases clears : op = .clearProgram
  · subst clears
    change (reached (clearProgram dest m)).Sifts
    obtain ⟨outbox, stopped⟩ := exists_enterState_eq m .stopped dest
    simp only [Machine.clearProgram, bind_apply, modify_apply, stopped, onStore, Attempt.on]
    cases Store.clear m.store <;> exact sifts_of_device device
  · -- All other statements leave the device as it is.
    have steered : Steered origin m (reached (perform op args origin dest m)) :=
      within_steered_perform begins starts clears args dest m
    exact sifts_of_device (steered.device.trans device)

theorem sifts_execute (device : m.device = .executeImmediately) (statement : Bytes)
    (origin : Origin) (dest : Destination) : (m.execute statement origin dest).Sifts := by
  cases named : Opcode.ofStatement? statement with
  | none =>
    simp only [Machine.execute, named]
    exact (sifts_of_device device).diagnose 3 dest _
  | some op =>
    obtain ⟨before, after, executed⟩ := exists_execute_eq named m origin dest
    rw [executed]
    exact (sifts_perform (m := { m with outbox := before }) device op _ origin dest).congr rfl rfl rfl

namespace Sifts

/-- A byte of a download. -/
theorem download (sifts : m.Sifts) (device : m.device = .storeProgram) (b : UInt8)
    (dest : Destination) : (m.download b dest).Sifts := by
  have sound := sifts device
  cases result : DownloadFilter.process b (m.filter, m.store) with
  | ok outcome after =>
    obtain ⟨filter, store⟩ := after
    unfold Machine.download
    rw [result]
    cases outcome with
    | more => exact fun _ => sound.process result
    | finished =>
      obtain ⟨outbox, started⟩ := exists_start_eq { m with
        filter, store, device := .executeImmediately, discarding := true } dest "DOWNLOAD COMPLETE"
      dsimp only
      rw [started]
      exact sifts_of_device rfl
    | aborted =>
      have ended : Sifts { m with
          filter, store, device := .executeImmediately, discarding := true } :=
        sifts_of_device rfl
      exact ended.diagnose 2 dest _
  | error f after =>
    obtain ⟨filter, store⟩ := after
    have cleared : Sifts { m with filter, store := reached (Store.clear store) } :=
      fun _ => DownloadFilter.sound_of_error result
    unfold Machine.download
    rw [result]
    have reported := cleared.diagnose 1 dest f.render
    dsimp only
    cases fault? (Store.clear store) with
    | none => exact reported
    | some f' => exact reported.diagnose 1 dest f'.render

/-- A byte that comes in. -/
theorem receive (sifts : m.Sifts) (b : UInt8) (dest : Destination) : (m.receive b dest).Sifts := by
  cases device : m.device with
  | storeProgram =>
    have taken : m.receive b dest = m.download b dest := by rw [Machine.receive, device]
    rw [taken]
    exact sifts.download device b dest
  | executeImmediately =>
    have taken : m.receive b dest = m.assemble b dest := by rw [Machine.receive, device]
    rw [taken, Machine.assemble]
    split
    · dsimp only
      split
      · exact sifts
      · exact sifts_execute (m := { m with line := [], discarding := false }) device m.line .live dest
    · split
      · exact sifts
      · split
        · exact Sifts.diagnose (m := { m with line := [], discarding := true }) sifts 1 dest _
        · exact sifts

theorem receiveAll (sifts : m.Sifts) (bytes : Bytes) (dest : Destination) :
    (m.receiveAll bytes dest).Sifts := by
  induction bytes generalizing m with
  | nil => exact sifts
  | cons b bytes ih => exact ih (sifts.receive b dest)

/-- A tick. While a program is stored, none runs. -/
theorem tick (sifts : m.Sifts) (safe : m.Safe) : m.tick.Sifts := by
  by_cases due : m.IsDue
  swap
  · rwa [tick_of_not_isDue due]
  have device : m.device = .executeImmediately := by
    cases state : m.device with
    | executeImmediately => rfl
    | storeProgram =>
      have stopped := safe.stopped state
      simp [IsDue, stopped] at due
  rw [tick_of_isDue due]
  unfold Machine.executeNext
  dsimp only
  split
  · exact Sifts.enterState (m := { m with program := .active }) sifts .stopped m.owner
  · next fetched _ =>
    split
    · exact Sifts.diagnose (m := { m with program := .active, pc := fetched.next }) sifts 1 m.owner _
    · exact sifts_execute (m := { m with program := .active, pc := fetched.next }) device
        fetched.text .program m.owner

theorem meet (sifts : m.Sifts) (safe : m.Safe) (e : Event) : (m.meet e).Sifts := by
  cases e with
  | line text =>
    let compiled := m.compiler.compileLine m.vars m.readings text
    exact receiveAll (m := m.renewed compiled.compiler compiled.vars) sifts _ console
  | byte b dest => exact sifts.receive b dest
  | tick => exact sifts.tick safe
  | interrupt => exact sifts.enterState .stopped m.owner
  | diagnostics level => exact sifts
  | clock time => exact sifts
  | readings readings => exact sifts

theorem meetAll (sifts : m.Sifts) (safe : m.Safe) (events : List Event) :
    (m.meetAll events).Sifts := by
  induction events generalizing m with
  | nil => exact sifts
  | cons e events ih => exact ih (sifts.meet safe e) (safe.meet e).1

/-- When a download has been completed, the program consists of lines. -/
theorem holdsLines (sifts : m.Sifts) {bytes : Bytes} {dest : Destination}
    (completes : m.Completes bytes dest) : (m.receiveAll bytes dest).store.HoldsLines := by
  obtain ⟨before, b, after, filter, store, rfl, device, processed, same⟩ := completes
  rw [same]
  exact (sifts.receiveAll before dest device).finished processed

theorem holdsLines_of_completedBy (sifts : m.Sifts) {e : Event} (completed : m.CompletedBy e) :
    (m.meet e).store.HoldsLines := by
  cases e with
  | line text =>
    let compiled := m.compiler.compileLine m.vars m.readings text
    exact holdsLines (m := m.renewed compiled.compiler compiled.vars) sifts completed
  | byte b dest => exact sifts.holdsLines completed
  | tick | interrupt | diagnostics | clock | readings => cases completed

end Sifts

end Machine

end ControlScript
