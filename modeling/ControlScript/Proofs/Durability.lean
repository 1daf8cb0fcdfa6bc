import ControlScript.Proofs.Cursor

/-!
# What a file keeps of a store

A download is written over the program that was there before, byte by byte, so while it goes on the
region of a store may hold parts of both. The file behind the store does not follow: it changes only
when a save succeeds, and whatever is saved is either empty or ends where the download does. So a
store that is opened on the file again, at any moment and whatever saves have failed, holds nothing
or one whole program.

## Main definitions

* `History.durable` — what the last successful save has left in the file
* `Medium.Holds` — the program that is found on a medium

## Main results

* `Medium.Holds.afterSave` — a save either changes what is found or fails
* `History.Consistent.perform` — one deed
* `History.reopens_with_durable` — a store that is opened again, after any deeds
-/

namespace ControlScript

open Attempt

/-- Whether the file behind the store was written. -/
def Record.saved (r : Record) : Bool :=
  match r.deed with
  | .append _ => false
  | .beginDownload | .finishDownload | .clear => r.succeeded

namespace History

/-- The program that the last successful save has left in the file. -/
def durable : List Record → Bytes
  | [] => []
  | ⟨.append _, _⟩ :: earlier => durable earlier
  | ⟨.finishDownload, succeeded⟩ :: earlier =>
    if succeeded then accepted earlier else durable earlier
  | ⟨.beginDownload, succeeded⟩ :: earlier => if succeeded then [] else durable earlier
  | ⟨.clear, succeeded⟩ :: earlier => if succeeded then [] else durable earlier

/-- The last successful save decides what the file holds. -/
theorem durable_cases (records : List Record) :
    ((∀ r ∈ records, r.saved = false) ∧ durable records = []) ∨
      ∃ later last earlier, records = later ++ last :: earlier ∧
        (∀ r ∈ later, r.saved = false) ∧ last.saved = true ∧
        durable records = if last.deed = .finishDownload then accepted earlier else [] := by
  induction records with
  | nil => exact .inl ⟨List.forall_mem_nil _, rfl⟩
  | cons r records ih =>
    cases saves : r.saved with
    | false =>
      -- Nothing was saved, so the file holds what it held before.
      have same : durable (r :: records) = durable records := by
        obtain ⟨deed, succeeded⟩ := r
        cases deed <;> simp_all [Record.saved, durable]
      rw [same]
      refine ih.imp ?_ ?_
      · rintro ⟨unsaved, empty⟩
        exact ⟨List.forall_mem_cons.mpr ⟨saves, unsaved⟩, empty⟩
      · rintro ⟨later, last, earlier, rfl, unsaved, saved, kept⟩
        exact ⟨r :: later, last, earlier, rfl, List.forall_mem_cons.mpr ⟨saves, unsaved⟩, saved,
          kept⟩
    | true =>
      refine .inr ⟨[], r, records, rfl, List.forall_mem_nil _, saves, ?_⟩
      obtain ⟨deed, succeeded⟩ := r
      cases deed <;> simp_all [Record.saved, durable]

end History

/-- A store of this capacity that is opened on a medium finds this program there. -/
def Medium.Holds (capacity : Nat) (program : Bytes) (medium : Medium) : Prop :=
  ∃ file region, medium = .file file ∧ file.load? capacity = some region ∧
    region.takeWhile (· != Byte.programEnd) = program

/-- A save that fails leaves what there was, and any other the program of the region. -/
theorem Medium.Holds.afterSave {medium : Medium} {program region : Bytes}
    (holds : medium.Holds region.length program) : (medium.afterSave region).Holds region.length
      (if medium.fails then program else region.takeWhile (· != Byte.programEnd)) := by
  obtain ⟨file, found, rfl, loads, rfl⟩ := holds
  cases fails : Medium.fails (.file file) with
  | true =>
    have failed : file.fails = true := fails
    refine ⟨_, found, rfl, ?_, rfl⟩
    simpa [File.load?, File.afterWrite, failed] using loads
  | false =>
    have saved := Medium.load?_of_afterSave region fails
    exact ⟨_, region, rfl, saved, rfl⟩

namespace Store

/-- A store that is opened is valid if it holds a program. -/
theorem valid_ofRegion (region : Bytes) (medium : Medium) :
    (ofRegion region medium).valid = !(ofRegion region medium).isEmpty := by
  cases region with
  | nil => rfl
  | cons b rest =>
    by_cases ended : b = Byte.programEnd <;> simp [ofRegion, isEmpty, program, ended]

variable {s : Store}

/-- What the region holds where a program is ended, behind what has been written of it. -/
theorem program_write_cursor {content : Bytes} (starts : content <+: s.region)
    (fits : content.length ≤ s.capacity - 1) (plain : ∀ b ∈ content, b ≠ Byte.programEnd) :
    (s.write content.length Byte.programEnd).program = content := by
  cases region : s.region with
  | nil =>
    -- A store without room holds nothing.
    obtain rfl : content = [] := by simpa [region] using starts
    simp [program, write, region]
  | cons b rest =>
    refine program_write_programEnd starts ?_ plain
    simp only [capacity, region, List.length_cons] at fits ⊢
    omega

end Store

namespace History

/-- The store has written what it has accepted, and its file holds what the last successful save has
left there. -/
structure Consistent (room : Nat) (h : History) : Prop where
  capacity : h.store.capacity = room
  cursor : h.store.cursor = (accepted h.records).length
  written : accepted h.records <+: h.store.region
  fits : (accepted h.records).length ≤ room - 1
  plain : ∀ b ∈ accepted h.records, b ≠ Byte.programEnd
  holds : h.store.medium.Holds room (durable h.records)

variable {h : History} {room : Nat} {s : Store} {d : Deed} {b : UInt8}

/-- A deed that ends with a save succeeds if the save does. -/
theorem perform_of_save (saves : d.operation h.store = Store.save s) :
    h.perform d =
      { store := { s with medium := s.medium.afterSave s.region }
        records := ⟨d, !s.medium.fails⟩ :: h.records } := by
  have succeeded : (fault? (Store.save s)).isNone = !s.medium.fails := by
    unfold Store.save
    cases s.medium.fails <;> rfl
  simp only [perform, saves, Store.reached_save, succeeded]

namespace Consistent

/-- A consistent store has room for the end of what was accepted. -/
theorem keepsRoom (consistent : Consistent room h) : KeepsRoom room h :=
  ⟨consistent.capacity, consistent.cursor, consistent.written, consistent.fits⟩

/-- A byte is refused, or it is written behind those before it. -/
theorem append (consistent : Consistent room h) (plain : b ≠ Byte.programEnd) :
    Consistent room (h.perform (.append b)) := by
  have keeps := consistent.keepsRoom.append b
  -- The store takes no byte where only the end of the program has room.
  rcases Nat.lt_or_ge (h.store.cursor + 1) h.store.capacity with within | full
  · rw [perform_append_of_room within] at keeps ⊢
    have plain' : ∀ c ∈ accepted h.records ++ [b], c ≠ Byte.programEnd :=
      List.forall_mem_append.mpr ⟨consistent.plain, List.forall_mem_singleton.mpr plain⟩
    exact { keeps with plain := plain', holds := consistent.holds }
  · rw [perform_append_of_full full] at keeps ⊢
    exact { keeps with plain := consistent.plain, holds := consistent.holds }

/-- The store is emptied, whether its file follows or not. -/
theorem clear (consistent : Consistent room h) (empties : d.resets = true) :
    Consistent room (h.perform d) := by
  have keeps := consistent.keepsRoom.reset empties
  have saves : d.operation h.store =
      Store.save { h.store.write 0 Byte.programEnd with cursor := 0, valid := false } := by
    rw [operation_of_resets empties]
    rfl
  have left (succeeded : Bool) : durable (⟨d, succeeded⟩ :: h.records) =
      if succeeded then [] else durable h.records := by
    cases d with
    | beginDownload | clear => rfl
    | append _ | finishDownload => cases empties
  have same : (h.store.write 0 Byte.programEnd).region.length = room :=
    (Store.capacity_write _ _ _).trans consistent.capacity
  have empty : (h.store.write 0 Byte.programEnd).region.takeWhile (· != Byte.programEnd) = [] := by
    cases region : h.store.region <;> simp [Store.write, region]
  have holds : h.store.medium.Holds (h.store.write 0 Byte.programEnd).region.length
      (durable h.records) := same ▸ consistent.holds
  have saved := holds.afterSave
  rw [same, empty] at saved
  rw [perform_of_save saves] at keeps ⊢
  refine { keeps with plain := ?_, holds := ?_ }
  · rw [accepted_of_resets empties]
    exact List.forall_mem_nil _
  · rw [left]
    cases fails : h.store.medium.fails <;> simpa [fails, Store.write] using saved

/-- The program is ended behind what was accepted of it, whether its file follows or not. -/
theorem finishDownload (consistent : Consistent room h) :
    Consistent room (h.perform .finishDownload) := by
  have keeps := consistent.keepsRoom.finishDownload
  obtain ⟨capacity, cursor, written, fits, plain, holds⟩ := consistent
  have saves : Deed.finishDownload.operation h.store =
      Store.save { h.store.write h.store.cursor Byte.programEnd with valid := true } := rfl
  have same : (h.store.write h.store.cursor Byte.programEnd).region.length = room :=
    (Store.capacity_write _ _ _).trans capacity
  have program : (h.store.write h.store.cursor Byte.programEnd).region.takeWhile
      (· != Byte.programEnd) = accepted h.records := by
    rw [cursor]
    exact Store.program_write_cursor written (capacity ▸ fits) plain
  have holds' : h.store.medium.Holds (h.store.write h.store.cursor Byte.programEnd).region.length
      (durable h.records) := same ▸ holds
  have saved := holds'.afterSave
  rw [same, program] at saved
  rw [perform_of_save saves] at keeps ⊢
  refine { keeps with plain := plain, holds := ?_ }
  cases fails : h.store.medium.fails <;> simpa [fails, Store.write, durable] using saved

/-- One deed. -/
theorem perform (consistent : Consistent room h) (plain : d ≠ .append Byte.programEnd) :
    Consistent room (h.perform d) := by
  cases d with
  | beginDownload => exact consistent.clear rfl
  | append b => exact consistent.append fun same => plain (same ▸ rfl)
  | finishDownload => exact consistent.finishDownload
  | clear => exact consistent.clear rfl

/-- Deed after deed. The induction is on the deeds, and what each of them leaves is consistent. -/
theorem performAll {deeds : List Deed} (consistent : Consistent room h)
    (plain : .append Byte.programEnd ∉ deeds) : Consistent room (h.performAll deeds) := by
  induction deeds generalizing h with
  | nil => exact consistent
  | cons d deeds ih =>
    rw [List.mem_cons, not_or] at plain
    exact ih (consistent.perform (Ne.symm plain.1)) plain.2

end Consistent

/-- A store that is opened where there is no file. -/
theorem exists_consistent (room : Nat) (failures : List Bool) : ∃ opened,
    Store.open? { failures } room = some opened ∧ Consistent room { store := opened } := by
  refine ⟨_, rfl, List.length_replicate, rfl, List.nil_prefix, Nat.zero_le _,
    List.forall_mem_nil _, { failures }, _, rfl, rfl, ?_⟩
  cases room <;> simp [List.replicate_succ, durable]

/-- Whatever has been done to a store that was opened without a file, whatever saves have failed,
and wherever that breaks off: a store that is opened on the file then holds what the last successful
save has left there, which is nothing or all that was accepted of one download that was completed.
-/
theorem reopens_with_durable (capacity : Nat) (failures : List Bool) (deeds : List Deed)
    (plain : .append Byte.programEnd ∉ deeds) :
    ∃ opened, Store.open? { failures } capacity = some opened ∧
      let h := performAll { store := opened } deeds
      ∃ file reopened, h.store.medium = .file file ∧ Store.open? file capacity = some reopened ∧
        reopened.program = durable h.records ∧ reopened.valid = !(durable h.records).isEmpty ∧
        (((∀ r ∈ h.records, r.saved = false) ∧ durable h.records = []) ∨
          ∃ later last earlier, h.records = later ++ last :: earlier ∧
            (∀ r ∈ later, r.saved = false) ∧ last.saved = true ∧ durable h.records =
              if last.deed = .finishDownload then accepted earlier else []) := by
  obtain ⟨opened, opens, start⟩ := exists_consistent capacity failures
  obtain ⟨file, region, medium, loads, program⟩ := (start.performAll plain).holds
  refine ⟨opened, opens, file, .ofRegion region (.file file), medium, ?_, program, ?_,
    durable_cases _⟩
  · simp [Store.open?, loads]
  · rw [← program]
    exact Store.valid_ofRegion region (.file file)

/-- The second of two downloads is broken off after its first byte, and the save with which it began
has failed: the store then holds a part of each of them, and the file still the first. -/
theorem keeps_first_of_two :
    let deeds : List Deed := [.beginDownload, .append 0x41, .append 0x42, .append 0x43,
      .finishDownload, .beginDownload, .append 0x44]
    let failures := [false, false, true]
    .append Byte.programEnd ∉ deeds ∧ ∃ opened, Store.open? { failures } 6 = some opened ∧
      let h := performAll { store := opened } deeds
      h.store.program = [0x44, 0x42, 0x43] ∧ ∃ file reopened, h.store.medium = .file file ∧
        Store.open? file 6 = some reopened ∧ reopened.program = [0x41, 0x42, 0x43] ∧
        reopened.valid = true := by
  obtain ⟨opened, opens, file, reopened, medium, reopens, program, valid, -⟩ :=
    reopens_with_durable 6 [false, false, true] [.beginDownload, .append 0x41, .append 0x42,
      .append 0x43, .finishDownload, .beginDownload, .append 0x44] (by decide)
  obtain rfl : Store.ofRegion (List.replicate 6 0) (.file { failures := [false, false, true] }) =
    opened := Option.some.inj opens
  exact ⟨by decide, _, rfl, by decide +kernel, file, reopened, medium, reopens,
    program.trans (by decide +kernel), valid.trans (by decide +kernel)⟩

end History

end ControlScript
