import ControlScript.Proofs.Downloads

/-!
# The write cursor

A download is written behind a cursor. Nothing in a store tells how far it has come but this cursor,
and yet the end of the program is written without a look at the capacity. It need not look: whatever
is done to a store, the bytes accepted since the cursor was last taken back to the start stand at the
start of the region, the cursor stands behind them, and there is still a place for one byte more. A
byte that would take this place is refused, and so is every other until the cursor goes back. What is
saved, and whether that succeeds, makes no difference to any of this.

## Main definitions

* `Deed`, `Record`, `History` — what is done to a store, and what has been done to it
* `Deed.resets` — whether a deed takes the cursor back to the start
* `History.accepted` — what the store has accepted since then
* `History.KeepsRoom` — the cursor stands behind what was accepted, with room for the end

## Main results

* `History.KeepsRoom.perform`, `History.KeepsRoom.performAll` — one deed, and any deeds
* `History.accepted_prefix_performAll` — what was accepted stays accepted until the cursor goes back
* `History.leaves_room_for_end` — where the cursor stands, which bytes are refused and what ending
  the program changes
-/

namespace ControlScript

open Attempt

/-- What is done to a store. -/
inductive Deed where
  | beginDownload
  | append (b : UInt8)
  | finishDownload
  | clear
deriving DecidableEq, Repr

/-- The operation that a deed stands for. -/
def Deed.operation : Deed → Attempt Store Unit
  | .beginDownload => Store.beginDownload
  | .append b => Store.append b
  | .finishDownload => Store.finishDownload
  | .clear => Store.clear

/-- Whether a deed takes the write cursor back to the start. -/
def Deed.resets : Deed → Bool
  | .beginDownload | .clear => true
  | .append _ | .finishDownload => false

/-- A deed that was done, and whether it succeeded. -/
structure Record where
  deed : Deed
  succeeded : Bool
deriving DecidableEq, Repr

/-- A store and what was done to it, the last deed first. -/
structure History where
  store : Store
  records : List Record := []
deriving DecidableEq, Repr

namespace History

/-- One deed more. -/
def perform (h : History) (d : Deed) : History :=
  let result := d.operation h.store
  { store := reached result, records := ⟨d, (fault? result).isNone⟩ :: h.records }

/-- Deed after deed. -/
def performAll (h : History) (deeds : List Deed) : History := deeds.foldl perform h

/-- The bytes that the store has accepted since the cursor was last taken back to the start. -/
def accepted : List Record → Bytes
  | [] => []
  | ⟨.append b, true⟩ :: earlier => accepted earlier ++ [b]
  | ⟨.append _, false⟩ :: earlier => accepted earlier
  | ⟨.finishDownload, _⟩ :: earlier => accepted earlier
  | ⟨.beginDownload, _⟩ :: _ => []
  | ⟨.clear, _⟩ :: _ => []

end History

namespace Store

variable {s : Store} {content : Bytes}

/-- A byte that is written behind something leaves that as it is. -/
theorem prefix_write (starts : content <+: s.region) (b : UInt8) :
    content <+: (s.write content.length b).region := by
  obtain ⟨rest, region⟩ := starts
  exact ⟨rest.set 0 b, by simp [write, ← region]⟩

/-- Where there is a place for it, the byte stands behind that. -/
theorem prefix_concat_write (starts : content <+: s.region) (fits : content.length < s.capacity)
    (b : UInt8) : content ++ [b] <+: (s.write content.length b).region := by
  obtain ⟨rest, region⟩ := exists_write_eq starts fits b
  exact ⟨rest, by rw [region, List.append_assoc, List.singleton_append]⟩

end Store

namespace History

variable {h : History} {room : Nat} {d : Deed}

/-! ### One deed -/

theorem perform_append_of_full (full : h.store.capacity ≤ h.store.cursor + 1) (b : UInt8) :
    h.perform (.append b) = { h with records := ⟨.append b, false⟩ :: h.records } := by
  simp [perform, Deed.operation, Store.append_of_full full, fault?]

theorem perform_append_of_room (within : h.store.cursor + 1 < h.store.capacity) (b : UInt8) :
    h.perform (.append b) =
      { store := { h.store.write h.store.cursor b with cursor := h.store.cursor + 1 }
        records := ⟨.append b, true⟩ :: h.records } := by
  simp [perform, Deed.operation, Store.append_of_room within, fault?]

theorem operation_of_resets (resets : d.resets = true) : d.operation = Store.clear := by
  cases d with
  | beginDownload | clear => rfl
  | append _ | finishDownload => cases resets

theorem accepted_of_resets (resets : d.resets = true) (succeeded : Bool) (earlier : List Record) :
    accepted (⟨d, succeeded⟩ :: earlier) = [] := by
  cases d with
  | beginDownload | clear => rfl
  | append _ | finishDownload => cases resets

/-- The store has written what it has accepted from the start of the region on, the cursor stands
behind that, and of a region of `room` bytes the last one is left. -/
structure KeepsRoom (room : Nat) (h : History) : Prop where
  capacity : h.store.capacity = room
  cursor : h.store.cursor = (accepted h.records).length
  written : accepted h.records <+: h.store.region
  fits : (accepted h.records).length ≤ room - 1

namespace KeepsRoom

/-- A store is opened with the cursor at the start. -/
theorem opened (region : Bytes) (medium : Medium) :
    KeepsRoom region.length { store := .ofRegion region medium } where
  capacity := rfl
  cursor := rfl
  written := List.nil_prefix
  fits := Nat.zero_le _

/-- A byte is refused, or it is written behind those before it. -/
theorem append (keeps : KeepsRoom room h) (b : UInt8) : KeepsRoom room (h.perform (.append b)) := by
  obtain ⟨capacity, cursor, written, fits⟩ := keeps
  rcases Nat.lt_or_ge (h.store.cursor + 1) h.store.capacity with within | full
  · rw [perform_append_of_room within]
    refine ⟨(Store.capacity_write _ _ _).trans capacity, ?_, ?_, ?_⟩
    · simp [accepted, cursor]
    · have place : (accepted h.records).length < h.store.capacity := by omega
      simpa [accepted, cursor] using Store.prefix_concat_write written place b
    · -- The byte was accepted, so the place that it takes is not the last one.
      simp only [accepted, List.length_append, List.length_singleton]
      omega
  · rw [perform_append_of_full full]
    exact ⟨capacity, cursor, written, fits⟩

/-- The cursor goes back to the start. -/
theorem reset (keeps : KeepsRoom room h) (resets : d.resets = true) :
    KeepsRoom room (h.perform d) := by
  have nothing : accepted (h.perform d).records = [] := accepted_of_resets resets _ _
  have store : (h.perform d).store = reached (Store.clear h.store) := by
    rw [← operation_of_resets resets]
    rfl
  rw [Store.reached_clear] at store
  refine ⟨?_, ?_, ?_, ?_⟩
  · rw [store]
    exact (Store.capacity_write _ _ _).trans keeps.capacity
  · rw [store, nothing]
    rfl
  · rw [nothing]
    exact List.nil_prefix
  · rw [nothing]
    exact Nat.zero_le _

/-- Ending the program writes one byte, behind what was accepted. -/
theorem region_finishDownload (keeps : KeepsRoom room h) :
    (reached (Store.finishDownload h.store)).region =
      (h.store.write (accepted h.records).length Byte.programEnd).region := by
  rw [Store.reached_finishDownload, keeps.cursor]

/-- The cursor stays where it is. -/
theorem finishDownload (keeps : KeepsRoom room h) : KeepsRoom room (h.perform .finishDownload) := by
  have store : (h.perform .finishDownload).store = reached (Store.finishDownload h.store) := rfl
  refine ⟨?_, ?_, ?_, keeps.fits⟩
  · rw [Store.capacity, store, keeps.region_finishDownload]
    exact (Store.capacity_write _ _ _).trans keeps.capacity
  · rw [store, Store.reached_finishDownload]
    exact keeps.cursor
  · rw [store, keeps.region_finishDownload]
    exact Store.prefix_write keeps.written _

/-- One deed. -/
theorem perform (keeps : KeepsRoom room h) (d : Deed) : KeepsRoom room (h.perform d) := by
  cases d with
  | beginDownload => exact keeps.reset rfl
  | append b => exact keeps.append b
  | finishDownload => exact keeps.finishDownload
  | clear => exact keeps.reset rfl

/-- Deed after deed. The induction is on the deeds, and after each of them there is room. -/
theorem performAll (keeps : KeepsRoom room h) (deeds : List Deed) :
    KeepsRoom room (h.performAll deeds) := by
  induction deeds generalizing h with
  | nil => exact keeps
  | cons d deeds ih => exact ih (keeps.perform d)

/-- Where only the last place is left, a byte is refused and nothing changes. -/
theorem append_eq (keeps : KeepsRoom room h) (full : (accepted h.records).length = room - 1)
    (b : UInt8) : Store.append b h.store = .error (.of .storeFull) h.store := by
  refine Store.append_of_full ?_ b
  rw [keeps.capacity, keeps.cursor]
  omega

/-- Anywhere else it is accepted. -/
theorem fault?_append (keeps : KeepsRoom room h) (b : UInt8) :
    fault? (Store.append b h.store) =
      if (accepted h.records).length = room - 1 then some (.of .storeFull) else none := by
  by_cases full : (accepted h.records).length = room - 1
  · rw [if_pos full, keeps.append_eq full]
    rfl
  · have within : h.store.cursor + 1 < h.store.capacity := by
      have fits := keeps.fits
      rw [keeps.capacity, keeps.cursor]
      omega
    rw [if_neg full, Store.append_of_room within]
    rfl

end KeepsRoom

/-! ### Until the cursor goes back -/

/-- What was accepted stays accepted. -/
theorem accepted_prefix_perform (h : History) (stays : d.resets = false) :
    accepted h.records <+: accepted (h.perform d).records := by
  cases d with
  | beginDownload | clear => cases stays
  | append b =>
    rcases Nat.lt_or_ge (h.store.cursor + 1) h.store.capacity with within | full
    · rw [perform_append_of_room within]
      exact List.prefix_append _ [b]
    · rw [perform_append_of_full full]
      exact List.prefix_rfl
  | finishDownload => exact List.prefix_rfl

theorem accepted_prefix_performAll {deeds : List Deed} (h : History)
    (stay : ∀ d ∈ deeds, d.resets = false) :
    accepted h.records <+: accepted (h.performAll deeds).records := by
  induction deeds generalizing h with
  | nil => exact List.prefix_rfl
  | cons d deeds ih =>
    obtain ⟨stays, later⟩ := List.forall_mem_cons.mp stay
    exact (h.accepted_prefix_perform stays).trans (ih (h.perform d) later)

/-- So a store that is full stays full: no deed makes room, and none takes the last place. -/
theorem KeepsRoom.full_performAll {deeds : List Deed} (keeps : KeepsRoom room h)
    (full : (accepted h.records).length = room - 1) (stay : ∀ d ∈ deeds, d.resets = false) :
    (accepted (h.performAll deeds).records).length = room - 1 := by
  refine Nat.le_antisymm (keeps.performAll deeds).fits ?_
  rw [← full]
  exact (h.accepted_prefix_performAll stay).length_le

/-- Whatever has been done to a store of at least one byte, whatever it held when it was opened and
whatever saves have failed: the cursor is inside the region, behind as many bytes as were accepted
since it was last taken back. A byte is refused just if they take up all of the region but its last
byte. Then it changes nothing, and no byte is accepted until the cursor goes back. When the program
is ended, the region starts with these bytes and the end of the program, and every other byte of it
is what it was, whether the region is saved or not. -/
theorem leaves_room_for_end (region : Bytes) (medium : Medium) (deeds : List Deed)
    (positive : 0 < region.length) :
    let h := performAll { store := .ofRegion region medium } deeds
    let bytes := accepted h.records
    h.store.capacity = region.length ∧
    h.store.cursor < h.store.capacity ∧ h.store.cursor = bytes.length ∧
    (∀ b, fault? (Store.append b h.store) =
      if bytes.length = region.length - 1 then some (.of .storeFull) else none) ∧
    (bytes.length = region.length - 1 → ∀ later, (∀ d ∈ later, d.resets = false) → ∀ b,
      let h' := h.performAll later
      Store.append b h'.store = .error (.of .storeFull) h'.store) ∧
    let ended := reached (Store.finishDownload h.store)
    bytes ++ [Byte.programEnd] <+: ended.region ∧
      ∀ i, i ≠ bytes.length → ended.region[i]? = h.store.region[i]? := by
  intro h bytes
  have keeps : KeepsRoom region.length h := (KeepsRoom.opened region medium).performAll deeds
  -- A region without any byte would have no place for the end either.
  have inside : bytes.length < h.store.capacity := by
    have fits : bytes.length ≤ region.length - 1 := keeps.fits
    rw [keeps.capacity]
    omega
  refine ⟨keeps.capacity, keeps.cursor ▸ inside, keeps.cursor, keeps.fault?_append, ?_, ?_⟩
  · intro full later stay b
    exact (keeps.performAll later).append_eq (keeps.full_performAll full stay) b
  · intro ended
    rw [keeps.region_finishDownload]
    refine ⟨Store.prefix_concat_write keeps.written inside _, fun i other => ?_⟩
    exact List.getElem?_set_ne other.symm

/-- A store of four bytes, which were a program before, is full after three. The fourth one is
refused, and so it is after the program was ended, which could not be saved. -/
theorem leaves_room_for_end_of_four :
    let h := performAll
      { store := .ofRegion [0x51, 0x52, 0x53, 0x54] (.file { failures := [false, true] }) }
      [.beginDownload, .append 0x57, .append 0x4C, .append 0x0D, .append 0x57]
    let result := Store.finishDownload h.store
    h.records.map (·.succeeded) = [false, true, true, true, true] ∧ h.store.cursor = 3 ∧
      Store.append 0x57 h.store = .error (.of .storeFull) h.store ∧
      fault? result = some (.of .storageFailure) ∧
      (reached result).region = [0x57, 0x4C, 0x0D, 0x00] ∧
      fault? (Store.append 0x57 (reached result)) = some (.of .storeFull) := by
  intro h result
  have bytes : accepted h.records = [0x57, 0x4C, 0x0D] := by decide
  obtain ⟨-, -, cursor, -, refuses, starts, -⟩ :=
    leaves_room_for_end [0x51, 0x52, 0x53, 0x54] (.file { failures := [false, true] })
      [.beginDownload, .append 0x57, .append 0x4C, .append 0x0D, .append 0x57] (by decide)
  have full := refuses (congrArg List.length bytes)
  -- What the region starts with is as long as the region.
  have whole : (reached result).region = accepted h.records ++ [Byte.programEnd] :=
    (starts.eq_of_length (by decide +kernel)).symm
  rw [bytes] at whole
  exact ⟨by decide, cursor.trans (congrArg List.length bytes),
    full [] (List.forall_mem_nil _) 0x57, by decide +kernel, whole,
    congrArg fault? (full [.finishDownload] (List.forall_mem_singleton.mpr rfl) 0x57)⟩

end History

end ControlScript
