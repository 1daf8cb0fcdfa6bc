import ControlScript.Proofs.Requests

/-!
# Variables are a bounded ordered map

The slots of a machine are a row of fixed length, and a new variable goes into the first one that is
vacant. Variables are never taken out one by one, so those that there are stand in the first slots,
in the order in which they were made, and the row answers as the list of them does.

## Main definitions

* `Row` — a row of slots, with the same requests as the variables
* `Variables.row` — the row that variables stand in

## Main results

* `Variables.meet_row`, `Variables.after_row` — one request and a history of them
* `Variables.refines_ordered_map` — the table finds and gives what was made and given
-/

namespace ControlScript

/-- A row of slots, some of them vacant, as long as there may be variables. -/
structure Row where
  slots : List (Option Variable)
  /-- The greatest length of a name. -/
  nameLength : Nat
deriving DecidableEq, Repr

namespace Row

open Variables

/-- A row without variables. -/
def vacant (capacity nameLength : Nat) : Row where
  slots := List.replicate capacity none
  nameLength

/-- The first slot with the name at the start of `text`. -/
def find (row : Row) (text : Bytes) : Except Fault (Nat × Nat) :=
  match Bytes.identifier? text with
  | none => .error (.of .invalidIdentifier)
  | some name =>
    match row.slots.findIdx? fun slot => slot.any (·.name == name) with
    | none => .error (.of .variableNotFound)
    | some slot => .ok (slot, name.length)

/-- Puts a variable with the name at the start of `text` into the first slot that is vacant. -/
def create (text : Bytes) : Attempt Row (Nat × Nat) := fun row =>
  match Bytes.identifier? text with
  | none => .error (.of .invalidIdentifier) row
  | some name =>
    match row.slots.findIdx? Option.isNone with
    | none => .error (.of .noRoomForVariable) row
    | some slot =>
      if row.nameLength < name.length then .error (.of .nameTooLong) row
      else .ok (slot, name.length) { row with slots := row.slots.set slot (some { name }) }

/-- The variable named at the start of `text`, which is put into the row if it is not there. -/
def findOrCreate (text : Bytes) : Attempt Row (Nat × Nat) := fun row =>
  match row.find text with
  | .ok found => .ok found row
  | .error f => if f.cause = .variableNotFound then create text row else .error f row

/-- The value of the variable in a slot. -/
def get (row : Row) (slot : Nat) : Except Fault Value :=
  match row.slots[slot]? with
  | some (some v) =>
    match v.value with
    | none => .error (.of .unassignedVariable)
    | some value => .ok value
  | _ => .error (.of .variableNotFound)

/-- Gives the variable in a slot a value. -/
def set (slot : Nat) (value : Value) : Attempt Row Unit := fun row =>
  match row.slots[slot]? with
  | some (some v) =>
    .ok () { row with slots := row.slots.set slot (some { v with value := some value }) }
  | _ => .error (.of .variableNotFound) row

/-- Makes all slots vacant. -/
def clear (row : Row) : Row := { row with slots := row.slots.map fun _ => none }

/-- What a row answers, and what becomes of it. -/
def meet (row : Row) : Request → Answer × Row
  | .find text => (.ofFind (row.find text), row)
  | .findOrCreate text =>
    match findOrCreate text row with
    | .ok (slot, length) row' => (.found slot length, row')
    | .error f row' => (.refused f, row')
  | .get slot => (.ofGet (row.get slot), row)
  | .set slot value =>
    match set slot value row with
    | .ok () row' => (.done, row')
    | .error f row' => (.refused f, row')
  | .clear => (.done, row.clear)

/-- A row after a history of requests, the latest first. -/
def after (row : Row) : List Request → Row
  | [] => row
  | request :: earlier => ((row.after earlier).meet request).2

end Row

namespace Variables

/-- The variables in the first slots of a row, with the slots that are left behind them. -/
def row (vs : Variables) : Row where
  slots := vs.entries.map some ++ List.replicate (vs.capacity - vs.size) none
  nameLength := vs.nameLength

variable {vs : Variables} {text : Bytes} {slot : Nat}

theorem find_row (vs : Variables) (text : Bytes) : vs.row.find text = vs.find text := by
  have places (name : Bytes) : vs.row.slots.findIdx? (fun slot => slot.any (·.name == name)) =
      vs.slot? name := by
    simp [row, slot?, List.findIdx?_append, Function.comp_def]
  unfold Row.find find
  cases Bytes.identifier? text with
  | none => rfl
  | some name =>
    cases placed : vs.slot? name with
    | none => simp only [places, placed]
    | some slot => simp only [places, placed]

/-- The slots behind the variables are vacant. -/
theorem getElem?_row_eq_some_iff {v : Variable} :
    vs.row.slots[slot]? = some (some v) ↔ vs.inSlot? slot = some v := by
  simp only [row, inSlot?, List.getElem?_append, List.getElem?_map, List.getElem?_replicate]
  split_ifs with taken left
  · simp
  · rw [List.getElem?_eq_none (by simpa using taken)]
    simp
  · rw [List.getElem?_eq_none (by simpa using taken)]
    simp

theorem inSlot?_eq_none_of_row (vacant : ∀ v, vs.row.slots[slot]? ≠ some (some v)) :
    vs.inSlot? slot = none := by
  rw [Option.eq_none_iff_forall_ne_some]
  intro v taken
  exact vacant v (getElem?_row_eq_some_iff.mpr taken)

/-- The first vacant slot is behind the variables, if there is one. -/
theorem findIdx?_isNone_row (vs : Variables) :
    vs.row.slots.findIdx? Option.isNone = if vs.size < vs.capacity then some vs.size else none := by
  have front : (vs.entries.map some).findIdx? Option.isNone = none := by simp
  have behind (count : Nat) : (List.replicate count (none : Option Variable)).findIdx? Option.isNone =
      if 0 < count then some 0 else none := by
    cases count <;> simp [List.replicate_succ, List.findIdx?_cons]
  simp only [row, List.findIdx?_append, front, behind, Nat.sub_pos_iff_lt, List.length_map]
  split_ifs <;> simp [size]

theorem get_row (vs : Variables) (slot : Nat) : vs.row.get slot = vs.get slot := by
  unfold Row.get get
  split
  · next v taken =>
    have inside : vs.inSlot? slot = some v := getElem?_row_eq_some_iff.mp taken
    cases given : v.value with
    | none => simp only [inside, given]
    | some value => simp only [inside, given]
  · next vacant => rw [inSlot?_eq_none_of_row vacant]

/-- A result with the variables as a row. -/
def inRow {α : Type} : EStateM.Result Fault Variables α → EStateM.Result Fault Row α
  | .ok a vs => .ok a vs.row
  | .error f vs => .error f vs.row

theorem set_row (vs : Variables) (slot : Nat) (value : Value) :
    Row.set slot value vs.row = inRow (set slot value vs) := by
  unfold Row.set set
  split
  · next v taken =>
    rw [getElem?_row_eq_some_iff] at taken
    have inside : slot < vs.entries.length := (List.getElem?_eq_some_iff.mp taken).1
    simp only [taken, inRow, row, size, List.length_set, List.map_set]
    rw [List.set_append_left _ _ (by simpa using inside)]
  · next vacant =>
    rw [inSlot?_eq_none_of_row vacant]
    rfl

theorem create_row (vs : Variables) (text : Bytes) :
    Row.create text vs.row = inRow (create text vs) := by
  unfold Row.create create
  cases Bytes.identifier? text with
  | none => rfl
  | some name =>
    dsimp only
    rw [findIdx?_isNone_row]
    by_cases room : vs.size < vs.capacity
    · rw [if_pos room, if_neg (Nat.not_le.mpr room)]
      dsimp only
      by_cases long : vs.nameLength < name.length
      · rw [if_pos (show vs.row.nameLength < name.length from long), if_pos long]
        rfl
      · rw [if_neg (show ¬vs.row.nameLength < name.length from long), if_neg long]
        -- The first of the vacant slots goes to the new variable.
        obtain ⟨left, enough⟩ := Nat.exists_eq_add_of_lt room
        have before : vs.capacity - vs.entries.length = left + 1 := by unfold size at enough; omega
        have afterwards : vs.capacity - (vs.entries.length + 1) = left := by omega
        simp [inRow, row, size, before, afterwards, List.replicate_succ]
    · rw [if_neg room, if_pos (Nat.not_lt.mp room)]
      rfl

theorem findOrCreate_row (vs : Variables) (text : Bytes) :
    Row.findOrCreate text vs.row = inRow (findOrCreate text vs) := by
  unfold Row.findOrCreate findOrCreate
  rw [find_row]
  cases vs.find text with
  | ok found => rfl
  | error f =>
    dsimp only
    rw [create_row]
    split_ifs <;> rfl

theorem clear_row (fits : vs.size ≤ vs.capacity) : vs.row.clear = vs.clear.row := by
  have all : vs.entries.length + (vs.capacity - vs.entries.length) = vs.capacity :=
    Nat.add_sub_of_le fits
  unfold Row.clear
  rw [List.map_const']
  simp [row, clear, size, all]

/-- A row answers as the variables in it do. -/
theorem meet_row (fits : vs.size ≤ vs.capacity) (request : Request) :
    vs.row.meet request = ((vs.meet request).1, (vs.meet request).2.row) := by
  cases request with
  | find text => simp only [Row.meet, meet, find_row]
  | get slot => simp only [Row.meet, meet, get_row]
  | clear => simp only [Row.meet, meet, clear_row fits]
  | set slot value =>
    simp only [Row.meet, meet, set_row]
    cases set slot value vs <;> rfl
  | findOrCreate text =>
    simp only [Row.meet, meet, findOrCreate_row]
    cases findOrCreate text vs <;> rfl

/-- After any history the variables stand in the first slots of the row. -/
theorem after_row (capacity nameLength : Nat) (history : List Request) :
    (Row.vacant capacity nameLength).after history =
      (after { capacity, nameLength } history).row := by
  induction history with
  | nil => rfl
  | cons request earlier ih =>
    have fits : (after { capacity, nameLength } earlier).size ≤
        (after { capacity, nameLength } earlier).capacity := by
      rw [after_eq]
      rw [size_ofHistory]
      exact (names_spec capacity nameLength earlier).1
    rw [Row.after, ih, meet_row fits, after]

/-- A table of variables is an ordered map from names to values, which holds so many names and no
longer ones: it finds and gives what was made and given since it was last cleared. -/
theorem refines_ordered_map (capacity nameLength : Nat) (history : List Request) :
    let row := (Row.vacant capacity nameLength).after history
    let vs := after { capacity, nameLength } history
    let made := names capacity nameLength history
    (vs.capacity = capacity ∧ vs.nameLength = nameLength ∧ vs.entries.map (·.name) = made) ∧
    (row.slots = vs.entries.map some ++ List.replicate (capacity - made.length) none ∧
      ∀ request, (row.meet request).1 = (vs.meet request).1) ∧
    (made.length ≤ capacity ∧ made.Nodup ∧
      ∀ name ∈ made, name.IsIdentifier ∧ name.length ≤ nameLength) ∧
    (∀ text slot length, vs.find text = .ok (slot, length) ↔
      ∃ name, Bytes.IsLongestName name text ∧ made[slot]? = some name ∧ length = name.length) ∧
    (∀ text name, Bytes.IsLongestName name text → name ∉ made →
      findOrCreate text vs =
        if made.length < capacity then
          if name.length ≤ nameLength then
            .ok (made.length, name.length) { vs with entries := vs.entries ++ [{ name }] }
          else .error (.of .nameTooLong) vs
        else .error (.of .noRoomForVariable) vs) ∧
    (∀ slot name, made[slot]? = some name →
      vs.get slot =
          (match lastGiven capacity nameLength name history with
          | some value => .ok value
          | none => .error (.of .unassignedVariable)) ∧
        ∀ value, ∃ vs', set slot value vs = .ok () vs' ∧
          { vs' with entries := vs.entries } = vs ∧ vs'.size = vs.size ∧
          ∀ other, vs'.inSlot? other =
            if other = slot then some { name, value := some value } else vs.inSlot? other) ∧
    ∀ slot, made.length ≤ slot →
      vs.get slot = .error (.of .variableNotFound) ∧
        ∀ value, set slot value vs = .error (.of .variableNotFound) vs := by
  intro row vs made
  -- Table and row are functions of the history; the parts are facts about these.
  have table : vs = ofHistory capacity nameLength history := after_eq capacity nameLength history
  have stands : row = vs.row := after_row capacity nameLength history
  have spec := names_spec capacity nameLength history
  clear_value row vs
  subst stands table
  refine ⟨⟨rfl, rfl, ?_⟩, ⟨?_, ?_⟩, spec, ?_, ?_, ?_, ?_⟩
  · simp [ofHistory, Function.comp_def, made]
  · rw [Variables.row, size_ofHistory]
    rfl
  · intro request
    rw [meet_row (size_ofHistory.trans_le spec.1)]
  · intro text slot length
    exact find_ofHistory_iff
  · intro text name longest new
    exact findOrCreate_ofHistory longest new
  · intro slot name named
    exact ⟨get_ofHistory named, exists_set_ofHistory named⟩
  · intro slot behind
    exact vacant_ofHistory behind

/-- Two variables with names of at most three bytes: `b` is cleared away, `total` is too long, and
`c` comes too late. -/
example :
    let history : List Request :=
      [.set 0 7, .findOrCreate (Bytes.ofString "c"), .set 1 5,
        .findOrCreate (Bytes.ofString "x_1+2"), .findOrCreate (Bytes.ofString "total"),
        .findOrCreate (Bytes.ofString "a=1"), .clear, .findOrCreate (Bytes.ofString "b")]
    (after { capacity := 2, nameLength := 3 } history).entries =
      [{ name := Bytes.ofString "a", value := some 7 },
        { name := Bytes.ofString "x_1", value := some 5 }] := by
  decide +kernel

end Variables

end ControlScript
