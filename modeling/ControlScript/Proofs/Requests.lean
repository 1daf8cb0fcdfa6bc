import ControlScript.Proofs.Names
import Mathlib.Data.List.Nodup

/-!
# Histories of variables

What a table of variables holds depends on all that has been asked of it. Which names were made,
and which value each of them was given last, can be told from the history of requests alone,
without the table; and after any history the table holds just that.

Nothing makes sure that a new variable has a new name but that it is looked for before.

## Main definitions

* `Bytes.IsIdentifier`, `Bytes.IsLongestName` — identifiers, and the one that a text starts with
* `Variables.Request`, `Variables.Answer`, `Variables.meet` — what is asked of a table
* `Variables.names`, `Variables.lastGiven` — the names and the values of a history
* `Variables.ofHistory` — the table of a history

## Main results

* `Bytes.identifier?_eq_some_iff` — the longest name at the start of a text is what is read
* `Variables.names_spec` — the names of a history are distinct identifiers within the limits
* `Variables.meet_ofHistory`, `Variables.after_eq` — one more request, and any number of them
-/

namespace ControlScript

namespace Bytes

variable {name other text : Bytes}

/-- A letter and then letters, digits and underscores. -/
def IsIdentifier (name : Bytes) : Prop :=
  ∃ b tail, name = b :: tail ∧ Byte.isLetter b ∧
    ∀ t ∈ tail, Byte.isLetter t ∨ Byte.isDigit t ∨ t = 0x5F

theorem isIdentifier_iff : IsIdentifier name ↔ IsName name := by
  cases name with
  | nil =>
    constructor
    · rintro ⟨b, tail, same, -⟩
      cases same
    · intro named
      cases named
  | cons b tail =>
    rw [isName_cons_iff]
    simp only [Byte.isNameStart, Byte.isNameChar, Bool.or_eq_true, beq_iff_eq, or_assoc]
    constructor
    · rintro ⟨_, _, same, spelled⟩
      cases same
      exact spelled
    · intro spelled
      exact ⟨b, tail, rfl, spelled⟩

/-- The longest identifier that a text starts with. -/
structure IsLongestName (name text : Bytes) : Prop where
  identifier : IsIdentifier name
  starts : name <+: text
  longest : ∀ other, IsIdentifier other → other <+: text → other.length ≤ name.length

/-- What is read as the name at the start of a text is the longest one. -/
theorem isLongestName_of_identifier? (read : identifier? text = some name) :
    IsLongestName name text := by
  obtain ⟨rest, rfl, named, ends⟩ := exists_of_identifier? read
  refine ⟨isIdentifier_iff.mpr named, List.prefix_append _ _, ?_⟩
  intro other identifier starts
  by_contra longer
  -- A longer one goes on behind the name, where no name character is left.
  obtain ⟨more, rfl⟩ : name <+: other :=
    List.prefix_of_prefix_length_le (List.prefix_append _ _) starts (by omega)
  rw [List.prefix_append_right_inj] at starts
  cases more with
  | nil => simp at longer
  | cons b more =>
    obtain ⟨left, rfl⟩ := starts
    have outside := ends b rfl
    have inside := (isIdentifier_iff.mp identifier).isNameChar b (by simp)
    rw [outside] at inside
    cases inside

theorem identifier?_eq_some_iff : identifier? text = some name ↔ IsLongestName name text := by
  refine ⟨isLongestName_of_identifier?, ?_⟩
  intro found
  obtain ⟨b, tail, rfl, start, -⟩ := found.identifier
  obtain ⟨rest, rfl⟩ := found.starts
  obtain ⟨read, reads⟩ : ∃ read, identifier? (b :: tail ++ rest) = some read := by
    simp [identifier?, Byte.isNameStart, start]
  have longest := isLongestName_of_identifier? reads
  have length := Nat.le_antisymm (found.longest _ longest.identifier longest.starts)
    (longest.longest _ found.identifier found.starts)
  rw [reads, (List.prefix_of_prefix_length_le longest.starts found.starts length.le).eq_of_length
    length]

end Bytes

namespace Variables

/-- What may be asked of a table of variables. -/
inductive Request where
  | find (text : Bytes)
  | findOrCreate (text : Bytes)
  | get (slot : Nat)
  | set (slot : Nat) (value : Value)
  | clear
deriving DecidableEq, Repr

/-- What a table of variables answers. -/
inductive Answer where
  | found (slot length : Nat)
  | holds (value : Value)
  | done
  | refused (fault : Fault)
deriving DecidableEq, Repr

namespace Answer

/-- The answer of a search. -/
def ofFind : Except Fault (Nat × Nat) → Answer
  | .ok (slot, length) => .found slot length
  | .error f => .refused f

/-- The answer to what asks for a value. -/
def ofGet : Except Fault Value → Answer
  | .ok value => .holds value
  | .error f => .refused f

end Answer

/-- What a table answers, and what becomes of it. -/
def meet (vs : Variables) : Request → Answer × Variables
  | .find text => (.ofFind (vs.find text), vs)
  | .findOrCreate text =>
    match findOrCreate text vs with
    | .ok (slot, length) vs' => (.found slot length, vs')
    | .error f vs' => (.refused f, vs')
  | .get slot => (.ofGet (vs.get slot), vs)
  | .set slot value =>
    match set slot value vs with
    | .ok () vs' => (.done, vs')
    | .error f vs' => (.refused f, vs')
  | .clear => (.done, vs.clear)

/-- A table after a history of requests, the latest first. -/
def after (vs : Variables) : List Request → Variables
  | [] => vs
  | request :: earlier => ((vs.after earlier).meet request).2

section

variable (capacity nameLength : Nat)

/-- The names that were made since the last clear, in the order in which they were made. A name is
made when it is first asked for, if there is room for it and it is not too long. -/
def names : List Request → List Bytes
  | [] => []
  | .clear :: _ => []
  | .findOrCreate text :: earlier =>
    match Bytes.identifier? text with
    | none => names earlier
    | some name =>
      if name ∉ names earlier ∧ (names earlier).length < capacity ∧ name.length ≤ nameLength then
        names earlier ++ [name]
      else names earlier
  | _ :: earlier => names earlier

/-- The value that a name was given last. -/
def lastGiven (name : Bytes) : List Request → Option Value
  | [] => none
  | .clear :: _ => none
  | .set slot value :: earlier =>
    if (names capacity nameLength earlier)[slot]? = some name then some value
    else lastGiven name earlier
  | _ :: earlier => lastGiven name earlier

/-- The names are distinct identifiers, and they keep to both limits. -/
theorem names_spec (history : List Request) :
    let made := names capacity nameLength history
    made.length ≤ capacity ∧ made.Nodup ∧
      ∀ name ∈ made, name.IsIdentifier ∧ name.length ≤ nameLength := by
  induction history with
  | nil => simp [names]
  | cons request earlier ih =>
    obtain ⟨room, distinct, fit⟩ := ih
    cases request with
    | clear => simp [names]
    | find | get | set => exact ⟨room, distinct, fit⟩
    | findOrCreate text =>
      dsimp only [names]
      split
      · exact ⟨room, distinct, fit⟩
      · next name read =>
        split_ifs with makes
        · obtain ⟨new, left, short⟩ := makes
          have identifier := (Bytes.identifier?_eq_some_iff.mp read).identifier
          -- The new name stands behind the others and is none of them.
          refine ⟨by simpa [Nat.succ_le_iff] using left, ?_, ?_⟩
          · rw [List.nodup_append]
            refine ⟨distinct, by simp, ?_⟩
            rintro a old b last rfl
            rw [List.mem_singleton.mp last] at old
            exact new old
          · intro a member
            rcases List.mem_append.mp member with old | last
            · exact fit a old
            · rw [List.mem_singleton.mp last]
              exact ⟨identifier, short⟩
        · exact ⟨room, distinct, fit⟩

variable {capacity nameLength} {name text : Bytes} {history : List Request}

/-- What has not been made has not been given a value. -/
theorem lastGiven_of_notMem (unmade : name ∉ names capacity nameLength history) :
    lastGiven capacity nameLength name history = none := by
  induction history with
  | nil => rfl
  | cons request earlier ih =>
    cases request with
    | clear => rfl
    | find | get => exact ih unmade
    | set slot value =>
      have unmade : name ∉ names capacity nameLength earlier := unmade
      rw [lastGiven, if_neg fun here => unmade (List.mem_of_getElem? here)]
      exact ih unmade
    | findOrCreate text =>
      refine ih fun old => unmade ?_
      dsimp only [names]
      split
      · exact old
      · split_ifs
        · exact List.mem_append_left _ old
        · exact old

/-- The table that holds what a history of requests has made and given. -/
def ofHistory (capacity nameLength : Nat) (history : List Request) : Variables where
  capacity
  nameLength
  entries := (names capacity nameLength history).map fun name =>
    { name, value := lastGiven capacity nameLength name history }

theorem size_ofHistory : (ofHistory capacity nameLength history).size =
    (names capacity nameLength history).length := by
  simp [ofHistory, Variables.size]

theorem inSlot?_ofHistory (slot : Nat) : (ofHistory capacity nameLength history).inSlot? slot =
    (names capacity nameLength history)[slot]?.map fun name =>
      { name, value := lastGiven capacity nameLength name history } := by
  simp [ofHistory, inSlot?]

/-- A slot has a name if that is the name made in its place. -/
theorem slot?_ofHistory {slot : Nat} :
    (ofHistory capacity nameLength history).slot? name = some slot ↔
      (names capacity nameLength history)[slot]? = some name := by
  obtain ⟨-, distinct, -⟩ := names_spec capacity nameLength history
  simp only [slot?, ofHistory, List.findIdx?_map, Function.comp_def]
  rw [List.findIdx?_eq_some_iff_getElem, List.getElem?_eq_some_iff]
  constructor
  · rintro ⟨inside, same, -⟩
    exact ⟨inside, beq_iff_eq.mp same⟩
  · rintro ⟨inside, same⟩
    refine ⟨inside, beq_iff_eq.mpr same, ?_⟩
    intro earlier before equal
    have inside' : earlier < (names capacity nameLength history).length := by omega
    have twice : (names capacity nameLength history)[earlier] =
        (names capacity nameLength history)[slot] := (beq_iff_eq.mp equal).trans same.symm
    have equal_slot := distinct.getElem_inj_iff.mp twice
    omega

theorem slot?_ofHistory_of_notMem (unmade : name ∉ names capacity nameLength history) :
    (ofHistory capacity nameLength history).slot? name = none := by
  rw [Option.eq_none_iff_forall_ne_some]
  intro slot placed
  exact unmade (List.mem_of_getElem? (slot?_ofHistory.mp placed))

/-- A name that there is not is made, unless a limit forbids it. -/
theorem findOrCreate_of_new {vs : Variables} (read : Bytes.identifier? text = some name)
    (new : vs.slot? name = none) :
    findOrCreate text vs =
      if vs.size < vs.capacity then
        if name.length ≤ vs.nameLength then
          .ok (vs.size, name.length) { vs with entries := vs.entries ++ [{ name }] }
        else .error (.of .nameTooLong) vs
      else .error (.of .noRoomForVariable) vs := by
  have missing : vs.find text = .error (.of .variableNotFound) := by simp [find, read, new]
  have creates : findOrCreate text vs = create text vs := by
    simp only [findOrCreate, missing]
    rfl
  rw [creates]
  simp only [create, read, ← Nat.not_lt]
  split_ifs <;> rfl

/-- Asking for a name that is there, or for none, makes no other. -/
theorem ofHistory_findOrCreate_of_names (same : names capacity nameLength
      (.findOrCreate text :: history) = names capacity nameLength history) :
    ofHistory capacity nameLength (.findOrCreate text :: history) =
      ofHistory capacity nameLength history := by
  rw [ofHistory, same]
  rfl

/-- A name that was just made is the last one, and it has no value. -/
theorem ofHistory_findOrCreate_of_new (read : Bytes.identifier? text = some name)
    (makes : name ∉ names capacity nameLength history ∧
      (names capacity nameLength history).length < capacity ∧ name.length ≤ nameLength) :
    let vs := ofHistory capacity nameLength history
    ofHistory capacity nameLength (.findOrCreate text :: history) =
      { vs with entries := vs.entries ++ [{ name }] } := by
  have made : names capacity nameLength (.findOrCreate text :: history) =
      names capacity nameLength history ++ [name] := by simp [names, read, makes]
  intro vs
  rw [ofHistory, made, List.map_append, List.map_singleton]
  simp only [lastGiven, lastGiven_of_notMem makes.1]
  rfl

/-- Only the name in the slot has a new value. -/
theorem ofHistory_set_of_some {slot : Nat} {value : Value}
    (here : (names capacity nameLength history)[slot]? = some name) :
    let vs := ofHistory capacity nameLength history
    ofHistory capacity nameLength (.set slot value :: history) =
      { vs with entries := vs.entries.set slot { name, value := some value } } := by
  obtain ⟨-, distinct, -⟩ := names_spec capacity nameLength history
  obtain ⟨inside, rfl⟩ := List.getElem?_eq_some_iff.mp here
  simp only [ofHistory, Variables.mk.injEq, true_and]
  refine List.ext_getElem (by simp [names]) ?_
  intro place before _
  have place_lt : place < (names capacity nameLength history).length := by
    simpa [names] using before
  rw [List.getElem_map, List.getElem_set, List.getElem_map]
  by_cases equal : slot = place
  · subst equal
    simp [names, lastGiven]
  · -- Names are distinct, so the one in another place is not the one that is given a value.
    have other : (names capacity nameLength history)[slot]? ≠
        some (names capacity nameLength history)[place] := by
      intro same
      rw [here] at same
      exact equal (distinct.getElem_inj_iff.mp (Option.some.inj same))
    have kept : lastGiven capacity nameLength (names capacity nameLength history)[place]
        (.set slot value :: history) =
          lastGiven capacity nameLength (names capacity nameLength history)[place] history := by
      rw [lastGiven, if_neg other]
    rw [if_neg equal]
    exact congrArg (Variable.mk _) kept

/-- In a vacant slot there is nothing to give a value to. -/
theorem ofHistory_set_of_none {slot : Nat} {value : Value}
    (vacant : (names capacity nameLength history)[slot]? = none) :
    ofHistory capacity nameLength (.set slot value :: history) =
      ofHistory capacity nameLength history := by
  simp [ofHistory, names, lastGiven, vacant]

/-- One more request. -/
theorem meet_ofHistory (request : Request) :
    ((ofHistory capacity nameLength history).meet request).2 =
      ofHistory capacity nameLength (request :: history) := by
  cases request with
  | find | get | clear => rfl
  | findOrCreate text =>
    cases read : Bytes.identifier? text with
    | none =>
      rw [ofHistory_findOrCreate_of_names (by simp [names, read])]
      simp only [meet, findOrCreate, find, read]
      rfl
    | some name =>
      by_cases old : name ∈ names capacity nameLength history
      · obtain ⟨slot, placed⟩ := List.mem_iff_getElem?.mp old
        rw [ofHistory_findOrCreate_of_names (by simp [names, read, old])]
        simp only [meet, findOrCreate, find, read, slot?_ofHistory.mpr placed]
      · simp only [meet, findOrCreate_of_new read (slot?_ofHistory_of_notMem old),
          size_ofHistory]
        split_ifs with room short
        · exact (ofHistory_findOrCreate_of_new read ⟨old, room, short⟩).symm
        · exact (ofHistory_findOrCreate_of_names
            (by simp [names, read, show ¬name.length ≤ nameLength from short])).symm
        · exact (ofHistory_findOrCreate_of_names
            (by simp [names, read, show ¬_ < capacity from room])).symm
  | set slot value =>
    have there := @inSlot?_ofHistory capacity nameLength history slot
    cases here : (names capacity nameLength history)[slot]? with
    | none =>
      rw [here] at there
      simp only [meet, set, there, Option.map_none]
      exact (ofHistory_set_of_none here).symm
    | some name =>
      rw [here] at there
      simp only [meet, set, there, Option.map_some]
      exact (ofHistory_set_of_some here).symm

/-- After any history the table holds what was made and given. -/
theorem after_eq (capacity nameLength : Nat) (history : List Request) :
    after { capacity, nameLength } history = ofHistory capacity nameLength history := by
  induction history with
  | nil => rfl
  | cons request earlier ih => rw [after, ih, meet_ofHistory]

variable {slot length : Nat}

/-- What is found is the longest name at the start of the text, in its place. -/
theorem find_ofHistory_iff : (ofHistory capacity nameLength history).find text =
      .ok (slot, length) ↔
    ∃ name, Bytes.IsLongestName name text ∧
      (names capacity nameLength history)[slot]? = some name ∧ length = name.length := by
  constructor
  · intro found
    obtain ⟨name, read, placed, rfl⟩ := exists_of_find found
    exact ⟨name, Bytes.identifier?_eq_some_iff.mp read, slot?_ofHistory.mp placed, rfl⟩
  · rintro ⟨name, longest, placed, rfl⟩
    simp only [find, Bytes.identifier?_eq_some_iff.mpr longest, slot?_ofHistory.mpr placed]

theorem findOrCreate_ofHistory (longest : Bytes.IsLongestName name text)
    (new : name ∉ names capacity nameLength history) :
    let vs := ofHistory capacity nameLength history
    let size := (names capacity nameLength history).length
    findOrCreate text vs =
      if size < capacity then
        if name.length ≤ nameLength then
          .ok (size, name.length) { vs with entries := vs.entries ++ [{ name }] }
        else .error (.of .nameTooLong) vs
      else .error (.of .noRoomForVariable) vs := by
  intro vs size
  rw [findOrCreate_of_new (Bytes.identifier?_eq_some_iff.mpr longest) (slot?_ofHistory_of_notMem new),
    size_ofHistory]
  rfl

theorem get_ofHistory (named : (names capacity nameLength history)[slot]? = some name) :
    (ofHistory capacity nameLength history).get slot =
      match lastGiven capacity nameLength name history with
      | some value => .ok value
      | none => .error (.of .unassignedVariable) := by
  simp only [get, inSlot?_ofHistory, named, Option.map_some]
  cases lastGiven capacity nameLength name history <;> rfl

/-- Only the slot that is addressed has another value. -/
theorem exists_set_ofHistory (named : (names capacity nameLength history)[slot]? = some name)
    (value : Value) :
    let vs := ofHistory capacity nameLength history
    ∃ vs', set slot value vs = .ok () vs' ∧
      { vs' with entries := vs.entries } = vs ∧ vs'.size = vs.size ∧
      ∀ other, vs'.inSlot? other =
        if other = slot then some { name, value := some value } else vs.inSlot? other := by
  intro vs
  have there : vs.inSlot? slot =
      some { name, value := lastGiven capacity nameLength name history } := by
    rw [inSlot?_ofHistory, named, Option.map_some]
  have inside : slot < vs.entries.length := (List.getElem?_eq_some_iff.mp there).1
  refine ⟨{ vs with entries := vs.entries.set slot { name, value := some value } }, ?_, rfl,
    List.length_set, fun other => ?_⟩
  · simp only [set, there]
  · dsimp only [inSlot?]
    rw [List.getElem?_set, if_pos inside]
    simp only [eq_comm]

/-- Behind the last name there is nothing to ask for. -/
theorem vacant_ofHistory (behind : (names capacity nameLength history).length ≤ slot) :
    let vs := ofHistory capacity nameLength history
    vs.get slot = .error (.of .variableNotFound) ∧
      ∀ value, set slot value vs = .error (.of .variableNotFound) vs := by
  intro vs
  have vacant : vs.inSlot? slot = none := by
    rw [inSlot?_ofHistory, List.getElem?_eq_none behind, Option.map_none]
  exact ⟨by rw [get, vacant], fun value => by rw [set, vacant]⟩

end

end Variables

end ControlScript
