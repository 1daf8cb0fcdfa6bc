import ControlScript.Readings
import ControlScript.Variables
import Mathlib.Data.List.TakeWhile

/-!
# Names and the bytes around them

A name reads the same wherever it stands, as long as no name character follows it. The signs
of operators and comparisons, the comma and the end of a statement are no name characters,
so the operands of a written expression keep apart.

## Main definitions

* `Bytes.IsName` — a byte string that is a name from its first to its last byte
* `Bytes.Ends` — what may follow a name
* `Variables.Fitting` — no name is too long
* `Variables.Becomes` — what may become of variables: no name becomes too long

## Main results

* `Bytes.identifier?_append` — a name is read back in front of what may follow it
* `Bytes.exists_of_identifier?` — what is read is a name, and what is left may follow it
* `Variables.find_append`, `Readings.find?_append` — a name refers to the same thing
  whatever follows it
-/

namespace ControlScript

/-- The longest run of a class ends where the class does. -/
theorem takeWhile_append_of_ends {α : Type} {isMember : α → Bool} {run rest : List α}
    (inside : ∀ b ∈ run, isMember b = true) (outside : ∀ b ∈ rest.head?, isMember b = false) :
    (run ++ rest).takeWhile isMember = run ∧ (run ++ rest).dropWhile isMember = rest := by
  rw [List.takeWhile_append_of_pos inside, List.dropWhile_append_of_pos inside]
  cases rest with
  | nil => simp
  | cons b rest => simp [outside b rfl]

namespace Byte

theorem isControl_of_isNameChar {b : UInt8} (member : isNameChar b = true) :
    isControl b = false := by
  simp only [isNameChar, isLetter, isUpper, isLower, isDigit, isControl, UInt8.le_iff_toNat_le,
    UInt8.lt_iff_toNat_lt, ← UInt8.toNat_inj, Bool.or_eq_true, Bool.and_eq_true,
    Bool.or_eq_false_iff, decide_eq_true_eq, decide_eq_false_iff_not, beq_iff_eq,
    beq_eq_false_iff_ne, ne_eq] at *
  simp only [UInt8.reduceToNat] at *
  omega

theorem isNameChar_of_isDigit {b : UInt8} (digit : isDigit b = true) : isNameChar b = true := by
  simp [isNameChar, digit]

theorem isNameStart_of_isDigit {b : UInt8} (digit : isDigit b = true) :
    isNameStart b = false := by
  simp only [isNameStart, isLetter, isUpper, isLower, isDigit, UInt8.le_iff_toNat_le,
    Bool.or_eq_false_iff, Bool.and_eq_true, Bool.and_eq_false_iff, decide_eq_true_eq,
    decide_eq_false_iff_not] at *
  simp only [UInt8.reduceToNat] at *
  omega

/-- A byte that is no name character is neither a letter nor a digit. -/
theorem isNameStart_of_not_isNameChar {b : UInt8} (outside : isNameChar b = false) :
    isNameStart b = false ∧ isDigit b = false := by
  simp only [isNameChar, Bool.or_eq_false_iff] at outside
  exact outside.1

end Byte

namespace Bytes

/-- A name from the first byte to the last. -/
def IsName (name : Bytes) : Prop := identifier? name = some name

instance (name : Bytes) : Decidable (IsName name) := inferInstanceAs (Decidable (_ = _))

/-- What may follow a name: nothing, or a byte that does not go on with it. -/
def Ends (rest : Bytes) : Prop := ∀ b ∈ rest.head?, Byte.isNameChar b = false

theorem ends_nil : Ends [] := by simp [Ends]

theorem ends_cons {b : UInt8} {rest : Bytes} (outside : Byte.isNameChar b = false) :
    Ends (b :: rest) := by
  simpa [Ends] using outside

/-- The rest after the longest run of a class does not start in the class. -/
theorem head?_dropWhile (isMember : UInt8 → Bool) (text : Bytes) :
    ∀ b ∈ (text.dropWhile isMember).head?, isMember b = false := by
  intro b first
  have remaining := List.head?_dropWhile_not isMember text
  rw [Option.mem_def.mp first] at remaining
  simpa using remaining

theorem isName_cons_iff {b : UInt8} {tail : Bytes} :
    IsName (b :: tail) ↔ Byte.isNameStart b = true ∧ ∀ t ∈ tail, Byte.isNameChar t = true := by
  simp only [IsName, identifier?]
  split
  · next start => simp [start, List.takeWhile_eq_self_iff]
  · next start => simp [start]

theorem IsName.exists_cons {name : Bytes} (named : IsName name) :
    ∃ b tail, name = b :: tail ∧ Byte.isNameStart b = true ∧
      ∀ t ∈ tail, Byte.isNameChar t = true := by
  cases name with
  | nil => cases named
  | cons b tail => exact ⟨b, tail, rfl, isName_cons_iff.mp named⟩

/-- All bytes of a name are name characters. -/
theorem IsName.isNameChar {name : Bytes} (named : IsName name) :
    ∀ b ∈ name, Byte.isNameChar b = true := by
  obtain ⟨b, tail, rfl, start, rest⟩ := named.exists_cons
  intro t member
  rcases List.mem_cons.mp member with rfl | later
  · exact Byte.isNameChar_of_isNameStart start
  · exact rest t later

/-- A name is read back in front of what may follow it. -/
theorem identifier?_append {name rest : Bytes} (named : IsName name) (ends : Ends rest) :
    identifier? (name ++ rest) = some name := by
  obtain ⟨b, tail, rfl, start, inside⟩ := named.exists_cons
  simp [identifier?, start, (takeWhile_append_of_ends inside ends).1]

/-- What is read as a name is one, and what is left may follow it. -/
theorem exists_of_identifier? {text name : Bytes} (read : identifier? text = some name) :
    ∃ rest, text = name ++ rest ∧ IsName name ∧ Ends rest := by
  cases text with
  | nil => cases read
  | cons b text =>
    simp only [identifier?] at read
    split at read
    · next start =>
      cases read
      refine ⟨text.dropWhile Byte.isNameChar, ?_, isName_cons_iff.mpr ⟨start, ?_⟩,
        head?_dropWhile _ _⟩
      · rw [List.cons_append, List.takeWhile_append_dropWhile]
      · exact fun t member => List.all_eq_true.mp List.all_takeWhile t member
    · cases read

end Bytes

/-- What is found is named at the start of the text. -/
theorem Variables.exists_of_find {vs : Variables} {text : Bytes} {slot length : Nat}
    (found : vs.find text = .ok (slot, length)) :
    ∃ name, Bytes.identifier? text = some name ∧ vs.slot? name = some slot ∧
      length = name.length := by
  unfold find at found
  split at found
  · cases found
  · next name named =>
    split at found
    · cases found
    · next place placed =>
      cases found
      exact ⟨name, named, placed, rfl⟩

/-- What is found is named at the start of the text. -/
theorem Readings.exists_of_find? {rs : Readings} {text : Bytes} {place length : Nat}
    (found : rs.find? text = some (place, length)) :
    ∃ name, Bytes.identifier? text = some name ∧ length = name.length := by
  unfold find? at found
  split at found
  · cases found
  · next name named =>
    split at found
    · cases found
    · cases found
      exact ⟨name, named, rfl⟩

open Bytes in
/-- A name refers to the same variable whatever follows it. -/
theorem Variables.find_append (vs : Variables) {name rest : Bytes} (named : IsName name)
    (ends : Ends rest) : vs.find (name ++ rest) = vs.find name := by
  simp only [find, identifier?_append named ends, show identifier? name = some name from named]

open Bytes in
/-- A name refers to the same reading whatever follows it. -/
theorem Readings.find?_append (rs : Readings) {name rest : Bytes} (named : IsName name)
    (ends : Ends rest) : rs.find? (name ++ rest) = rs.find? name := by
  simp only [find?, identifier?_append named ends, show identifier? name = some name from named]

namespace Variables

variable {vs ws : Variables}

/-- No name is too long. -/
def Fitting (vs : Variables) : Prop := ∀ v ∈ vs.entries, v.name.length ≤ vs.nameLength

/-- What may become of variables: no name becomes too long. -/
structure Becomes (vs ws : Variables) : Prop where
  nameLength : ws.nameLength = vs.nameLength
  fitting : vs.Fitting → ws.Fitting

theorem Becomes.refl (vs : Variables) : vs.Becomes vs := ⟨rfl, id⟩

theorem Becomes.trans {us : Variables} (first : us.Becomes vs) (second : vs.Becomes ws) :
    us.Becomes ws :=
  ⟨second.nameLength.trans first.nameLength, second.fitting ∘ first.fitting⟩

theorem becomes_clear (vs : Variables) : vs.Becomes vs.clear := ⟨rfl, fun _ => nofun⟩

theorem becomes_create (vs : Variables) (text : Bytes) :
    vs.Becomes (Attempt.reached (create text vs)) := by
  unfold create
  split
  · exact .refl vs
  · split
    · exact .refl vs
    · split
      · exact .refl vs
      · next short =>
        refine ⟨rfl, fun fitting => List.forall_mem_append.mpr ⟨fitting, ?_⟩⟩
        exact List.forall_mem_singleton.mpr (Nat.le_of_not_lt short)

theorem becomes_findOrCreate (vs : Variables) (text : Bytes) :
    vs.Becomes (Attempt.reached (findOrCreate text vs)) := by
  unfold findOrCreate
  split
  · exact .refl vs
  · split
    · exact vs.becomes_create text
    · exact .refl vs

/-- A value does not change a name. -/
theorem becomes_set (vs : Variables) (slot : Nat) (value : Value) :
    vs.Becomes (Attempt.reached (set slot value vs)) := by
  unfold set
  split
  · exact .refl vs
  · next v there =>
    refine ⟨rfl, fun fitting u member => ?_⟩
    rcases List.mem_or_eq_of_mem_set member with before | rfl
    · exact fitting u before
    · exact fitting v (List.mem_of_getElem? there)

/-- What is found has a name that is not too long. -/
theorem Fitting.length_le {name : Bytes} {place : Nat × Nat} (fitting : vs.Fitting)
    (named : name.IsName) (found : vs.find name = .ok place) : name.length ≤ vs.nameLength := by
  obtain ⟨slot, length⟩ := place
  obtain ⟨name', same, placed, -⟩ := exists_of_find found
  cases named.symm.trans same
  obtain ⟨inside, equal, -⟩ := List.findIdx?_eq_some_iff_getElem.mp placed
  have fits := fitting _ (List.getElem_mem inside)
  rwa [beq_iff_eq.mp equal] at fits

end Variables

end ControlScript
