import ControlScript.Expression.Operator
import ControlScript.Limits

/-!
# Variables

A fixed number of variables is found by name. A variable comes into being when it is first
assigned to, has no value until then, and goes only when all of them go.

## Main definitions

* `Variables` — the variables in the order in which they were made
* `Variables.find` — the variable named at the start of a text
* `Variables.create`, `Variables.findOrCreate` — a new variable
* `Variables.get`, `Variables.set` — its value

A place in the order is called a slot.
-/

namespace ControlScript

/-- A named place for a value. -/
structure Variable where
  name : Bytes
  /-- `none` before the first assignment. -/
  value : Option Value := none
deriving DecidableEq, Repr

/-- The variables of a machine. -/
structure Variables where
  /-- The greatest number of variables. -/
  capacity : Nat
  /-- The greatest length of a name. -/
  nameLength : Nat
  /-- The variables, the oldest first. -/
  entries : List Variable := []
deriving DecidableEq, Repr

namespace Variables

/-- The variables of a machine at its start: none. -/
def ofLimits (limits : Limits) : Variables :=
  { capacity := limits.maxVariables, nameLength := limits.nameLength }

/-- The number of variables. -/
def size (vs : Variables) : Nat := vs.entries.length

/-- The slot of the variable with a name. -/
def slot? (vs : Variables) (name : Bytes) : Option Nat := vs.entries.findIdx? (·.name == name)

/-- The slot of the variable named at the start of `text`, and the length of the name. -/
def find (vs : Variables) (text : Bytes) : Except Fault (Nat × Nat) :=
  match Bytes.identifier? text with
  | none => .error (.of .invalidIdentifier)
  | some name =>
    match vs.slot? name with
    | none => .error (.of .variableNotFound)
    | some slot => .ok (slot, name.length)

/-- Makes a variable with the name at the start of `text`. -/
def create (text : Bytes) : Attempt Variables (Nat × Nat) := fun vs =>
  match Bytes.identifier? text with
  | none => .error (.of .invalidIdentifier) vs
  | some name =>
    if vs.capacity ≤ vs.size then .error (.of .noRoomForVariable) vs
    else if vs.nameLength < name.length then .error (.of .nameTooLong) vs
    else .ok (vs.size, name.length) { vs with entries := vs.entries ++ [{ name }] }

/-- The variable named at the start of `text`, which is made if there is none. -/
def findOrCreate (text : Bytes) : Attempt Variables (Nat × Nat) := fun vs =>
  match vs.find text with
  | .ok found => .ok found vs
  | .error f => if f.cause = .variableNotFound then create text vs else .error f vs

/-- The variable in a slot. -/
def inSlot? (vs : Variables) (slot : Nat) : Option Variable := vs.entries[slot]?

/-- The value of the variable in a slot. -/
def get (vs : Variables) (slot : Nat) : Except Fault Value :=
  match vs.inSlot? slot with
  | none => .error (.of .variableNotFound)
  | some v =>
    match v.value with
    | none => .error (.of .unassignedVariable)
    | some value => .ok value

/-- Gives the variable in a slot a value. -/
def set (slot : Nat) (value : Value) : Attempt Variables Unit := fun vs =>
  match vs.inSlot? slot with
  | none => .error (.of .variableNotFound) vs
  | some v => .ok () { vs with entries := vs.entries.set slot { v with value := some value } }

/-- Removes all variables. -/
def clear (vs : Variables) : Variables := { vs with entries := [] }

/-- The value of the variable with exactly this name, if it has one. -/
def value? (vs : Variables) (name : Bytes) : Option Value :=
  match vs.find name with
  | .error _ => none
  | .ok (slot, length) =>
    if length = name.length then (vs.inSlot? slot).bind (·.value) else none

/-- A failing creation leaves the variables as they are. -/
theorem eq_of_create_error {vs vs' : Variables} {text : Bytes} {f : Fault}
    (failed : create text vs = .error f vs') : vs' = vs := by
  unfold create at failed
  split at failed
  · cases failed; rfl
  · split at failed
    · cases failed; rfl
    · split at failed <;> cases failed
      rfl

/-- A value that was given is there. -/
theorem get_of_set {vs vs' : Variables} {slot : Nat} {value : Value}
    (given : set slot value vs = .ok () vs') : vs'.get slot = .ok value := by
  unfold set at given
  split at given
  · cases given
  · next v found =>
    cases given
    have bound : slot < vs.entries.length := by
      simpa [inSlot?] using (List.getElem?_eq_some_iff.mp found).1
    simp [get, inSlot?, bound]

end Variables

end ControlScript
