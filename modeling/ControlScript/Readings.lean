import ControlScript.Expression.Operator

/-!
# Readings

A host offers readings: named values, such as those of its sensors, that expressions refer
to as `@name`. A name is registered as it is spelled and found in any case.
-/

namespace ControlScript

/-- A named value that the host offers. -/
structure Reading where
  name : Bytes
  value : Value
deriving DecidableEq, Repr

/-- The readings of a host, in the order of their first registration. -/
structure Readings where
  entries : List Reading := []
deriving DecidableEq, Repr

namespace Readings

/-- Offers a reading. It takes the place of the one with the same spelling, if there is
one, and comes last otherwise. -/
def register (rs : Readings) (name : Bytes) (value : Value) : Readings :=
  match rs.entries.findIdx? (·.name == name) with
  | some place => ⟨rs.entries.set place { name, value }⟩
  | none => ⟨rs.entries ++ [{ name, value }]⟩

/-- The place of the first reading whose name is the one at the start of `text`, whatever
the case, and the length of the name. -/
def find? (rs : Readings) (text : Bytes) : Option (Nat × Nat) :=
  match Bytes.identifier? text with
  | none => none
  | some name =>
    match rs.entries.findIdx? (Bytes.upper ·.name == Bytes.upper name) with
    | none => none
    | some place => some (place, name.length)

/-- The value of the reading in a place. -/
def read? (rs : Readings) (place : Nat) : Option Value := rs.entries[place]?.map (·.value)

end Readings

end ControlScript
