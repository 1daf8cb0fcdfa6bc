import ControlScript.Proofs.Expressions
import Mathlib.Data.List.Induction

/-!
# Registrations of readings

A host may register a reading more than once, to give it another value. Names are compared by their
spelling when they are registered and in any case when they are looked up. So a reading keeps the
place of the first registration with its spelling and has the value of the latest one, and of all
spellings of a name, the one that was registered first is found. The latest registration of a name is
in force just if it is spelled like the first.

## Main definitions

* `Bytes.agrees` — two spellings of one name
* `Readings.ofRegistrations` — the readings that are left after registrations

## Main results

* `Readings.find?_entries_register`, `Readings.find?_names_register` — one registration more
* `Readings.find?_entries_ofRegistrations` — the registration that is in force for a name
* `Readings.reads_latest_of_first_spelling` — what the name of a reading stands for
-/

namespace ControlScript

open Bytes

/-- Two spellings of one name, which may differ in the case of letters. -/
def Bytes.agrees (spelling name : Bytes) : Bool := upper spelling == upper name

namespace Readings

/-- The readings that are left after registrations, the oldest first. -/
def ofRegistrations (registered : List Reading) : Readings :=
  registered.foldl (fun rs r => rs.register r.name r.value) {}

/-- The names of readings, each as it was registered. -/
def names (rs : Readings) : List Bytes := rs.entries.map (·.name)

/-! ### One registration -/

variable {r : Reading}

/-- A registration looks at one reading after the other. -/
theorem entries_register_cons (e : Reading) (es : List Reading) (r : Reading) :
    (register ⟨e :: es⟩ r.name r.value).entries =
      if e.name = r.name then r :: es else e :: (register ⟨es⟩ r.name r.value).entries := by
  unfold register
  simp only [List.findIdx?_cons, beq_iff_eq]
  by_cases same : e.name = r.name
  · simp [same]
  · simp only [same, if_false]
    cases es.findIdx? (·.name == r.name) <;> rfl

/-- A spelling stands for what was registered with it last. -/
theorem find?_entries_register (rs : Readings) (r : Reading) (spelling : Bytes) :
    (rs.register r.name r.value).entries.find? (·.name == spelling) =
      if r.name = spelling then some r else rs.entries.find? (·.name == spelling) := by
  obtain ⟨entries⟩ := rs
  induction entries with
  | nil =>
    change [r].find? _ = _
    by_cases same : r.name = spelling <;> simp [same]
  | cons e es ih =>
    rw [entries_register_cons]
    by_cases replaced : e.name = r.name
    · rw [if_pos replaced, List.find?_cons, List.find?_cons, replaced]
      by_cases same : r.name = spelling
      · simp [same]
      · simp [same, beq_eq_false_iff_ne.mpr same]
    · rw [if_neg replaced, List.find?_cons, List.find?_cons, ih]
      by_cases found : e.name = spelling
      · have other : r.name ≠ spelling := fun same => replaced (found.trans same.symm)
        simp [found, other]
      · simp [beq_eq_false_iff_ne.mpr found]

/-- A registration takes no name away, and its own comes after all others. -/
theorem find?_names_register (rs : Readings) (r : Reading) (isWanted : Bytes → Bool) :
    (rs.register r.name r.value).names.find? isWanted = (rs.names ++ [r.name]).find? isWanted := by
  obtain ⟨entries⟩ := rs
  unfold names
  induction entries with
  | nil => rfl
  | cons e es ih =>
    rw [entries_register_cons, List.map_cons, List.cons_append]
    by_cases replaced : e.name = r.name
    · rw [if_pos replaced, replaced, List.map_cons, List.find?_cons, List.find?_cons]
      cases wanted : isWanted r.name <;> simp [wanted]
    · rw [if_neg replaced, List.map_cons, List.find?_cons, List.find?_cons, ih]

/-! ### Registration after registration -/

theorem ofRegistrations_concat (registered : List Reading) (r : Reading) :
    ofRegistrations (registered ++ [r]) = (ofRegistrations registered).register r.name r.value := by
  simp [ofRegistrations]

/-- A spelling stands for its latest registration. -/
theorem find?_spelling_ofRegistrations (registered : List Reading) (spelling : Bytes) :
    (ofRegistrations registered).entries.find? (·.name == spelling) =
      registered.reverse.find? (·.name == spelling) := by
  induction registered using List.reverseRecOn with
  | nil => rfl
  | append_singleton registered r ih =>
    rw [ofRegistrations_concat, find?_entries_register, ih, List.reverse_concat, List.find?_cons]
    by_cases same : r.name = spelling
    · simp [same]
    · simp [same, beq_eq_false_iff_ne.mpr same]

/-- The names of readings stand in the order of their first registration. -/
theorem find?_names_ofRegistrations (registered : List Reading) (isWanted : Bytes → Bool) :
    (ofRegistrations registered).names.find? isWanted =
      (registered.map (·.name)).find? isWanted := by
  induction registered using List.reverseRecOn with
  | nil => rfl
  | append_singleton registered r ih =>
    rw [ofRegistrations_concat, find?_names_register, List.find?_append, ih, ← List.find?_append,
      List.map_append, List.map_singleton]

/-- So the first reading with a name of some kind is spelled like the first registration with one. -/
theorem map_name_find?_ofRegistrations (registered : List Reading) (isWanted : Bytes → Bool) :
    ((ofRegistrations registered).entries.find? (isWanted ·.name)).map (·.name) =
      (registered.find? (isWanted ·.name)).map (·.name) := by
  have names := find?_names_ofRegistrations registered isWanted
  rw [Readings.names, List.find?_map, List.find?_map] at names
  exact names

/-- The first reading whose name is of some kind is also the first with its spelling. -/
theorem find?_spelling_of_find? {entries : List Reading} (isWanted : Bytes → Bool)
    (found : entries.find? (isWanted ·.name) = some r) :
    entries.find? (·.name == r.name) = some r := by
  obtain ⟨wanted, before, after, rfl, others⟩ := List.find?_eq_some_iff_append.mp found
  refine List.find?_eq_some_iff_append.mpr ⟨beq_self_eq_true _, before, after, rfl, ?_⟩
  intro e member
  have unwanted := others e member
  rw [Bool.not_eq_true'] at unwanted ⊢
  refine beq_eq_false_iff_ne.mpr fun same => ?_
  rw [same, wanted] at unwanted
  cases unwanted

/-- Of all registrations for a name, the latest one that is spelled like the first is in force. -/
theorem find?_entries_ofRegistrations (registered : List Reading) (name : Bytes) :
    (ofRegistrations registered).entries.find? (·.name.agrees name) =
      (registered.find? (·.name.agrees name)).bind fun first =>
        registered.reverse.find? (·.name == first.name) := by
  -- The order of names settles which spelling is found, and the spelling settles the value.
  have spelled := map_name_find?_ofRegistrations registered (·.agrees name)
  cases oldest : registered.find? (·.name.agrees name) with
  | none =>
    rw [oldest] at spelled
    exact Option.map_eq_none_iff.mp spelled
  | some first =>
    rw [oldest] at spelled
    obtain ⟨r, found, same⟩ := Option.map_eq_some_iff.mp spelled
    have own := find?_spelling_of_find? (·.agrees name) found
    rw [find?_spelling_ofRegistrations, same] at own
    exact found.trans own.symm

/-- A spelling that was registered has a latest registration. -/
theorem exists_find?_reverse {registered : List Reading} (member : r ∈ registered) :
    ∃ latest, registered.reverse.find? (·.name == r.name) = some latest := by
  rw [← Option.isSome_iff_exists, List.find?_isSome]
  exact ⟨r, List.mem_reverse.mpr member, beq_self_eq_true r.name⟩

/-! ### Looking a name up -/

section

variable {name rest : Bytes} (named : name.IsName) (ends : Ends rest)

include named ends

/-- A name is looked up among the readings in their order. -/
theorem find?_eq (rs : Readings) : rs.find? (name ++ rest) =
    (rs.entries.findIdx? (·.name.agrees name)).map fun place => (place, name.length) := by
  unfold find?
  simp only [identifier?_append named ends]
  change _ = (rs.entries.findIdx? (upper ·.name == upper name)).map _
  cases rs.entries.findIdx? (upper ·.name == upper name) <;> rfl

/-- A name that no reading goes by stands for nothing. -/
theorem evaluate_of_find?_none (scope : Scope)
    (missing : scope.readings.entries.find? (·.name.agrees name) = none) :
    scope.readings.find? (name ++ rest) = none ∧
      ∃ left, Operand.evaluate scope (Byte.atSign :: (name ++ rest)) =
        .error (.of .invalidReading) left := by
  have unknown : scope.readings.find? (name ++ rest) = none := by
    rw [scope.readings.find?_eq named ends, Option.map_eq_none_iff, List.findIdx?_eq_none_iff]
    simpa using List.find?_eq_none.mp missing
  have value : (Operand.reading name).value scope = .error (.of .invalidReading) := by
    rw [Operand.value, ← scope.readings.find?_append named ends, unknown]
    rfl
  have gives := Operand.evaluate_text scope (o := .reading name) named ends
  rw [value] at gives
  exact ⟨unknown, gives⟩

/-- Any other stands for the first reading that goes by it. -/
theorem evaluate_of_find?_some (scope : Scope)
    (found : scope.readings.entries.find? (·.name.agrees name) = some r) :
    ∃ place, scope.readings.find? (name ++ rest) = some (place, name.length) ∧
      scope.readings.read? place = some r.value ∧
      Operand.evaluate scope (Byte.atSign :: (name ++ rest)) = .ok r.value rest := by
  rw [List.find?_eq_bind_findIdx?_getElem?, Option.bind_eq_some_iff] at found
  obtain ⟨place, placed, there⟩ := found
  have known : scope.readings.find? (name ++ rest) = some (place, name.length) := by
    rw [scope.readings.find?_eq named ends, placed]
    rfl
  have read : scope.readings.read? place = some r.value := by
    rw [read?, there]
    rfl
  have value : (Operand.reading name).value scope = .ok r.value := by
    simp only [Operand.value, ← scope.readings.find?_append named ends, known, Option.bind_some,
      read]
  have gives := Operand.evaluate_text scope (o := .reading name) named ends
  rw [value] at gives
  exact ⟨place, known, read, gives⟩

/-- Whatever readings were registered: a name that none of them goes by, in any case, is no operand.
Any other stands for the latest registration that is spelled like the first one for the name. That is
the latest of all for the name just if this one is spelled like the first, too. -/
theorem reads_latest_of_first_spelling (registered : List Reading) (vars : Variables) :
    let readings := ofRegistrations registered
    let evaluated := Operand.evaluate { vars, readings } (Byte.atSign :: (name ++ rest))
    ((∀ r ∈ registered, r.name.agrees name = false) →
      readings.find? (name ++ rest) = none ∧
        ∃ left, evaluated = .error (.of .invalidReading) left) ∧
    ∀ first, registered.find? (·.name.agrees name) = some first →
      ∃ latest place, registered.reverse.find? (·.name == first.name) = some latest ∧
        readings.find? (name ++ rest) = some (place, name.length) ∧
        readings.read? place = some latest.value ∧ evaluated = .ok latest.value rest ∧
        ∀ last, registered.reverse.find? (·.name.agrees name) = some last →
          (latest = last ↔ last.name = first.name) := by
  intro readings evaluated
  have inForce := find?_entries_ofRegistrations registered name
  constructor
  · intro unknown
    have nothing : registered.find? (·.name.agrees name) = none :=
      List.find?_eq_none.mpr fun r member => by simp [unknown r member]
    rw [nothing, Option.bind_none] at inForce
    exact evaluate_of_find?_none named ends { vars, readings } inForce
  · intro first oldest
    obtain ⟨latest, found⟩ := exists_find?_reverse (List.mem_of_find?_eq_some oldest)
    rw [oldest, Option.bind_some, found] at inForce
    obtain ⟨place, known, read, evaluates⟩ :=
      evaluate_of_find?_some named ends { vars, readings } inForce
    refine ⟨latest, place, found, known, read, evaluates, fun last newest => ⟨?_, ?_⟩⟩
    · rintro rfl
      simpa using List.find?_some found
    · -- The last one for the name is then the last one of that spelling, too.
      intro spelled
      have own := find?_spelling_of_find? (·.agrees name) newest
      rw [spelled, found] at own
      exact Option.some.inj own

end

/-- Of three registrations for one name the first and the last are spelled alike, and the one between
them is not. -/
theorem reads_latest_of_three :
    let registered : List Reading := [⟨ofString "Temp", 1⟩, ⟨ofString "temp", 2⟩,
      ⟨ofString "Temp", 3⟩]
    let name := ofString "temp"
    name.IsName ∧ Ends [Byte.plus] ∧
      registered.find? (·.name.agrees name) = some ⟨ofString "Temp", 1⟩ ∧
      Operand.evaluate { vars := .ofLimits {}, readings := ofRegistrations registered }
        (Byte.atSign :: (name ++ [Byte.plus])) = .ok 3 [Byte.plus] := by
  intro registered name
  have named : name.IsName := by decide +kernel
  have ends : Ends [Byte.plus] := ends_cons (by decide)
  have oldest : registered.find? (·.name.agrees name) = some ⟨ofString "Temp", 1⟩ := by
    decide +kernel
  obtain ⟨latest, place, found, -, -, evaluates, -⟩ :=
    (reads_latest_of_first_spelling named ends registered (.ofLimits {})).2 _ oldest
  have spelled : registered.reverse.find? (·.name == ofString "Temp") =
      some ⟨ofString "Temp", 3⟩ := by decide +kernel
  cases found.symm.trans spelled
  exact ⟨named, ends, oldest, evaluates⟩

/-- A name that was registered in another spelling before cannot be given another value: the latest
registration, spelled just like the operand, is not the one that is read. -/
theorem reads_other_than_latest :
    let registered : List Reading := [⟨ofString "Temp", 1⟩, ⟨ofString "temp", 2⟩]
    let name := ofString "temp"
    registered.reverse.find? (·.name.agrees name) = some ⟨name, 2⟩ ∧
      Operand.evaluate { vars := .ofLimits {}, readings := ofRegistrations registered }
        (Byte.atSign :: name) = .ok 1 [] := by
  exact ⟨by decide +kernel, rfl⟩

end Readings

end ControlScript
