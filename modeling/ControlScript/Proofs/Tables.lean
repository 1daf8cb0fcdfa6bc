import ControlScript.Proofs.Execution

/-!
# Variables made ahead of time

A program makes its variables while it is compiled, all of them before the first is given a value.
The same lines, each executed before the next is compiled, make a variable when it is its turn.
Variables that are made early stay at the end of the order and have no value, so nothing that does
not name them takes notice.

## Main definitions

* `Variables.make` — the variables with one of a name
* `Instruction.effect` — what an instruction does to the variables, and what it writes
* `Instruction.Known` — the variables that an instruction names are there
* `Action.make` — the variables when an action has been compiled

## Main results

* `Instruction.effect_make` — a variable that is made early makes no difference
* `Instruction.effect_of_make` — neither does one that is made for a statement that succeeds
-/

namespace ControlScript

open Attempt

namespace Attempt

variable {σ α : Type}

/-- A result with its state changed. -/
def carry (f : σ → σ) : EStateM.Result Fault σ α → EStateM.Result Fault σ α
  | .ok a s => .ok a (f s)
  | .error e s => .error e (f s)

end Attempt

namespace Variables

variable {vs ws : Variables} {name other : Bytes} {place : Nat × Nat} {slot : Nat}

/-- The variables with one of the name at the start of a text, if there is room for it. -/
def make (vs : Variables) (text : Bytes) : Variables := reached (findOrCreate text vs)

/-- What is made for a name: at most one variable. -/
def added (vs : Variables) (text : Bytes) : List Variable :=
  match Bytes.identifier? text with
  | none => []
  | some name =>
    if vs.slot? name ≠ none ∨ vs.capacity ≤ vs.size ∨ vs.nameLength < name.length then []
    else [{ name }]

/-- The same variables, with whatever values. -/
structure SameShape (vs ws : Variables) : Prop where
  capacity : ws.capacity = vs.capacity
  nameLength : ws.nameLength = vs.nameLength
  names : ws.entries.map (·.name) = vs.entries.map (·.name)

theorem SameShape.slot? (same : SameShape vs ws) (name : Bytes) : ws.slot? name = vs.slot? name := by
  have named (us : Variables) : us.slot? name = (us.entries.map (·.name)).findIdx? (· == name) := by
    rw [List.findIdx?_map]
    rfl
  rw [named, named, same.names]

theorem SameShape.find (same : SameShape vs ws) (text : Bytes) : ws.find text = vs.find text := by
  simp only [Variables.find, same.slot?]

theorem SameShape.added (same : SameShape vs ws) (text : Bytes) : ws.added text = vs.added text := by
  have size : ws.size = vs.size := by simpa [Variables.size] using congrArg List.length same.names
  simp only [Variables.added, same.slot?, same.capacity, same.nameLength, size]

theorem make_eq (vs : Variables) (text : Bytes) :
    vs.make text = { vs with entries := vs.entries ++ vs.added text } := by
  have unchanged : vs = { vs with entries := vs.entries ++ [] } := by simp
  cases named : Bytes.identifier? text with
  | none =>
    simp only [make, findOrCreate, find, added, named]
    exact unchanged
  | some name =>
    cases found : vs.slot? name with
    | some slot =>
      simp only [make, findOrCreate, find, added, named, found]
      exact unchanged
    | none =>
      have missing : (Fault.of .variableNotFound).cause = .variableNotFound := rfl
      simp only [make, findOrCreate, find, added, named, found, create, missing, if_true, ne_eq,
        not_true_eq_false, false_or]
      by_cases full : vs.capacity ≤ vs.size
      · simp [full]
      · by_cases long : vs.nameLength < name.length
        · simp [full, long]
        · simp [full, long]

theorem make_of_findOrCreate {vs' : Variables} (made : findOrCreate name vs = .ok place vs') :
    vs.make name = vs' := by
  rw [make, made, reached_ok]

theorem findOrCreate_of_find (found : vs.find name = .ok place) :
    findOrCreate name vs = .ok place vs := by
  simp only [findOrCreate, found]

/-- A variable that was just made is found. -/
theorem find_made {ws : Variables} (made : findOrCreate name vs = .ok place ws) :
    ws.find name = .ok place := by
  cases found : vs.find name with
  | ok place' =>
    rw [findOrCreate_of_find found] at made
    cases made
    exact found
  | error f =>
    simp only [findOrCreate, found] at made
    split at made
    · next missing =>
      unfold create at made
      cases named : Bytes.identifier? name with
      | none => simp [named] at made
      | some short =>
        have absent : vs.entries.findIdx? (·.name == short) = none := by
          cases there : vs.slot? short with
          | none => exact there
          | some slot => simp [find, named, there] at found
        simp only [named] at made
        split at made
        · cases made
        · split at made
          · cases made
          · cases made
            simp [find, named, slot?, List.findIdx?_append, absent, size]
    · cases made

/-- A variable that is found is one of those that there are. -/
theorem lt_size_of_find (found : vs.find name = .ok place) : place.1 < vs.size := by
  obtain ⟨slot, length⟩ := place
  obtain ⟨name, -, placed, -⟩ := exists_of_find found
  exact (List.findIdx?_eq_some_iff_getElem.mp placed).1

/-- What is found is found also after another variable was made. -/
theorem find_make (found : vs.find name = .ok place) (other : Bytes) :
    (vs.make other).find name = .ok place := by
  obtain ⟨slot, length⟩ := place
  obtain ⟨short, named, placed, rfl⟩ := exists_of_find found
  have placed' : (vs.make other).slot? short = some slot := by
    rw [make_eq, slot?, List.findIdx?_append, show vs.entries.findIdx? _ = some slot from placed]
    rfl
  simp only [find, named, placed']

/-- What is found after another variable was made was there before, unless it is that one. -/
theorem find_of_make (found : (vs.make other).find name = .ok place) (inside : place.1 < vs.size) :
    vs.find name = .ok place := by
  obtain ⟨slot, length⟩ := place
  obtain ⟨short, named, placed, rfl⟩ := exists_of_find found
  cases there : vs.slot? short with
  | some slot' =>
    have found' : vs.find name = .ok (slot', short.length) := by simp only [find, named, there]
    exact found'.trans ((find_make found' other).symm.trans found)
  | none =>
    rw [make_eq, slot?, List.findIdx?_append, show vs.entries.findIdx? _ = none from there,
      Option.none_or, Option.map_eq_some_iff] at placed
    obtain ⟨behind, -, rfl⟩ := placed
    exact absurd inside (Nat.not_lt_of_le (Nat.le_add_left _ _))

theorem inSlot?_make (inside : slot < vs.size) (other : Bytes) :
    (vs.make other).inSlot? slot = vs.inSlot? slot := by
  rw [make_eq, inSlot?, inSlot?]
  exact List.getElem?_append_left inside

theorem get_make (inside : slot < vs.size) (other : Bytes) :
    (vs.make other).get slot = vs.get slot := by
  rw [get, get, inSlot?_make inside]

/-- A variable that was just made has no value. -/
theorem lt_size_of_get_make {v : Value} (valued : (vs.make other).get slot = .ok v) :
    slot < vs.size := by
  by_contra outside
  have fresh : ∀ x ∈ vs.added other, x.value = none := by
    unfold added
    split
    · exact List.forall_mem_nil _
    · split
      · exact List.forall_mem_nil _
      · exact List.forall_mem_singleton.mpr rfl
  rw [make_eq, get, inSlot?, List.getElem?_append_right (Nat.le_of_not_lt outside)] at valued
  cases there : (vs.added other)[slot - vs.entries.length]? with
  | none => simp [there] at valued
  | some x => simp [there, fresh x (List.mem_of_getElem? there)] at valued

/-- Giving a variable a value leaves the names as they are. -/
theorem sameShape_set (vs : Variables) (slot : Nat) (v : Value) :
    SameShape vs (reached (set slot v vs)) := by
  cases there : vs.inSlot? slot with
  | none =>
    simp only [set, there, reached_error]
    exact ⟨rfl, rfl, rfl⟩
  | some x =>
    obtain ⟨inside, rfl⟩ := List.getElem?_eq_some_iff.mp there
    simp only [set, there, reached_ok]
    refine ⟨rfl, rfl, ?_⟩
    refine List.ext_getElem? fun j => ?_
    simp only [List.getElem?_map, List.getElem?_set]
    split
    · next at' =>
      subst at'
      simp [inside]
    · rfl

/-- Giving a value to a variable and making another are done in either order. -/
theorem set_make (inside : slot < vs.size) (v : Value) (other : Bytes) :
    set slot v (vs.make other) = carry (·.make other) (set slot v vs) := by
  obtain ⟨x, there⟩ : ∃ x, vs.inSlot? slot = some x := ⟨_, List.getElem?_eq_getElem inside⟩
  have shape := sameShape_set vs slot v
  simp only [set, there, reached_ok] at shape
  simp only [set, inSlot?_make inside, there, carry]
  rw [make_eq, make_eq, shape.added, List.set_append_left _ _ inside]

theorem clear_make (vs : Variables) (other : Bytes) : (vs.make other).clear = vs.clear := by
  rw [make_eq]
  rfl

end Variables

/-- The variable that an operand names is there. -/
def Operand.Known (vs : Variables) : Operand → Prop
  | .variable name => ∃ place, vs.find name = .ok place
  | _ => True

/-- The variables that an expression names are there. -/
def Expression.Known (vs : Variables) : Expression → Prop
  | .single operand => operand.Known vs
  | .binary left _ right => left.Known vs ∧ right.Known vs

namespace Operand

variable {vs ws : Variables} {o : Operand}

theorem Known.make (known : o.Known vs) (other : Bytes) : o.Known (vs.make other) := by
  match o with
  | .variable name =>
    obtain ⟨place, found⟩ := known
    exact ⟨place, Variables.find_make found other⟩
  | .literal l => trivial
  | .reading name => trivial

theorem Known.sameShape (known : o.Known vs) (same : vs.SameShape ws) : o.Known ws := by
  match o with
  | .variable name =>
    obtain ⟨place, found⟩ := known
    exact ⟨place, (same.find name).trans found⟩
  | .literal l => trivial
  | .reading name => trivial

/-- The value of an operand is not changed by variables that it does not name. -/
theorem value_make (known : o.Known vs) (readings : Readings) (other : Bytes) :
    o.value { vars := vs.make other, readings } = o.value { vars := vs, readings } := by
  match o with
  | .variable name =>
    obtain ⟨place, found⟩ := known
    have inside := Variables.lt_size_of_find found
    have same := Variables.get_make inside other
    rw [value, value, Variables.find_make found, found]
    exact same
  | .literal l => rfl
  | .reading name => rfl

/-- An operand that has a value does not name a variable that was just made. -/
theorem value_of_make {readings : Readings} {other : Bytes} {v : Value}
    (valued : o.value { vars := vs.make other, readings } = .ok v) :
    o.value { vars := vs, readings } = .ok v := by
  match o with
  | .variable name =>
    rw [value] at valued ⊢
    cases found : (vs.make other).find name with
    | error f =>
      rw [found] at valued
      cases valued
    | ok place =>
      rw [found] at valued
      have inside := Variables.lt_size_of_get_make valued
      rw [Variables.find_of_make found inside]
      exact (Variables.get_make inside other).symm.trans valued
  | .literal l => exact valued
  | .reading name => exact valued

end Operand

namespace Expression

variable {vs ws : Variables} {e : Expression}

theorem Known.make (known : e.Known vs) (other : Bytes) : e.Known (vs.make other) := by
  cases e with
  | single operand => exact Operand.Known.make known other
  | binary left operator right => exact ⟨known.1.make other, known.2.make other⟩

theorem Known.sameShape (known : e.Known vs) (same : vs.SameShape ws) : e.Known ws := by
  cases e with
  | single operand => exact Operand.Known.sameShape known same
  | binary left operator right => exact ⟨known.1.sameShape same, known.2.sameShape same⟩

theorem value_make (known : e.Known vs) (readings : Readings) (other : Bytes) :
    e.value { vars := vs.make other, readings } = e.value { vars := vs, readings } := by
  cases e with
  | single operand => exact Operand.value_make known readings other
  | binary left operator right =>
    rw [value, value, Operand.value_make known.1, Operand.value_make known.2]

theorem value_of_make {readings : Readings} {other : Bytes} {v : Value}
    (valued : e.value { vars := vs.make other, readings } = .ok v) :
    e.value { vars := vs, readings } = .ok v := by
  cases e with
  | single operand => exact Operand.value_of_make valued
  | binary left operator right =>
    rw [value] at valued ⊢
    cases first : left.value { vars := vs.make other, readings } with
    | error f =>
      rw [first] at valued
      cases valued
    | ok a =>
      cases second : right.value { vars := vs.make other, readings } with
      | error f =>
        rw [first, second] at valued
        cases valued
      | ok b =>
        rw [first, second] at valued
        rw [Operand.value_of_make first, Operand.value_of_make second]
        exact valued

end Expression

namespace Instruction

variable {vs ws : Variables} {i : Instruction} {readings : Readings} {name : Bytes}

/-- What an instruction does to the variables, and what it writes, wherever it stands. -/
def effect (readings : Readings) (i : Instruction) : Attempt Variables (List Output) := fun vs =>
  match i with
  | .setVariable name value =>
    match value.value { vars := vs, readings } with
    | .error f => .error f vs
    | .ok v =>
      match Variables.findOrCreate name vs with
      | .error f vs => .error f vs
      | .ok place vs =>
        match Variables.set place.1 v vs with
        | .error f vs => .error f vs
        | .ok _ vs => .ok [] vs
  | .clearVariables => .ok [] vs.clear
  | .writeText content => .ok [.text (Utf8.decode content)] vs
  | .writeValue value =>
    match value.value { vars := vs, readings } with
    | .error f => .error f vs
    | .ok v => .ok [.value v] vs
  | .writeLine => .ok [.lineBreak] vs
  | _ => .ok [] vs

/-- The variables that an instruction names are there. -/
def Known (vs : Variables) : Instruction → Prop
  | .setVariable name value => (∃ place, vs.find name = .ok place) ∧ value.Known vs
  | .writeValue value => value.Known vs
  | _ => True

theorem Known.make (known : i.Known vs) (other : Bytes) : i.Known (vs.make other) := by
  cases i with
  | setVariable name value =>
    obtain ⟨⟨place, found⟩, valued⟩ := known
    exact ⟨⟨place, Variables.find_make found other⟩, valued.make other⟩
  | writeValue value => exact Expression.Known.make known other
  | _ => trivial

theorem Known.sameShape (known : i.Known vs) (same : vs.SameShape ws) : i.Known ws := by
  cases i with
  | setVariable name value =>
    obtain ⟨⟨place, found⟩, valued⟩ := known
    exact ⟨⟨place, (same.find name).trans found⟩, valued.sameShape same⟩
  | writeValue value => exact Expression.Known.sameShape known same
  | _ => trivial

/-- Only clearing the variables takes a variable away or adds one that is known. -/
theorem sameShape_effect (known : i.Known vs) (noClear : i ≠ .clearVariables) (readings : Readings) :
    vs.SameShape (reached (i.effect readings vs)) := by
  have same : vs.SameShape vs := ⟨rfl, rfl, rfl⟩
  cases i with
  | setVariable name value =>
    obtain ⟨⟨place, found⟩, -⟩ := known
    simp only [effect]
    cases value.value { vars := vs, readings } with
    | error f => exact same
    | ok v =>
      have set := Variables.sameShape_set vs place.1 v
      simp only [Variables.findOrCreate_of_find found]
      cases done : Variables.set place.1 v vs <;> simpa [done] using set
  | writeValue value =>
    simp only [effect]
    cases value.value { vars := vs, readings } <;> exact same
  | clearVariables => contradiction
  | _ => exact same

/-- A variable that is made early makes no difference to an instruction that does not name it. -/
theorem effect_make (known : i.Known vs) (noClear : i ≠ .clearVariables) (readings : Readings)
    (other : Bytes) :
    i.effect readings (vs.make other) = carry (·.make other) (i.effect readings vs) := by
  cases i with
  | setVariable name value =>
    obtain ⟨⟨place, found⟩, valued⟩ := known
    simp only [effect, Expression.value_make valued]
    cases value.value { vars := vs, readings } with
    | error f => rfl
    | ok v =>
      have inside := Variables.lt_size_of_find found
      simp only [Variables.findOrCreate_of_find found,
        Variables.findOrCreate_of_find (Variables.find_make found other),
        Variables.set_make inside]
      cases Variables.set place.1 v vs <;> rfl
  | writeValue value =>
    simp only [effect, Expression.value_make known]
    cases value.value { vars := vs, readings } <;> rfl
  | clearVariables => contradiction
  | _ => rfl

/-- An assignment that succeeds makes its variable itself if need be. -/
theorem effect_of_make {value : Expression} {outputs : List Output} {after : Variables}
    (done : (setVariable name value).effect readings (vs.make name) = .ok outputs after) :
    (setVariable name value).effect readings vs = .ok outputs after := by
  simp only [effect] at done ⊢
  cases valued : value.value { vars := vs.make name, readings } with
  | error f =>
    rw [valued] at done
    cases done
  | ok v =>
    rw [valued] at done
    rw [Expression.value_of_make valued]
    dsimp only at done ⊢
    cases made : Variables.findOrCreate name vs with
    | error f ws =>
      -- Nothing was made ahead of time either.
      obtain rfl := Machine.eq_of_findOrCreate_error made
      rw [Variables.make, made, reached_error, made] at done
      exact done
    | ok place ws =>
      rw [Variables.make, made, reached_ok,
        Variables.findOrCreate_of_find (Variables.find_made made)] at done
      exact done

end Instruction

namespace Action

/-- The variables before the statements for an action are executed: that of an assignment is made
when it is compiled. -/
def make (vs : Variables) : Action → Variables
  | .assign name _ => vs.make name
  | _ => vs

/-- The variables when some actions have been compiled. -/
def makeAll (vs : Variables) (actions : List Action) : Variables := actions.foldl make vs

/-- Only one action clears the variables. -/
theorem eq_clear_of_mem_code {a : Action} (clears : .clearVariables ∈ a.code) : a = .clear := by
  match a with
  | .clear => rfl
  | .assign _ _ | .delay _ | .wait _ | .raw _ | .print (.text _) | .print (.value _)
  | .println none | .println (some (.text _)) | .println (some (.value _)) =>
    simp [code, Printed.instruction] at clears

theorem clear_makeAll (vs : Variables) (actions : List Action) :
    (makeAll vs actions).clear = vs.clear := by
  induction actions generalizing vs with
  | nil => rfl
  | cons a actions ih =>
    refine (ih (a.make vs)).trans ?_
    cases a with
    | assign name value => exact vs.clear_make name
    | _ => rfl

end Action

end ControlScript
