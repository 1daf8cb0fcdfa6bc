import ControlScript.Proofs.Scripts

/-!
# The labels of a script

The code for a script declares no label twice, and it declares every label that it jumps to, but
for the two labels of the loop that the script stands in.

## Main definitions

* `Instruction.declared`, `Instruction.targets` — the labels that instructions declare, and those
  that they jump to
* `Script.Placed` — a script that leaves and repeats loops only where there is one

## Main results

* `Script.nodup_declared` — no label is declared twice
* `Script.mem_declared_of_mem_targets` — what is jumped to is declared
-/

namespace ControlScript

namespace Instruction

/-- The label that an instruction declares. -/
def declared? : Instruction → Option Nat
  | .declare label => some label
  | _ => none

/-- The label that an instruction may jump to. -/
def target? : Instruction → Option Nat
  | .jump label | .jumpUnless _ label => some label
  | _ => none

/-- The labels that instructions declare. -/
def declared (code : List Instruction) : List Nat := code.filterMap declared?

/-- The labels that instructions may jump to. -/
def targets (code : List Instruction) : List Nat := code.filterMap target?

@[simp] theorem declared_nil : declared [] = [] := rfl

@[simp] theorem targets_nil : targets [] = [] := rfl

@[simp] theorem declared_append (a b : List Instruction) :
    declared (a ++ b) = declared a ++ declared b := List.filterMap_append

@[simp] theorem targets_append (a b : List Instruction) :
    targets (a ++ b) = targets a ++ targets b := List.filterMap_append

@[simp] theorem declared_declare (label : Nat) (code : List Instruction) :
    declared (.declare label :: code) = label :: declared code := rfl

@[simp] theorem declared_jump (label : Nat) (code : List Instruction) :
    declared (.jump label :: code) = declared code := rfl

@[simp] theorem declared_jumpUnless (holds : Condition) (label : Nat) (code : List Instruction) :
    declared (.jumpUnless holds label :: code) = declared code := rfl

@[simp] theorem targets_declare (label : Nat) (code : List Instruction) :
    targets (.declare label :: code) = targets code := rfl

@[simp] theorem targets_jump (label : Nat) (code : List Instruction) :
    targets (.jump label :: code) = label :: targets code := rfl

@[simp] theorem targets_jumpUnless (holds : Condition) (label : Nat) (code : List Instruction) :
    targets (.jumpUnless holds label :: code) = label :: targets code := rfl

/-- A label is declared by an instruction for it. -/
theorem exists_split_of_mem_declared {code : List Instruction} {label : Nat}
    (member : label ∈ declared code) :
    ∃ before after, code = before ++ .declare label :: after := by
  obtain ⟨i, inCode, declares⟩ := List.mem_filterMap.mp member
  have isDeclaration : i = .declare label := by
    cases i <;> cases declares
    rfl
  exact List.append_of_mem (isDeclaration ▸ inCode)

end Instruction

@[simp] theorem Action.declared_code (a : Action) : Instruction.declared a.code = [] := by
  cases a with
  | print what => cases what <;> rfl
  | println what =>
    cases what with
    | none => rfl
    | some what => cases what <;> rfl
  | _ => rfl

@[simp] theorem Action.targets_code (a : Action) : Instruction.targets a.code = [] := by
  cases a with
  | print what => cases what <;> rfl
  | println what =>
    cases what with
    | none => rfl
    | some what => cases what <;> rfl
  | _ => rfl

namespace Script

open Instruction

/-- Loops are left and repeated only inside of loops. -/
def Placed (inLoop : Bool) : Script → Prop
  | done => True
  | action _ rest => rest.Placed inLoop
  | breakLoop rest | continueLoop rest => inLoop = true ∧ rest.Placed inLoop
  | ifThen _ body rest => body.Placed inLoop ∧ rest.Placed inLoop
  | ifElse _ body other rest => body.Placed inLoop ∧ other.Placed inLoop ∧ rest.Placed inLoop
  | whileLoop _ body rest | foreverLoop body rest | doUntil body _ rest =>
    body.Placed true ∧ rest.Placed inLoop

/-- The labels that a script declares are among those set apart for it. -/
theorem bounds_of_mem_declared {s : Script} {next top label : Nat}
    (member : label ∈ declared (s.code next top)) : next ≤ label ∧ label < next + s.labels := by
  induction s generalizing next top with
  | done => simp [code] at member
  | action a rest ih =>
    exact ih (by simpa [code] using member)
  | breakLoop rest ih | continueLoop rest ih => exact ih (by simpa [code] using member)
  | ifThen holds body rest ih ih' =>
    simp only [code, declared_jumpUnless, declared_append, declared_declare, List.mem_append,
      List.mem_cons] at member
    simp only [labels]
    rcases member with inBody | rfl | inRest
    · have := ih inBody; omega
    · omega
    · have := ih' inRest; omega
  | ifElse holds body other rest ih ih' ih'' =>
    simp only [code, declared_jumpUnless, declared_jump, declared_append, declared_declare,
      List.mem_append, List.mem_cons] at member
    simp only [labels]
    rcases member with inBody | rfl | inOther | rfl | inRest
    · have := ih inBody; omega
    · omega
    · have := ih' inOther; omega
    · omega
    · have := ih'' inRest; omega
  | whileLoop holds body rest ih ih' | foreverLoop body rest ih ih'
  | doUntil body holds rest ih ih' =>
    simp only [code, declared_jumpUnless, declared_jump, declared_append, declared_declare,
      List.mem_append, List.mem_cons] at member
    simp only [labels]
    rcases member with rfl | inBody | rfl | inRest
    · omega
    · have := ih inBody; omega
    · omega
    · have := ih' inRest; omega

/-- A script declares no label twice. -/
theorem nodup_declared (s : Script) (next top : Nat) : (declared (s.code next top)).Nodup := by
  -- The parts of a script take their labels from ranges that do not meet.
  induction s generalizing next top with
  | done => exact List.nodup_nil
  | action a rest ih => simpa [code] using ih next top
  | breakLoop rest ih | continueLoop rest ih => exact ih next top
  | ifThen holds body rest ih ih' =>
    simp only [code, declared_jumpUnless, declared_append, declared_declare, List.nodup_append,
      List.nodup_cons, List.mem_cons]
    refine ⟨ih _ _, ⟨fun member => ?_, ih' _ _⟩, fun a inBody b inRest => ?_⟩
    · have := bounds_of_mem_declared member; omega
    · have := bounds_of_mem_declared inBody
      rcases inRest with rfl | inRest
      · omega
      · have := bounds_of_mem_declared inRest; omega
  | ifElse holds body other rest ih ih' ih'' =>
    simp only [code, declared_jumpUnless, declared_jump, declared_append, declared_declare,
      List.nodup_append, List.nodup_cons, List.mem_append, List.mem_cons]
    refine ⟨ih _ _, ⟨?_, ih' _ _, ⟨fun member => ?_, ih'' _ _⟩, fun a inOther b later => ?_⟩,
      fun a inBody b later => ?_⟩
    · rintro (inOther | same | inRest)
      · have := bounds_of_mem_declared inOther; omega
      · omega
      · have := bounds_of_mem_declared inRest; omega
    · have := bounds_of_mem_declared member; omega
    · have := bounds_of_mem_declared inOther
      rcases later with rfl | inRest
      · omega
      · have := bounds_of_mem_declared inRest; omega
    · have := bounds_of_mem_declared inBody
      rcases later with rfl | inOther | rfl | inRest
      · omega
      · have := bounds_of_mem_declared inOther; omega
      · omega
      · have := bounds_of_mem_declared inRest; omega
  | whileLoop holds body rest ih ih' | foreverLoop body rest ih ih'
  | doUntil body holds rest ih ih' =>
    simp only [code, declared_jumpUnless, declared_jump, declared_append, declared_declare,
      List.nodup_append, List.nodup_cons, List.mem_append, List.mem_cons]
    refine ⟨?_, ih _ _, ⟨fun member => ?_, ih' _ _⟩, fun a inBody b later => ?_⟩
    · rintro (inBody | same | inRest)
      · have := bounds_of_mem_declared inBody; omega
      · omega
      · have := bounds_of_mem_declared inRest; omega
    · have := bounds_of_mem_declared member; omega
    · have := bounds_of_mem_declared inBody
      rcases later with rfl | inRest
      · omega
      · have := bounds_of_mem_declared inRest; omega

/-- What the body of a loop jumps to outside of it are the labels of the loop, which are declared
before and behind the body. -/
theorem declared_with_loop {inBody inRest : Prop} {top label : Nat}
    (inside : inBody ∨ true = true ∧ (label = top ∨ label = top + 1)) :
    label = top ∨ inBody ∨ label = top + 1 ∨ inRest := by
  rcases inside with found | ⟨-, start | exit⟩
  · exact .inr (.inl found)
  · exact .inl start
  · exact .inr (.inr (.inl exit))

/-- What a script jumps to is declared in it, or it is a label of the loop around it. -/
theorem mem_declared_of_mem_targets {s : Script} {inLoop : Bool} (placed : s.Placed inLoop)
    {next top label : Nat} (member : label ∈ targets (s.code next top)) :
    label ∈ declared (s.code next top) ∨ inLoop = true ∧ (label = top ∨ label = top + 1) := by
  induction s generalizing next top inLoop with
  | done => simp [code] at member
  | action a rest ih => simpa [code] using ih placed (by simpa [code] using member)
  | breakLoop rest ih =>
    simp only [code, targets_jump, List.mem_cons] at member
    rcases member with rfl | inRest
    · exact .inr ⟨placed.1, .inr rfl⟩
    · exact ih placed.2 inRest
  | continueLoop rest ih =>
    simp only [code, targets_jump, List.mem_cons] at member
    rcases member with rfl | inRest
    · exact .inr ⟨placed.1, .inl rfl⟩
    · exact ih placed.2 inRest
  | ifThen holds body rest ih ih' =>
    simp only [code, targets_jumpUnless, targets_append, targets_declare, List.mem_append,
      List.mem_cons, declared_jumpUnless, declared_append, declared_declare] at member ⊢
    rcases member with rfl | inBody | inRest
    · exact .inl (.inr (.inl rfl))
    · exact (ih placed.1 inBody).imp_left .inl
    · exact (ih' placed.2 inRest).imp_left fun found => .inr (.inr found)
  | ifElse holds body other rest ih ih' ih'' =>
    simp only [code, targets_jumpUnless, targets_jump, targets_append, targets_declare,
      List.mem_append, List.mem_cons, declared_jumpUnless, declared_jump, declared_append,
      declared_declare] at member ⊢
    rcases member with rfl | inBody | rfl | inOther | inRest
    · exact .inl (.inr (.inl rfl))
    · exact (ih placed.1 inBody).imp_left .inl
    · exact .inl (.inr (.inr (.inr (.inl rfl))))
    · exact (ih' placed.2.1 inOther).imp_left fun found => .inr (.inr (.inl found))
    · exact (ih'' placed.2.2 inRest).imp_left fun found => .inr (.inr (.inr (.inr found)))
  | whileLoop holds body rest ih ih' =>
    simp only [code, targets_jumpUnless, targets_jump, targets_append, targets_declare,
      List.mem_append, List.mem_cons, declared_jumpUnless, declared_jump, declared_append,
      declared_declare] at member ⊢
    rcases member with rfl | inBody | rfl | inRest
    · exact .inl (.inr (.inr (.inl rfl)))
    · exact .inl (declared_with_loop (ih placed.1 inBody))
    · exact .inl (.inl rfl)
    · exact (ih' placed.2 inRest).imp_left fun found => .inr (.inr (.inr found))
  | foreverLoop body rest ih ih' =>
    simp only [code, targets_jump, targets_append, targets_declare, List.mem_append,
      List.mem_cons, declared_jump, declared_append, declared_declare] at member ⊢
    rcases member with inBody | rfl | inRest
    · exact .inl (declared_with_loop (ih placed.1 inBody))
    · exact .inl (.inl rfl)
    · exact (ih' placed.2 inRest).imp_left fun found => .inr (.inr (.inr found))
  | doUntil body holds rest ih ih' =>
    simp only [code, targets_jumpUnless, targets_append, targets_declare, List.mem_append,
      List.mem_cons, declared_jumpUnless, declared_append, declared_declare] at member ⊢
    rcases member with inBody | rfl | inRest
    · exact .inl (declared_with_loop (ih placed.1 inBody))
    · exact .inl (.inl rfl)
    · exact (ih' placed.2 inRest).imp_left fun found => .inr (.inr (.inr found))

end Script

/-- Lines put the words that leave and repeat a loop only into loops. -/
theorem Forms.placed {limit depth indent : Nat} {inLoop : Bool} {lines : List Line}
    {script : Script} (formed : Forms limit depth inLoop indent lines script) :
    script.Placed inLoop := by
  induction formed with
  | done => trivial
  | action _ _ ih => exact ih
  | breakLoop _ ih | continueLoop _ ih => exact ⟨rfl, ih⟩
  | ifThen _ _ _ _ _ _ ih ih' | whileLoop _ _ _ _ _ _ ih ih' | foreverLoop _ _ _ _ _ _ ih ih'
  | doForever _ _ _ _ _ _ ih ih' | doUntil _ _ _ _ _ ih ih' => exact ⟨ih, ih'⟩
  | ifElse _ _ _ _ _ _ _ _ _ ih ih' ih'' => exact ⟨ih, ih', ih''⟩

end ControlScript
