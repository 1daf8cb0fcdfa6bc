import ControlScript.Fault

/-!
# Attempts

What compiles a line, reads an operand or writes to a store may stop with a fault, and what
it has done until then is not undone: the rest of a line is not read, but a variable that
the line has made stays. An attempt is a computation of this kind. Its result tells the
state that was reached in either case.

## Main definitions

* `Attempt` — a computation that may stop with a fault and keeps its state
* `Attempt.fail`, `Attempt.failNoting` — stopping
* `Attempt.on` — a computation on a part of a larger state
* `Attempt.reached`, `Attempt.fault?` — the two sides of a result

The equations at the end say what the parts of a `do` block do to a state.
-/

namespace ControlScript

/-- A computation on a state that may stop with a fault. The state it has reached is kept
in either case. -/
abbrev Attempt (σ : Type) := EStateM Fault σ

namespace Attempt

variable {σ τ α β : Type}

/-- Stops for a cause. -/
def fail (cause : Cause) : Attempt σ α := throw (.of cause)

/-- Stops for a cause, with a remark. -/
def failNoting (cause : Cause) (note : String) : Attempt σ α := throw (.noted cause note)

/-- A result that depends on no state. -/
def ofExcept : Except Fault α → Attempt σ α
  | .ok a => pure a
  | .error f => throw f

/-- A computation on the part of a larger state that `part` shows and `replace` renews. -/
def on (part : τ → σ) (replace : τ → σ → τ) (x : Attempt σ α) : Attempt τ α := fun t =>
  match x (part t) with
  | .ok a s => .ok a (replace t s)
  | .error f s => .error f (replace t s)

/-- The state that a computation has reached. -/
def reached : EStateM.Result Fault σ α → σ
  | .ok _ s => s
  | .error _ s => s

/-- The fault that a computation stopped with. -/
def fault? : EStateM.Result Fault σ α → Option Fault
  | .ok _ _ => none
  | .error f _ => some f

@[simp] theorem pure_apply (a : α) (s : σ) : (pure a : Attempt σ α) s = .ok a s := rfl

@[simp] theorem throw_apply (f : Fault) (s : σ) : (throw f : Attempt σ α) s = .error f s := rfl

@[simp] theorem fail_apply (cause : Cause) (s : σ) :
    (fail cause : Attempt σ α) s = .error (.of cause) s := rfl

@[simp] theorem failNoting_apply (cause : Cause) (note : String) (s : σ) :
    (failNoting cause note : Attempt σ α) s = .error (.noted cause note) s := rfl

@[simp] theorem get_apply (s : σ) : (get : Attempt σ σ) s = .ok s s := rfl

@[simp] theorem set_apply (new s : σ) : (set new : Attempt σ PUnit) s = .ok ⟨⟩ new := rfl

@[simp] theorem modify_apply (f : σ → σ) (s : σ) :
    (modify f : Attempt σ PUnit) s = .ok ⟨⟩ (f s) := rfl

/-- A sequence goes on from the state that its first part has reached. -/
theorem bind_apply (x : Attempt σ α) (f : α → Attempt σ β) (s : σ) :
    (x >>= f) s = match x s with
      | .ok a t => f a t
      | .error e t => .error e t := by
  change EStateM.bind x f s = _
  unfold EStateM.bind
  cases x s <;> rfl

/-- A function of a result leaves the state as it was reached. -/
theorem map_apply (f : α → β) (x : Attempt σ α) (s : σ) :
    (f <$> x) s = match x s with
      | .ok a t => .ok (f a) t
      | .error e t => .error e t := by
  change EStateM.map f x s = _
  unfold EStateM.map
  cases x s <;> rfl

@[simp] theorem ofExcept_ok (a : α) : (ofExcept (.ok a) : Attempt σ α) = pure a := rfl

@[simp] theorem ofExcept_error (f : Fault) : (ofExcept (.error f) : Attempt σ α) = throw f := rfl

@[simp] theorem reached_ok (a : α) (s : σ) :
    reached (.ok a s : EStateM.Result Fault σ α) = s := rfl

@[simp] theorem reached_error (f : Fault) (s : σ) :
    reached (.error f s : EStateM.Result Fault σ α) = s := rfl

end Attempt

end ControlScript
