import ControlScript.Scan

/-!
# Successful attempts

Most statements about attempts do not care for the fault that one of them stops with. They
look at the success of an attempt alone, and there the parts of a `do` block are the parts
of a chain of partial functions.

For the reading of statements both sides matter. A scan is said to give a result on a text
when it either returns the value of the result and leaves a known rest, or stops with its
fault and leaves whatever it likes.

## Main definitions

* `Attempt.success?` — the result and the state of an attempt that succeeds
* `Attempt.outcome` — the result or the fault of an attempt, without the state
* `Scan.Gives` — a scan gives a result and leaves a rest

## Main results

* `Attempt.success?_bind` — the success of a sequence is that of its parts
* `Scan.Gives.bind` — results are passed on along a sequence of scans
-/

namespace ControlScript

namespace Attempt

variable {σ τ α β : Type}

/-- The result of an attempt and the state that it has reached, if it succeeds. -/
def success? : EStateM.Result Fault σ α → Option (α × σ)
  | .ok a s => some (a, s)
  | .error _ _ => none

/-- What a computation gives, apart from the state it has reached. -/
def outcome : EStateM.Result Fault σ α → Except Fault α
  | .ok a _ => .ok a
  | .error f _ => .error f

/-- Two computations that give the same either both succeed or both stop with the same fault. -/
theorem cases_of_outcome {r : EStateM.Result Fault σ α} {r' : EStateM.Result Fault τ α}
    (same : outcome r = outcome r') :
    (∃ a s t, r = .ok a s ∧ r' = .ok a t) ∨ ∃ f s t, r = .error f s ∧ r' = .error f t := by
  cases r with
  | ok a s =>
    cases r' with
    | ok b t =>
      cases same
      exact .inl ⟨a, s, t, rfl, rfl⟩
    | error f t => cases same
  | error f s =>
    cases r' with
    | ok b t => cases same
    | error g t =>
      cases same
      exact .inr ⟨f, s, t, rfl, rfl⟩

@[simp] theorem success?_ok (a : α) (s : σ) :
    success? (.ok a s : EStateM.Result Fault σ α) = some (a, s) := rfl

@[simp] theorem success?_error (f : Fault) (s : σ) :
    success? (.error f s : EStateM.Result Fault σ α) = none := rfl

theorem success?_eq_some_iff {r : EStateM.Result Fault σ α} {a : α} {s : σ} :
    success? r = some (a, s) ↔ r = .ok a s := by
  cases r <;> simp [success?]

/-- The success of a sequence is that of its parts. -/
theorem success?_bind (x : Attempt σ α) (f : α → Attempt σ β) (s : σ) :
    success? ((x >>= f) s) = (success? (x s)).bind fun (a, t) => success? (f a t) := by
  rw [bind_apply]
  cases x s <;> rfl

theorem success?_map (f : α → β) (x : Attempt σ α) (s : σ) :
    success? ((f <$> x) s) = (success? (x s)).map fun (a, t) => (f a, t) := by
  rw [map_apply]
  cases x s <;> rfl

theorem success?_on (part : τ → σ) (replace : τ → σ → τ) (x : Attempt σ α) (t : τ) :
    success? (x.on part replace t) =
      (success? (x (part t))).map fun (a, s) => (a, replace t s) := by
  unfold on
  cases x (part t) <;> rfl

end Attempt

namespace Scan

variable {α β : Type}

/-- On `text`, a scan returns the value of `result` and leaves `rest`, or it stops with the
fault of `result`. -/
def Gives (x : Scan α) (text : Bytes) (result : Except Fault α) (rest : Bytes) : Prop :=
  match result with
  | .ok a => x text = .ok a rest
  | .error f => ∃ left, x text = .error f left

theorem Gives.of_eq {x : Scan α} {text rest : Bytes} {a : α} (equal : x text = .ok a rest) :
    x.Gives text (.ok a) rest := equal

/-- What a scan is said to give is its outcome. -/
theorem Gives.outcome {x : Scan α} {text rest : Bytes} {result : Except Fault α}
    (gives : x.Gives text result rest) : Attempt.outcome (x text) = result := by
  cases result with
  | ok a => rw [show x text = .ok a rest from gives]; rfl
  | error f =>
    obtain ⟨left, stopped⟩ := gives
    rw [stopped]
    rfl

theorem gives_ofExcept (result : Except Fault α) (rest : Bytes) :
    Gives (Attempt.ofExcept result) rest result rest := by
  cases result with
  | ok a => rfl
  | error f => exact ⟨rest, rfl⟩

/-- Results are passed on along a sequence of scans. -/
theorem Gives.bind {x : Scan α} {next : α → Scan β} {text middle rest : Bytes}
    {result : Except Fault α} {later : α → Except Fault β} (first : x.Gives text result middle)
    (second : ∀ a, result = .ok a → (next a).Gives middle (later a) rest) :
    (x >>= next).Gives text (result >>= later) rest := by
  cases result with
  | error f =>
    obtain ⟨left, stopped⟩ := first
    exact ⟨left, by rw [Attempt.bind_apply, stopped]⟩
  | ok a =>
    have passed : (x >>= next) text = next a middle := by
      rw [Attempt.bind_apply, show x text = .ok a middle from first]
    have given := second a rfl
    unfold Gives at given ⊢
    change match later a with
      | .ok b => (x >>= next) text = .ok b rest
      | .error f => ∃ left, (x >>= next) text = .error f left
    rw [passed]
    exact given

/-- A scan that goes before a sequence and does not fail. -/
theorem Gives.bind_ok {x : Scan α} {next : α → Scan β} {text middle rest : Bytes} {a : α}
    {result : Except Fault β} (first : x text = .ok a middle)
    (second : (next a).Gives middle result rest) : (x >>= next).Gives text result rest := by
  have passed : (x >>= next) text = next a middle := by rw [Attempt.bind_apply, first]
  unfold Gives at second ⊢
  rw [passed]
  exact second

end Scan

end ControlScript
