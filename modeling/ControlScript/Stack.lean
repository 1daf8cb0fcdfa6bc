import ControlScript.Attempt

/-!
# Bounded stacks

A stack that refuses to grow past its limit and says so in words of its own.
-/

namespace ControlScript

/-- A stack of at most `limit` items. -/
structure Stack (α : Type) where
  /-- The greatest number of items. -/
  limit : Nat
  /-- The remark on a push past the limit. -/
  note : String
  /-- The items, the top first. -/
  items : List α := []
deriving DecidableEq, Repr

namespace Stack

variable {α : Type}

/-- The number of items. -/
def depth (s : Stack α) : Nat := s.items.length

/-- The top, if there is one. -/
def top? (s : Stack α) : Option α := s.items.head?

/-- The stack without items. -/
def clear (s : Stack α) : Stack α := { s with items := [] }

/-- Puts an item on top. -/
def push (a : α) : Attempt (Stack α) Unit := fun s =>
  if s.depth < s.limit then .ok () { s with items := a :: s.items }
  else .error (.noted .nestingTooDeep s.note) s

/-- Removes the top. -/
def pop : Attempt (Stack α) α := fun s =>
  match s.items with
  | [] => .error (.noted .syntaxError "UNDERFLOW") s
  | a :: rest => .ok a { s with items := rest }

/-- A stack within its limit stays within it. -/
theorem depth_le_limit_push {s : Stack α} (within : s.depth ≤ s.limit) (a : α) :
    (Attempt.reached (push a s)).depth ≤ s.limit := by
  unfold push
  split
  · next room => exact room
  · exact within

/-- What was pushed is popped. -/
theorem pop_push {s t : Stack α} {a : α} (pushed : push a s = .ok () t) : pop t = .ok a s := by
  unfold push at pushed
  split at pushed
  · cases pushed; rfl
  · cases pushed

end Stack

end ControlScript
