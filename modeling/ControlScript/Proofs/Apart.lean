import ControlScript.Proofs.Changes

/-!
# The compiler stands apart

Whatever statements do, and whatever comes in as bytes, the compiler of a machine stays as it is.
Only lines of script change it.

## Main definitions

* `Machine.renewed` — a machine with another compiler and other variables

## Main results

* `Machine.compiler_tick`, `Machine.compiler_receiveAll` — ticks and bytes leave the compiler alone
* `Machine.compiler_enter` — the compiler after a line of script
-/

namespace ControlScript

namespace Machine

variable {m : Machine}

theorem allowsAll_compiler : AllowsAll fun m n => n.compiler = m.compiler where
  refl _ := rfl
  trans first second := second.trans first
  vars _ _ _ := rfl
  outbox _ _ := rfl
  diagnostics _ _ := rfl
  program _ _ := rfl
  position _ _ _ := rfl
  coin _ _ := rfl
  line _ _ _ := rfl
  stored _ _ _ _ := rfl

/-- A tick leaves the compiler alone. -/
@[simp] theorem compiler_tick (m : Machine) : m.tick.compiler = m.compiler :=
  allowsAll_compiler.tick (allowsAll_compiler.delay fun _ _ => rfl) m

/-- Bytes that come in leave the compiler alone. -/
@[simp] theorem compiler_receiveAll (m : Machine) (bytes : Bytes) (dest : Destination) :
    (m.receiveAll bytes dest).compiler = m.compiler := allowsAll_compiler.receiveAll m bytes dest

/-- The machine with another compiler and other variables. -/
def renewed (m : Machine) (compiler : Compiler) (vars : Variables) : Machine :=
  { m with compiler, vars }

/-- A line of script is compiled, and what it is compiled to comes in. -/
theorem enter_eq {text : String} {compiled : Compilation}
    (compiles : m.compiler.compileLine m.vars m.readings text = compiled) :
    m.enter text = ((m.renewed compiled.compiler compiled.vars).receiveAll
      (Instruction.encode compiled.emitted) console, compiled.fault) := by
  rw [← compiles]
  rfl

/-- The compiler after a line of script. -/
theorem compiler_enter (m : Machine) (text : String) :
    (m.enter text).1.compiler = (m.compiler.compileLine m.vars m.readings text).compiler :=
  compiler_receiveAll _ _ _

end Machine

end ControlScript
