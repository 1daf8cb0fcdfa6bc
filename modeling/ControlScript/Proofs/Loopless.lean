import ControlScript.Proofs.Closed
import ControlScript.Proofs.Logged

/-!
# Programs without loops

A text that opens no loop, does not wait and gives no statement by hand forms a script without
loops. The code for such a script runs down: an instruction goes on at the next one, or at a label
that is declared further down.

## Main definitions

* `Line.IsPrompt` — a line that opens no loop, does not wait and is not raw
* `Script.IsLoopless` — a script that consists of straight actions and of conditionals
* `Instruction.RunsDown` — instructions that jump to what comes after them only

## Main results

* `Script.runsDown_code` — the code for a script without loops runs down
* `Forms.isLoopless` — prompt lines form a script without loops
-/

namespace ControlScript

/-- Whether a line with the keyword neither opens a loop nor waits. -/
def Keyword.isPrompt : Keyword → Bool
  | .doLoop | .whileLoop | .forever | .delay | .wait => false
  | _ => true

/-- A line that opens no loop, does not wait and is not raw. -/
def Line.IsPrompt (text : String) : Prop :=
  rawStatement? text = none ∧ (Keyword.ofText? text).all Keyword.isPrompt = true

instance (text : String) : Decidable (Line.IsPrompt text) := inferInstanceAs (Decidable (_ ∧ _))

/-- What such a line says. -/
def Sentence.IsPrompt : Sentence → Prop
  | .action a => a.IsStraight
  | .doLoop | .whileLoop _ | .forever => False
  | _ => True

/-- A sentence is as prompt as its keyword. -/
theorem Sentence.isPrompt_of_mem_keywords {s : Sentence} {k : Option Keyword}
    (member : k ∈ s.keywords) (prompt : k.all Keyword.isPrompt = true) : s.IsPrompt := by
  cases s with
  | action a =>
    cases a with
    | delay | wait =>
      cases List.mem_singleton.mp member
      cases prompt
    | raw => cases member
    | _ => trivial
  | whileLoop | forever | doLoop =>
    cases List.mem_singleton.mp member
    cases prompt
  | _ => trivial

/-- A prompt line says a prompt sentence. -/
theorem Line.IsPrompt.sentence {text : String} {l : Line} {limit : Nat} {scope : Scope}
    {vars : Variables} (prompt : Line.IsPrompt text)
    (read : Line.read? limit scope text = some (some l, vars)) : l.sentence.IsPrompt := by
  obtain ⟨p, q, -, -, said⟩ := Line.exists_of_read? prompt.1 read
  exact Sentence.isPrompt_of_mem_keywords (Parse.mem_keywords_of_sentence said) prompt.2

/-- A script that consists of straight actions and of conditionals. -/
def Script.IsLoopless : Script → Prop
  | done => True
  | action a rest => a.IsStraight ∧ rest.IsLoopless
  | ifThen _ body rest => body.IsLoopless ∧ rest.IsLoopless
  | ifElse _ body other rest => body.IsLoopless ∧ other.IsLoopless ∧ rest.IsLoopless
  | breakLoop _ | continueLoop _ | whileLoop _ _ _ | foreverLoop _ _ | doUntil _ _ _ => False

/-- Prompt lines form a script without loops. They do not leave or repeat a loop either, where there
is none around them. -/
theorem Forms.isLoopless {limit depth indent : Nat} {inLoop : Bool} {lines : List Line}
    {script : Script} (formed : Forms limit depth inLoop indent lines script)
    (outside : inLoop = false) (prompt : ∀ l ∈ lines, l.sentence.IsPrompt) :
    script.IsLoopless := by
  induction formed with
  | done => trivial
  | action _ _ ih =>
    simp only [List.forall_mem_cons] at prompt
    exact ⟨prompt.1, ih outside prompt.2⟩
  | breakLoop | continueLoop => cases outside
  | ifThen _ _ _ _ _ _ ih ih' =>
    simp only [List.forall_mem_cons, List.forall_mem_append] at prompt
    obtain ⟨-, inBody, -, later⟩ := prompt
    exact ⟨ih outside inBody, ih' outside later⟩
  | ifElse _ _ _ _ _ _ _ _ _ ih ih' ih'' =>
    simp only [List.forall_mem_cons, List.forall_mem_append] at prompt
    obtain ⟨-, inBody, -, inOther, -, later⟩ := prompt
    exact ⟨ih outside inBody, ih' outside inOther, ih'' outside later⟩
  | whileLoop | foreverLoop | doForever | doUntil => exact (prompt _ List.mem_cons_self).elim

namespace Instruction

/-- An instruction that neither waits nor manages a program. -/
def IsPrompt : Instruction → Prop
  | .declare _ | .jump _ | .jumpUnless _ _ => True
  | i => i.IsStraight

/-- Instructions that go on at the next one or further down: what one of them may jump to is
declared after it. -/
def RunsDown : List Instruction → Prop
  | [] => True
  | i :: rest => i.IsPrompt ∧ (∀ label ∈ i.target?, label ∈ declared rest) ∧ RunsDown rest

namespace RunsDown

variable {a b : List Instruction}

theorem append (first : RunsDown a) (second : RunsDown b) : RunsDown (a ++ b) := by
  induction a with
  | nil => exact second
  | cons i rest ih =>
    obtain ⟨prompt, further, down⟩ := first
    refine ⟨prompt, ?_, ih down⟩
    intro label target
    rw [show rest.append b = rest ++ b from rfl, declared_append]
    exact List.mem_append_left _ (further label target)

/-- What comes last of such instructions runs down as well. -/
theorem of_append (down : RunsDown (a ++ b)) : RunsDown b := by
  induction a with
  | nil => exact down
  | cons _ _ ih => exact ih down.2.2

/-- Straight instructions run down. -/
theorem of_straight (straight : ∀ i ∈ a, i.IsStraight) : RunsDown a := by
  induction a with
  | nil => trivial
  | cons i rest ih =>
    obtain ⟨here, later⟩ := List.forall_mem_cons.mp straight
    -- A straight instruction is none of those that jump.
    cases i with
    | setVariable | clearVariables | writeText | writeValue | writeLine =>
      exact ⟨trivial, nofun, ih later⟩
    | _ => exact here.elim

/-- A declaration goes on at the next instruction. -/
theorem declare (label : Nat) (down : RunsDown a) : RunsDown (.declare label :: a) :=
  ⟨trivial, nofun, down⟩

end RunsDown

end Instruction

open Instruction

/-- The code for a script without loops runs down. A conditional jumps to the label that is declared
behind its branch, and nowhere else. -/
theorem Script.runsDown_code {s : Script} (loopless : s.IsLoopless) (next top : Nat) :
    RunsDown (s.code next top) := by
  induction s generalizing next top with
  | done => trivial
  | action a rest ih =>
    exact (RunsDown.of_straight loopless.1.code).append (ih loopless.2 next top)
  | ifThen holds body rest ih ih' =>
    refine ⟨trivial, ?_, (ih loopless.1 _ _).append (.declare _ (ih' loopless.2 _ _))⟩
    rintro label ⟨⟩
    simp
  | ifElse holds body other rest ih ih' ih'' =>
    obtain ⟨inBody, inOther, later⟩ := loopless
    refine ⟨trivial, ?_, (ih inBody _ _).append ⟨trivial, ?_, .declare _
      ((ih' inOther _ _).append (.declare _ (ih'' later _ _)))⟩⟩
    · rintro label ⟨⟩
      simp
    · rintro label ⟨⟩
      simp
  | breakLoop | continueLoop | whileLoop | foreverLoop | doUntil => exact loopless.elim

end ControlScript
