import ControlScript.Proofs.Indentation
import ControlScript.Proofs.LineChanges
import Mathlib.Data.List.Forall2

/-!
# Texts with changed indentation

Only the shape of the indentation of a text matters. When the indentation is changed throughout, so
that what was indented more still is and what was not indented still is not, every line is compiled
to the same instructions or has the same fault. This holds of any lines, also where they do not make
a program: a line that fits no block sets the indentation for the lines after it, and in both texts
it does so alike.

## Main definitions

* `Line.reindented` — a source line with changed indentation
* `Compiler.compilations` — what line after line is compiled to
* `Compilation.Alike` — two lines are compiled alike

## Main results

* `Line.exists_reindented` — what a line holds, before and after
* `Compiler.compileLine_reindented`, `Compiler.compilations_reindented` — one line, and line after
  line
* `Compiler.alike_reindented` — what can be seen of a text and of one with changed indentation
-/

namespace ControlScript

/-- White space at the end of an indented text is that of the text, unless there is nothing else. -/
theorem trimEnd_spaces_append (k : Nat) (cs : List Char) :
    trimEnd (List.replicate k ' ' ++ cs) =
      if trimEnd cs = [] then [] else List.replicate k ' ' ++ trimEnd cs := by
  have blank : (List.replicate k ' ').dropWhile isBlank = [] := by
    rw [List.dropWhile_eq_nil_iff]
    intro c member
    rw [List.eq_of_mem_replicate member]
    decide
  unfold trimEnd
  rw [List.reverse_append, List.reverse_replicate, List.dropWhile_append, blank]
  by_cases nothing : cs.reverse.dropWhile isBlank = [] <;> simp [nothing]

namespace Bytes

theorem ofChars_spaces_append (k : Nat) (cs : List Char) :
    ofChars (List.replicate k ' ' ++ cs) = List.replicate k Byte.space ++ ofChars cs := by
  have spaces : ofChars (List.replicate k ' ') = List.replicate k Byte.space := by
    induction k with
    | zero => rfl
    | succ k ih => exact congrArg (Byte.space :: ·) ih
  rw [← spaces]
  exact List.flatMap_append

/-- Only the encoding of a space starts with the byte for a space. -/
theorem exists_utf8EncodeChar_eq_cons (c : Char) :
    ∃ b rest, String.utf8EncodeChar c = b :: rest ∧ (b = Byte.space → c = ' ') := by
  have range (n : Nat) (same : UInt8.ofNat n = Byte.space) : n % 256 = 32 := by
    have number : n % 256 = Byte.space.toNat := by simpa using congrArg UInt8.toNat same
    exact number
  -- An encoding of more than one byte starts above the ASCII range.
  have above (n : Nat) (high : 192 ≤ n % 256) (same : UInt8.ofNat n = Byte.space) : c = ' ' := by
    have := range n same
    omega
  unfold String.utf8EncodeChar
  dsimp only
  split
  · refine ⟨_, _, rfl, fun same => ?_⟩
    have value : c.val.toNat = 32 := by
      have := range _ same
      omega
    exact Char.ext (UInt32.toNat_inj.mp value)
  · split
    · exact ⟨_, _, rfl, above _ (by omega)⟩
    · split
      · exact ⟨_, _, rfl, above _ (by omega)⟩
      · exact ⟨_, _, rfl, above _ (by omega)⟩

theorem head?_ofChars_ne_space {cs : List Char} (solid : cs.head? ≠ some ' ') :
    (ofChars cs).head? ≠ some Byte.space := by
  cases cs with
  | nil => exact nofun
  | cons c cs =>
    obtain ⟨b, rest, encoded, space⟩ := exists_utf8EncodeChar_eq_cons c
    intro first
    rw [ofChars, List.flatMap_cons, encoded] at first
    exact solid (congrArg some (space (Option.some.inj first)))

end Bytes

/-- A source line with changed indentation. -/
def Line.reindented (f : Nat → Nat) (text : String) : String :=
  String.ofList (List.replicate (f (text.toList.takeWhile (· == ' ')).length) ' ' ++
    text.toList.dropWhile (· == ' '))

/-- What a line holds, before and after its indentation is changed. Where there is nothing but white
space, there is no indentation left either. -/
theorem Line.exists_reindented {f : Nat → Nat} (zero : f 0 = 0) (text : String) :
    ∃ indent rest, rest.head? ≠ some Byte.space ∧
      Bytes.ofChars (trimEnd text.toList) = List.replicate indent Byte.space ++ rest ∧
      Bytes.ofChars (trimEnd (Line.reindented f text).toList) =
        List.replicate (f indent) Byte.space ++ rest := by
  obtain ⟨cs, cs_eq⟩ : ∃ cs, cs = text.toList.dropWhile (· == ' ') := ⟨_, rfl⟩
  obtain ⟨k, k_eq⟩ : ∃ k, k = (text.toList.takeWhile (· == ' ')).length := ⟨_, rfl⟩
  have split : text.toList = List.replicate k ' ' ++ cs := by
    have spaces : text.toList.takeWhile (· == ' ') = List.replicate k ' ' := by
      rw [k_eq]
      refine List.eq_replicate_of_mem fun c member => ?_
      simpa using List.mem_takeWhile_imp member
    rw [cs_eq, ← spaces, List.takeWhile_append_dropWhile]
  have changed : (Line.reindented f text).toList = List.replicate (f k) ' ' ++ cs := by
    rw [Line.reindented, String.toList_ofList, ← cs_eq, ← k_eq]
  rw [split, changed, trimEnd_spaces_append, trimEnd_spaces_append]
  by_cases blank : trimEnd cs = []
  · refine ⟨0, [], nofun, ?_, ?_⟩
    · rw [if_pos blank]
      rfl
    · rw [if_pos blank, zero]
      rfl
  · have solid : (trimEnd cs).head? ≠ some ' ' := by
      -- What is left of the line starts as it did before.
      obtain ⟨blanks, trimmed, -⟩ := exists_trimEnd_append cs
      have first := List.head?_dropWhile_not (· == ' ') text.toList
      intro space
      rw [← cs_eq, ← trimmed, List.head?_append, space] at first
      cases first
    rw [if_neg blank, if_neg blank]
    exact ⟨k, _, Bytes.head?_ofChars_ne_space solid, Bytes.ofChars_spaces_append _ _,
      Bytes.ofChars_spaces_append _ _⟩

/-- A fault without the source that it quotes. -/
def Fault.unquoted (g : Fault) : Fault := { g with source := none }

@[simp] theorem Fault.unquoted_inSource (g : Fault) (source : String) :
    (g.inSource source).unquoted = g.unquoted := rfl

/-- What two lines are compiled to, by a compiler and by one that remembers changed indentation. -/
structure Compilation.Reindents (f : Nat → Nat) (a b : Compilation) : Prop where
  compiler : b.compiler = a.compiler.reindented f
  vars : b.vars = a.vars
  emitted : b.emitted = a.emitted
  fault : b.fault.map Fault.unquoted = a.fault.map Fault.unquoted

namespace Compiler

variable {f : Nat → Nat} {c : Compiler} {vars : Variables} {readings : Readings} {text : String}

/-- One line, by a compiler that has seen changed indentation. -/
theorem compileLine_reindented (strict : StrictMono f) (zero : f 0 = 0)
    (short : (Bytes.ofString text).length ≤ c.lineLength)
    (short' : (Bytes.ofString (Line.reindented f text)).length ≤ c.lineLength) :
    Compilation.Reindents f (c.compileLine vars readings text)
      ((c.reindented f).compileLine vars readings (Line.reindented f text)) := by
  have drafts : (c.reindented f).countLine.draft { vars, readings } (Line.reindented f text) =
      Compile.outcome f id (c.countLine.draft { vars, readings } text) := by
    obtain ⟨indent, rest, solid, before, after⟩ := Line.exists_reindented zero text
    rw [countLine_reindented]
    unfold draft
    rw [if_neg, if_neg, before, after]
    · let start : Draft := { rest := [], compiler := c.countLine, scope := { vars, readings } }
      exact Compile.line_reindented strict zero start solid
    · rw [lineLength_countLine]
      exact Nat.not_lt.mpr short
    · rw [show (c.countLine.reindented f).lineLength = c.countLine.lineLength from rfl,
        lineLength_countLine]
      exact Nat.not_lt.mpr short'
  unfold compileLine
  dsimp only
  rw [drafts]
  cases c.countLine.draft { vars, readings } text with
  | ok _ d => exact ⟨rfl, rfl, rfl, rfl⟩
  | error g d =>
    have compiling : (c.reindented f).compiling = c.compiling := rfl
    have number : (c.reindented f).countLine.lineNumber = c.countLine.lineNumber := by
      rw [countLine_reindented]
      rfl
    -- The faults differ in the line that they quote, and in nothing else.
    refine ⟨rfl, rfl, rfl, ?_⟩
    simp only [Compile.outcome, Option.map_some, Fault.unquoted_inSource, compiling, number]

/-- What each line is compiled to, one after the other. -/
def compilations (c : Compiler) (vars : Variables) (readings : Readings) :
    List String → List Compilation
  | [] => []
  | text :: texts =>
    let compiled := c.compileLine vars readings text
    compiled :: compiled.compiler.compilations compiled.vars readings texts

/-- Line after line. The induction is on the lines; the indentation that the compilers remember
keeps its order. -/
theorem compilations_reindented (strict : StrictMono f) (zero : f 0 = 0) {texts : List String}
    (short : ∀ text ∈ texts, (Bytes.ofString text).length ≤ c.lineLength ∧
      (Bytes.ofString (Line.reindented f text)).length ≤ c.lineLength) :
    List.Forall₂ (Compilation.Reindents f) (c.compilations vars readings texts)
      ((c.reindented f).compilations vars readings (texts.map (Line.reindented f))) := by
  induction texts generalizing c vars with
  | nil => exact .nil
  | cons text texts ih =>
    obtain ⟨here, later⟩ := List.forall_mem_cons.mp short
    have first : Compilation.Reindents f (c.compileLine vars readings text) _ :=
      compileLine_reindented strict zero here.1 here.2
    rw [List.map_cons, compilations, compilations]
    refine .cons first ?_
    rw [first.compiler, first.vars]
    exact ih (by rwa [lineLength_compileLine])

end Compiler

/-- Two lines are compiled alike: to the same bytes, with the same fault but for the source that it
quotes, and what can be seen of the compilers afterwards is the same. -/
structure Compilation.Alike (a b : Compilation) : Prop where
  bytes : Instruction.encode b.emitted = Instruction.encode a.emitted
  fault : b.fault.map Fault.unquoted = a.fault.map Fault.unquoted
  vars : b.vars = a.vars
  depth : b.compiler.depth = a.compiler.depth
  nextLabel : b.compiler.nextLabel = a.compiler.nextLabel
  compiling : b.compiler.compiling = a.compiler.compiling
  programError : b.compiler.programError = a.compiler.programError

theorem Compilation.Reindents.alike {f : Nat → Nat} {a b : Compilation}
    (reindents : a.Reindents f b) : a.Alike b where
  bytes := congrArg Instruction.encode reindents.emitted
  fault := reindents.fault
  vars := reindents.vars
  depth := by rw [reindents.compiler, Compiler.depth_reindented]
  nextLabel := reindents.compiler ▸ rfl
  compiling := reindents.compiler ▸ rfl
  programError := reindents.compiler ▸ rfl

/-- Only the shape of the indentation matters. When it is changed throughout, so that what was
indented more still is and what was not indented still is not, a new compiler compiles every line
alike, whether the lines make sense or not, as long as none of them is too long before or after. -/
theorem Compiler.alike_reindented {f : Nat → Nat} (strict : StrictMono f) (zero : f 0 = 0)
    (limits : Limits) (vars : Variables) (readings : Readings) {texts : List String}
    (short : ∀ text ∈ texts, (Bytes.ofString text).length ≤ limits.lineLength ∧
      (Bytes.ofString (Line.reindented f text)).length ≤ limits.lineLength) :
    List.Forall₂ Compilation.Alike ((ofLimits limits).compilations vars readings texts)
      ((ofLimits limits).compilations vars readings (texts.map (Line.reindented f))) := by
  have fresh : (ofLimits limits).reindented f = ofLimits limits := by
    simp [reindented, ofLimits, zero]
  have reindents : List.Forall₂ (Compilation.Reindents f)
      ((ofLimits limits).compilations vars readings texts) _ :=
    compilations_reindented strict zero short
  rw [fresh] at reindents
  exact reindents.imp fun _ _ line => line.alike

/-- The square of each indentation, in a text with a line that fits no block and one that is
indented too far. -/
theorem Compiler.alike_squared :
    let texts := ["begin", "while 1 < 2", " if 1 < 2", "   clear", "  clear", "    clear",
      "  clear", "end", "println 1"]
    let squared := ["begin", "while 1 < 2", " if 1 < 2", "         clear", "    clear",
      "                clear", "    clear", "end", "println 1"]
    let compiled := (ofLimits {}).compilations (.ofLimits {}) {} texts
    compiled.map (·.fault.map (·.cause)) = [none, none, none, none, some .indentMismatch,
      some .indentNotAllowed, none, some .programHasErrors, none] ∧
    List.Forall₂ Compilation.Alike compiled
      ((ofLimits {}).compilations (.ofLimits {}) {} squared) := by
  intro texts squared compiled
  have strict : StrictMono fun k : Nat => k * k := fun _ _ => Nat.mul_self_lt_mul_self
  have short : ∀ text ∈ texts, (Bytes.ofString text).length ≤ ({} : Limits).lineLength ∧
      (Bytes.ofString (Line.reindented (fun k => k * k) text)).length ≤
        ({} : Limits).lineLength := by decide +kernel
  have alike := alike_reindented strict rfl {} (.ofLimits {}) {} short
  have changed : texts.map (Line.reindented fun k => k * k) = squared := by decide +kernel
  rw [changed] at alike
  exact ⟨by decide +kernel, alike⟩

end ControlScript
