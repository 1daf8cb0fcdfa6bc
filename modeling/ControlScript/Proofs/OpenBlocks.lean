import ControlScript.Proofs.Drafts
import ControlScript.Proofs.Marks

/-!
# The open blocks of a compiler

The open blocks of a compiler fit its indentation and each other, whatever lines it has been given.
As long as the lines of a program have no fault, a block that is opened inside another is indented
more than that. A line that fits no block sets the indentation all the same; behind such a line a
block may be opened with as much indentation as the block around it, but never with less.

Each open block has labels of its own, which have been set apart for it.

## Main definitions

* `Block.labels` — the labels of an open block
* `Compiler.Reached` — the compilers that lines can lead to
* `Compiler.Nested` — how the open blocks of a compiler fit together

## Main results

* `Compiler.Nested.aligned`, `Compiler.Ready.stated` — the rules of indentation, and a statement
* `Compiler.nested_of_reached` — whatever lines have come
-/

namespace ControlScript

open Attempt Compile

namespace Block

/-- The labels that an open block may still use. The second branch of a conditional has taken over
the label that the first one left. -/
def labels (b : Block) : List Nat := if b.elseSeen then [b.label] else [b.label, b.label + 1]

theorem le_of_mem_labels {b : Block} {l : Nat} (member : l ∈ b.labels) : b.label ≤ l := by
  unfold labels at member
  split at member <;> simp at member <;> omega

end Block

namespace Compiler

variable {limits : Limits} {c next : Compiler} {faulty : Bool} {indent : Nat}
  {matched : Option Block}

/-- How the open blocks of a compiler fit together. `faulty` tells whether a line has had a fault
since the last program began. -/
structure Nested (faulty : Bool) (c : Compiler) : Prop where
  depth : c.depth ≤ c.blocks.limit
  /-- Outside of a program no block is open, and the indentation is that of a new program. -/
  outside : c.compiling = false →
    c.blocks.items = [] ∧ c.indent = 0 ∧ c.openedBlock = false
  /-- A block that was just opened has been opened at the indentation of the line before. -/
  opened : c.openedBlock = true → ∃ b ∈ c.blocks.items.head?, b.indent = c.indent
  /-- No block is indented less than the one around it, and none more than the current one. -/
  ordered : c.blocks.items.Pairwise fun inner outer => outer.indent ≤ inner.indent
  within : ∀ b ∈ c.blocks.items, b.indent ≤ c.indent
  /-- As long as there is no fault, blocks are indented more than those around them. -/
  strict : faulty = false →
    (c.blocks.items.Pairwise fun inner outer => outer.indent < inner.indent) ∧
      (c.openedBlock = false → ∀ b ∈ c.blocks.items, b.indent < c.indent)
  allocated : ∀ b ∈ c.blocks.items, ∀ l ∈ b.labels, l < c.nextLabel
  apart : c.blocks.items.Pairwise fun inner outer => inner.labels.Disjoint outer.labels
  branch : ∀ b ∈ c.blocks.items, b.elseSeen = true → b.kind = .conditional

/-- A line that has been aligned, with the block that is handed on to its statement. -/
structure Ready (faulty : Bool) (indent : Nat) (matched : Option Block)
    (c : Compiler) : Prop where
  nested : c.Nested faulty
  closed : c.openedBlock = false
  level : c.compiling = true → c.indent = indent
  /-- The labels of the block that is handed on are still its own. -/
  handed : ∀ b ∈ matched, (∀ l ∈ b.labels, l < c.nextLabel) ∧
    ∀ outer ∈ c.blocks.items, b.labels.Disjoint outer.labels

/-- A compiler without open blocks. -/
theorem nested_of_nil (items : c.blocks.items = []) (indent : c.indent = 0)
    (closed : c.openedBlock = false) : c.Nested faulty where
  depth := by simp [depth, Stack.depth, items]
  outside _ := ⟨items, indent, closed⟩
  opened opened := by simp [closed] at opened
  ordered := by simp [items]
  within := by simp [items]
  strict _ := by simp [items]
  allocated := by simp [items]
  apart := by simp [items]
  branch := by simp [items]

namespace Nested

theorem weaken (nested : c.Nested faulty) : c.Nested true :=
  { nested with strict := nofun }

/-- Closing inner blocks at an indentation that fits the others. -/
theorem closedTo {front others : List Block} (nested : c.Nested faulty)
    (program : c.compiling = true) (closed : c.openedBlock = false)
    (items : c.blocks.items = front ++ others) (within : ∀ b ∈ others, b.indent ≤ indent)
    (strict : faulty = false → ∀ b ∈ others, b.indent < indent) :
    (c.closedTo others indent).Nested faulty := by
  have sublist : List.Sublist others c.blocks.items := by
    rw [items]
    exact List.sublist_append_right front others
  exact {
    depth := sublist.length_le.trans nested.depth
    outside outside := by cases program.symm.trans outside
    opened opened := by cases closed.symm.trans opened
    ordered := nested.ordered.sublist sublist
    within
    strict faultless :=
      ⟨(nested.strict faultless).1.sublist sublist, fun _ => strict faultless⟩
    allocated b member := nested.allocated b (sublist.subset member)
    apart := nested.apart.sublist sublist
    branch b member := nested.branch b (sublist.subset member) }

/-- The compiler behind the rules of indentation, and if they do not refuse the line, the block that
they hand on. -/
theorem aligned {result : Option (Option Block)} (nested : c.Nested faulty)
    (aligned : Aligned indent c result next) :
    next.Nested true ∧
      ∀ matched ∈ result, next.Ready faulty indent matched := by
  cases aligned with
  | outside outside =>
    have closed := (nested.outside outside).2.2
    refine ⟨nested.weaken, ?_⟩
    rintro _ ⟨⟩
    refine ⟨nested, closed, fun program => ?_, nofun⟩
    cases outside.symm.trans program
  | missed program opened =>
    -- The innermost block lies at the indentation itself, and it no longer counts as just opened.
    refine ⟨{ nested.weaken with outside := ?_, opened := nofun, strict := nofun }, nofun⟩
    exact fun outside => by cases program.symm.trans outside
  | deeper program opened further =>
    have within (b : Block) (member : b ∈ c.blocks.items) : b.indent < indent :=
      (nested.within b member).trans_lt further
    have nested' : Nested faulty { c with indent, openedBlock := false } := {
      nested with
      outside outside := by cases program.symm.trans outside
      opened := nofun
      within b member := (within b member).le
      strict faultless := ⟨(nested.strict faultless).1, fun _ => within⟩ }
    refine ⟨nested'.weaken, ?_⟩
    rintro _ ⟨⟩
    exact ⟨nested', rfl, fun _ => rfl, nofun⟩
  | refused => exact ⟨nested.weaken, nofun⟩
  | level program closed same =>
    refine ⟨nested.weaken, ?_⟩
    rintro _ ⟨⟩
    exact ⟨nested, closed, fun _ => same, nofun⟩
  | @closes program closed deeper others opener items same =>
    -- What holds along the stack holds between the opener and the blocks around it.
    have around {R : Block → Block → Prop} (pairwise : c.blocks.items.Pairwise R) :
        ∀ outer ∈ others, R opener outer := by
      rw [items] at pairwise
      exact (List.pairwise_cons.mp (List.pairwise_append.mp pairwise).2.1).1
    have nested' : (c.closedTo others indent).Nested faulty := by
      have items' : c.blocks.items = (deeper ++ [opener]) ++ others := by simp [items]
      refine nested.closedTo program closed items' ?_ ?_
      · exact same ▸ around nested.ordered
      · exact fun faultless => same ▸ around (nested.strict faultless).1
    refine ⟨nested'.weaken, ?_⟩
    rintro _ ⟨⟩
    refine ⟨nested', closed, fun _ => rfl, ?_⟩
    rintro _ ⟨⟩
    exact ⟨nested.allocated opener (by simp [items]), around nested.apart⟩
  | @mismatched program closed deeper others items within =>
    -- Only the innermost block that is left is compared with the line; the order does the rest.
    refine ⟨nested.weaken.closedTo program closed items (fun b member => ?_) nofun, nofun⟩
    have ordered := nested.ordered
    rw [items] at ordered
    replace ordered := (List.pairwise_append.mp ordered).2.1
    cases others with
    | nil => cases member
    | cons first rest =>
      have least : first.indent ≤ indent := within first rfl
      rcases List.mem_cons.mp member with rfl | behind
      · exact least
      · exact ((List.pairwise_cons.mp ordered).1 b behind).trans least

end Nested

namespace Ready

/-- A block with labels of its own is opened. -/
theorem opening {b : Block} {labels : Nat} (ready : c.Ready faulty indent matched)
    (program : c.compiling = true) (room : c.depth < c.blocks.limit) (level : b.indent = indent)
    (fresh : ∀ l ∈ b.labels, l < c.nextLabel + labels)
    (apart : ∀ outer ∈ c.blocks.items, b.labels.Disjoint outer.labels)
    (branch : b.elseSeen = true → b.kind = .conditional) :
    (c.opening b labels).Nested faulty := by
  have here : c.indent = b.indent := (ready.level program).trans level.symm
  have nested := ready.nested
  exact {
    depth := room
    outside outside := by cases program.symm.trans outside
    opened _ := ⟨b, rfl, here.symm⟩
    ordered := List.pairwise_cons.mpr ⟨here ▸ nested.within, nested.ordered⟩
    within := List.forall_mem_cons.mpr ⟨here.ge, nested.within⟩
    strict faultless := by
      obtain ⟨strict, inside⟩ := nested.strict faultless
      exact ⟨List.pairwise_cons.mpr ⟨here ▸ inside ready.closed, strict⟩, nofun⟩
    allocated := List.forall_mem_cons.mpr ⟨fresh, fun outer member l own =>
      Nat.lt_add_right labels (nested.allocated outer member l own)⟩
    apart := List.pairwise_cons.mpr ⟨apart, nested.apart⟩
    branch := List.forall_mem_cons.mpr ⟨branch, nested.branch⟩ }

/-- A statement keeps the open blocks in order, also if it has a fault further on. -/
theorem stated (ready : c.Ready faulty indent matched)
    (stated : Stated matched indent c next) : next.Nested faulty := by
  have nested := ready.nested
  cases stated with
  | spared => exact nested
  | refused program =>
    -- The labels are lost, but no block has them.
    exact { nested with
      allocated b member l own := Nat.lt_add_right 2 (nested.allocated b member l own) }
  | opened program room kind =>
    refine ready.opening program room rfl (by simp [Block.labels]) (fun outer member => ?_) nofun
    -- The labels of the other blocks have been set apart before.
    intro l own others
    have old := nested.allocated outer member l others
    exact absurd old (Nat.not_lt.mpr (Block.le_of_mem_labels own))
  | @branched program room b member first conditional =>
    -- The one label of the new block is the second one of the block that was closed.
    obtain ⟨allocated, apart⟩ := ready.handed b member
    have own : ∀ l ∈ [b.label + 1], l ∈ b.labels := by simp [Block.labels, first]
    exact ready.opening program room rfl (fun l same => allocated l (own l same))
      (fun outer around l same => apart outer around (own l same)) fun _ => rfl

end Ready

/-- Any line keeps the open blocks in order. -/
theorem Nested.worked {refused : Bool} (nested : c.Nested faulty)
    (worked : Worked c refused next) : next.Nested (faulty || refused) := by
  have blurred {c : Compiler} (nested : c.Nested faulty) :
      c.Nested (faulty || refused) := by
    cases refused with
    | true => rw [Bool.or_true]; exact nested.weaken
    | false => rwa [Bool.or_false]
  cases worked with
  | spared => exact blurred nested
  | begun => exact nested_of_nil rfl rfl rfl
  | ended => exact nested_of_nil rfl rfl rfl
  | misaligned aligned =>
    rw [Bool.or_true]
    exact (nested.aligned aligned).1
  | stated aligned stated => exact blurred (((nested.aligned aligned).2 _ rfl).stated stated)

theorem Nested.countLine (nested : c.Nested faulty) : c.countLine.Nested faulty := by
  unfold Compiler.countLine
  split
  · exact { nested with }
  · exact nested

/-- Compiling a line keeps the open blocks in order. -/
theorem Nested.compileLine (nested : c.Nested faulty) (vars : Variables)
    (readings : Readings) (text : String) :
    (c.compileLine vars readings text).compiler.Nested
      (faulty || (c.compileLine vars readings text).fault.isSome) := by
  obtain ⟨last, mark, worked, compiled⟩ := exists_worked c vars readings text
  rw [compiled]
  exact { nested.countLine.worked worked with }

/-- The compilers that some lines lead to, each line with any variables and readings. The mark tells
whether a line has had a fault since the last program began. -/
inductive Reached (limits : Limits) : Bool → Compiler → Prop
  | start : Reached limits false (.ofLimits limits)
  | accepted {faulty : Bool} {c : Compiler} (reached : Reached limits faulty c)
    (vars : Variables) (readings : Readings) (text : String)
    (accepted : (c.compileLine vars readings text).fault = none) :
    Reached limits (faulty && Keyword.ofText? text != some .begin)
      (c.compileLine vars readings text).compiler
  | refused {faulty : Bool} {c : Compiler} (reached : Reached limits faulty c)
    (vars : Variables) (readings : Readings) (text : String)
    (refused : (c.compileLine vars readings text).fault ≠ none) :
    Reached limits true (c.compileLine vars readings text).compiler

/-- The number of blocks that may be open stays as it was set. -/
theorem limit_of_reached (reached : Reached limits faulty c) :
    c.blocks.limit = limits.nesting := by
  induction reached with
  | start => rfl
  | accepted _ vars readings text _ ih => exact (limit_compileLine _ vars readings text).trans ih
  | refused _ vars readings text _ ih => exact (limit_compileLine _ vars readings text).trans ih

/-- Whatever lines a compiler has been given, its open blocks are in order, and they are not too
many. The induction is on the lines. -/
theorem nested_of_reached (reached : Reached limits faulty c) :
    c.depth ≤ limits.nesting ∧ c.Nested faulty := by
  have nested : c.Nested faulty := by
    induction reached with
    | start => exact nested_of_nil rfl rfl rfl
    | @accepted faulty c _ vars readings text accepted ih =>
      have nested := ih.compileLine vars readings text
      rw [accepted, Option.isSome_none, Bool.or_false] at nested
      -- A line that begins a program empties the stack, and with it the faults are forgotten.
      by_cases begins : Keyword.ofText? text = some .begin
      · obtain ⟨vars', compiled⟩ := exists_compileLine_of_begin begins accepted
        rw [compiled]
        exact nested_of_nil rfl rfl rfl
      · have goesOn : (Keyword.ofText? text != some .begin) = true := bne_iff_ne.mpr begins
        rwa [goesOn, Bool.and_true]
    | @refused faulty c _ vars readings text refused ih =>
      exact (ih.compileLine vars readings text).weaken
  exact ⟨limit_of_reached reached ▸ nested.depth, nested⟩

/-- A conditional was just opened in a loop that is one column less indented. -/
theorem nested_of_branch_in_loop :
    let first := (ofLimits {}).compileLine (.ofLimits {}) {} "begin"
    let second := first.compiler.compileLine first.vars {} "do"
    let third := second.compiler.compileLine second.vars {} " if 1<2"
    Reached {} false third.compiler ∧ third.compiler.blocks.items.map (·.indent) = [1, 0] ∧
      third.compiler.depth ≤ ({} : Limits).nesting ∧ third.compiler.Nested false := by
  intro first second third
  have accepted : first.fault = none ∧ second.fault = none ∧ third.fault = none := by
    decide +kernel
  have reached : Reached {} false third.compiler :=
    ((Reached.start.accepted _ _ _ accepted.1).accepted _ _ _ accepted.2.1).accepted _ _ _
      accepted.2.2
  exact ⟨reached, by decide +kernel, nested_of_reached reached⟩

end Compiler

end ControlScript
