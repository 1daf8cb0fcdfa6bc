import ControlScript.Proofs.Sentences

/-!
# Nests

What a compiler does with a line of a program falls into two parts. It reads what the line
says, which does not depend on the blocks that are open; and it acts on what was read, which
does not depend on the variables. A nest is what the second part needs: the open blocks, the
indentation and the labels that have been given away.

## Main definitions

* `Nest` — the open blocks of a program, with what indentation and labels need
* `Nest.align` — the rules of indentation
* `Nest.obey` — acting on a sentence
* `Nest.accept`, `Nest.acceptAll` — both, for one line and for line after line
* `Nest.finish` — closing what the end of a program closes
-/

namespace ControlScript

/-- The open blocks of a program, the indentation, and the labels that have been given away. -/
structure Nest where
  /-- The number of blocks that may be open. -/
  limit : Nat
  /-- The open blocks, the innermost first. -/
  blocks : List Block := []
  /-- The indentation of the current block. -/
  indent : Nat := 0
  /-- Whether the line before opened a block. -/
  openedBlock : Bool := false
  /-- The first label that has not been given away. -/
  nextLabel : Nat := 0
deriving DecidableEq, Repr

namespace Nest

/-- The rules of indentation: the block opened at the line's own indentation, if the line
closes it, and the instructions that close the blocks opened deeper. -/
def align (n : Nest) (indent : Nat) : Option (Nest × Option Block × List Instruction) :=
  if n.openedBlock then
    if indent ≤ n.indent then none
    else some ({ n with indent, openedBlock := false }, none, [])
  else if n.indent < indent then none
  else if n.indent = indent then some (n, none, [])
  else
    let isDeeper : Block → Bool := fun b => indent < b.indent
    match n.blocks.dropWhile isDeeper with
    | [] => none
    | opener :: others =>
      if opener.indent = indent then
        some ({ n with indent, blocks := others }, some opener,
          (n.blocks.takeWhile isDeeper).flatMap Block.closing)
      else none

/-- Opens a block, if there is room. The next line must be indented more. -/
def push (n : Nest) (block : Block) : Option Nest :=
  if n.blocks.length < n.limit then
    some { n with blocks := block :: n.blocks, openedBlock := true }
  else none

/-- Sets two labels apart and opens a block with the first of them. -/
def enter (n : Nest) (kind : BlockKind) (indent : Nat) : Option Nest :=
  { n with nextLabel := n.nextLabel + 2 }.push { kind, label := n.nextLabel, indent }

/-- The innermost open loop. -/
def innermostLoop? (n : Nest) : Option Block := n.blocks.find? (·.kind.isLoop)

/-- The instructions that close a block, if there is one. -/
def closing (block : Option Block) : List Instruction := block.elim [] Block.closing

/-- Closes a block of one of the given kinds. -/
def close (n : Nest) (kinds : List BlockKind) (matched : Option Block) :
    Option (Nest × List Instruction) :=
  (matched.filter (·.kind ∈ kinds)).map fun b => (n, b.closing)

/-- Acts on a sentence. `matched` is the block opened at the line's indentation, if the line
closes it. -/
def obey (n : Nest) (matched : Option Block) (indent : Nat) :
    Sentence → Option (Nest × List Instruction)
  | .action a => if a.isRemote then none else some (n, closing matched ++ a.code)
  | .breakLoop => n.innermostLoop?.map fun loop => (n, closing matched ++ [.jump (loop.label + 1)])
  | .continueLoop => n.innermostLoop?.map fun loop => (n, closing matched ++ [.jump loop.label])
  | .ifThen holds =>
    (n.enter .conditional indent).map fun m =>
      (m, closing matched ++ [.jumpUnless holds n.nextLabel])
  | .elseThen =>
    (matched.filter fun b => b.kind = .conditional ∧ !b.elseSeen).bind fun b =>
      (n.push { kind := .conditional, label := b.label + 1, indent, elseSeen := true }).map
        fun m => (m, [.jump (b.label + 1), .declare b.label])
  | .endif => n.close [.conditional] matched
  | .whileLoop holds =>
    (n.enter .whileLoop indent).map fun m =>
      (m, closing matched ++ [.declare n.nextLabel, .jumpUnless holds (n.nextLabel + 1)])
  | .endwhile => n.close [.whileLoop, .foreverLoop] matched
  | .forever =>
    if matched.any (·.kind = .doLoop) then some (n, closing matched)
    else
      (n.enter .foreverLoop indent).map fun m => (m, closing matched ++ [.declare n.nextLabel])
  | .doLoop =>
    (n.enter .doLoop indent).map fun m => (m, closing matched ++ [.declare n.nextLabel])
  | .untilTrue holds =>
    (matched.filter (·.kind = .doLoop)).map fun b =>
      (n, [.jumpUnless holds b.label, .declare (b.label + 1)])
  | .immediate | .begin | .finish => none

/-- Takes a line of the program. -/
def accept (n : Nest) (l : Line) : Option (Nest × List Instruction) :=
  (n.align l.indent).bind fun (aligned, matched, code) =>
    (aligned.obey matched l.indent l.sentence).map fun (m, more) => (m, code ++ more)

/-- Takes line after line of the program. -/
def acceptAll (n : Nest) : List Line → Option (Nest × List Instruction)
  | [] => some (n, [])
  | l :: lines =>
    (n.accept l).bind fun (m, code) =>
      (m.acceptAll lines).map fun (last, more) => (last, code ++ more)

/-- Closes what a last line with some indentation closes. No block may stay open. -/
def finish (n : Nest) (indent : Nat) : Option (Nest × List Instruction) :=
  (n.align indent).bind fun (m, matched, code) =>
    if m.blocks = [] then some (m, code ++ closing matched) else none

theorem acceptAll_append (n : Nest) (before after : List Line) :
    n.acceptAll (before ++ after) = (n.acceptAll before).bind fun (m, code) =>
      (m.acceptAll after).map fun (last, more) => (last, code ++ more) := by
  induction before generalizing n with
  | nil => simp [acceptAll]
  | cons l before ih =>
    simp only [List.cons_append, acceptAll, ih, Option.bind_assoc, Option.bind_map,
      Option.map_bind, Function.comp_def, Option.map_map, List.append_assoc]

end Nest

end ControlScript
