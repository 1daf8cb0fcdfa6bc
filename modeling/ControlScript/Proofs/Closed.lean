import ControlScript.Proofs.Programs
import ControlScript.Proofs.Stored

/-!
# Closed code

The code for an accepted program declares every label that it jumps to, and only once. So a jump
of the stored program finds its destination. The only other statements of a program that could
look for a label are raw ones.

## Main definitions

* `Instruction.stored` — the program that a stream of statements stores
* `Instruction.Kept` — an instruction whose statement becomes part of a program
* `Instruction.Fit` — one that is no raw statement about control
* `Instruction.Closed` — instructions that declare every label that they jump to, and only once

## Main results

* `Forms.closed_code` — the code for the script of a program is closed
* `Store.findLabel?_of_closed` — a declared label is found where it is declared
-/

namespace ControlScript

namespace Instruction

/-- Whether a download takes the statement of an instruction as meant for itself. -/
def isRemote (i : Instruction) : Bool := i.text.head?.any (Byte.spells 'R')

/-- The program that a stream of statements stores: all but those that manage the download. -/
def stored (code : List Instruction) : Bytes := encode (code.filter (!·.isRemote))

/-- An instruction whose statement becomes part of a program. -/
structure Kept (i : Instruction) : Prop where
  proper : i.Proper
  isStored : i.isRemote = false

/-- An instruction that can stand in a stored program and is not a raw jump. -/
structure Fit (i : Instruction) : Prop extends Kept i where
  free : i.IsFree

/-- Instructions that declare every label that they jump to, and only once. -/
structure Closed (code : List Instruction) : Prop where
  fit : ∀ i ∈ code, i.Fit
  nodup : (declared code).Nodup
  closed : ∀ label ∈ targets code, label ∈ declared code

theorem Fit.category_ne_remote {i : Instruction} (fit : i.Fit) {op : Opcode}
    (named : Opcode.ofStatement? i.text = some op) : op.category ≠ .remote := by
  have whole : Opcode.ofStatement? (i.text ++ []) = some op := by rwa [List.append_nil]
  exact fun remote =>
    head?_code_ne fit.proper.text_ne_nil fit.isStored whole (head?_code_of_remote remote)

theorem Fit.category_ne_control {statement : Bytes} (fit : (raw statement).Fit) {op : Opcode}
    (named : Opcode.ofStatement? statement = some op) : op.category ≠ .control := by
  have whole : Opcode.ofStatement? (statement ++ []) = some op := by rwa [List.append_nil]
  exact fun control => head?_code_ne fit.proper.1 fit.free whole (head?_code_of_control control)

theorem stored_append (a b : List Instruction) : stored (a ++ b) = stored a ++ stored b := by
  rw [stored, List.filter_append, encode_append]
  rfl

/-- Instructions that become part of a program are stored as they are. -/
theorem stored_of_kept {code : List Instruction} (kept : ∀ i ∈ code, i.Kept) :
    stored code = encode code := by
  have same : code.filter (!·.isRemote) = code :=
    List.filter_eq_self.mpr fun i member => by simp [(kept i member).isStored]
  rw [stored, same]

/-- A download stores the instructions between those that begin and end it. -/
theorem stored_framed (inProgram : Bool) {code : List Instruction} (kept : ∀ i ∈ code, i.Kept) :
    stored ((if inProgram then [.abortDownload] else []) ++
      .beginDownload :: (code ++ [.endDownload])) = encode code := by
  have before : stored ((if inProgram then [.abortDownload] else []) ++ [.beginDownload]) = [] := by
    cases inProgram <;> decide
  have after : stored [.endDownload] = [] := by decide
  rw [List.append_cons, stored_append, before, stored_append, after, stored_of_kept kept,
    List.nil_append, List.append_nil]

end Instruction

open Instruction

/-- The code for a script is closed if its instructions are fit for a program. -/
theorem Script.closed_code {script : Script} (placed : script.Placed false) {next top : Nat}
    (fit : ∀ i ∈ script.code next top, i.Fit) : Closed (script.code next top) where
  fit := fit
  nodup := script.nodup_declared next top
  closed label member := (mem_declared_of_mem_targets placed member).resolve_right (by simp)

/-- The instructions for an action that may stand in a program become part of it. -/
theorem Action.kept_of_mem_code {a : Action} (proper : a.Proper) (stored : a.isRemote = false) :
    ∀ i ∈ a.code, i.Kept := by
  intro i member
  refine ⟨proper i member, ?_⟩
  match a with
  | .raw statement =>
    obtain rfl := List.mem_singleton.mp member
    exact stored
  | .assign _ _ | .clear | .delay _ | .wait _ | .print (.text _) | .print (.value _)
  | .println none =>
    obtain rfl := List.mem_singleton.mp member
    rfl
  | .println (some (.text _)) | .println (some (.value _)) =>
    rcases List.mem_cons.mp member with rfl | last
    · rfl
    · obtain rfl := List.mem_singleton.mp last
      rfl

/-- An action is compiled to a raw statement only if it is given as one. -/
theorem Action.eq_raw_of_mem_code {a : Action} {statement : Bytes}
    (member : .raw statement ∈ a.code) : a = .raw statement := by
  match a with
  | .raw _ =>
    cases List.mem_singleton.mp member
    rfl
  | .assign _ _ | .clear | .delay _ | .wait _ | .print (.text _) | .print (.value _)
  | .println none => cases List.mem_singleton.mp member
  | .println (some (.text _)) | .println (some (.value _)) =>
    rcases List.mem_cons.mp member with first | last
    · cases first
    · cases List.mem_singleton.mp last

/-- A proper sentence makes instructions that become part of a program. -/
theorem Sentence.Proper.makes_kept {s : Sentence} (proper : s.Proper) : s.Makes Kept := by
  cases s with
  | action a => exact Action.kept_of_mem_code proper
  | ifThen holds | whileLoop holds | untilTrue holds => exact fun label => ⟨proper, rfl⟩
  | _ => trivial

/-- A sentence that is no raw statement about control makes no jumps of its own. -/
theorem Sentence.makes_isFree {s : Sentence} (free : ∀ statement, s = .action (.raw statement) →
    statement.head?.any (Byte.spells 'C') = false) : s.Makes IsFree := by
  cases s with
  | action a =>
    intro _ i member
    cases i with
    | raw statement => exact free statement (by rw [Action.eq_raw_of_mem_code member])
    | _ => trivial
  | ifThen holds | whileLoop holds | untilTrue holds => exact fun label => trivial
  | _ => trivial

/-- The code for the script of a program whose raw statements are not about control is closed. -/
theorem Forms.closed_code {limit : Nat} {lines : List Line} {script : Script} {body : List String}
    (formed : Forms limit 0 false 0 lines script)
    (read : ∀ l ∈ lines, ∃ text ∈ body, ∃ limit scope after,
      Line.read? limit scope text = some (some l, after))
    (free : ∀ text ∈ body, ∀ statement ∈ Line.rawStatement? text,
      statement.head?.any (Byte.spells 'C') = false) : Closed (script.code 0 0) := by
  have kept : ∀ i ∈ script.code 0 0, i.Kept := by
    refine formed.forall_mem_code (fun _ => ⟨trivial, rfl⟩) (fun _ => ⟨trivial, rfl⟩) ?_ 0 0
    intro l member
    obtain ⟨text, -, limit, scope, after, said⟩ := read l member
    exact (Line.read?_proper said).makes_kept
  have apart : ∀ i ∈ script.code 0 0, i.IsFree := by
    refine formed.forall_mem_code (fun _ => trivial) (fun _ => trivial) ?_ 0 0
    rintro ⟨indent, s⟩ member
    obtain ⟨text, inBody, limit, scope, after, said⟩ := read _ member
    refine Sentence.makes_isFree ?_
    rintro statement rfl
    exact free text inBody statement (Line.rawStatement?_of_read? said)
  exact script.closed_code formed.placed fun i member => ⟨kept i member, apart i member⟩

namespace Store

variable {s : Store} {code : List Instruction} {label : Nat}

/-- In a closed program a label is found where it is declared. -/
theorem findLabel?_of_closed (closed : Closed code) (program : s.program = encode code)
    {before after : List Instruction} (split : code = before ++ .declare label :: after) :
    s.findLabel? (labelBytes label) = some (encode before).length := by
  subst split
  have once := closed.nodup
  rw [declared_append, declared_declare] at once
  refine findLabel?_declare program ?_ ?_ ?_
  · exact fun j inside => (closed.fit j (List.mem_append_left _ inside)).proper
  · exact fun j inside => (closed.fit j (List.mem_append_left _ inside)).free
  · exact fun inside => (List.nodup_append.mp once).2.2 label inside label List.mem_cons_self rfl

/-- A label that a closed program jumps to is found where it is declared. -/
theorem exists_findLabel?_of_closed (closed : Closed code) (program : s.program = encode code)
    (target : label ∈ targets code) : ∃ before after, code = before ++ .declare label :: after ∧
      s.findLabel? (labelBytes label) = some (encode before).length := by
  obtain ⟨before, after, split⟩ := exists_split_of_mem_declared (closed.closed label target)
  exact ⟨before, after, split, findLabel?_of_closed closed program split⟩

end Store

end ControlScript
