import ControlScript.Proofs.Nests

/-!
# Scripts

The blocks of a program form a tree. This file has the trees, the lines that are a program with a
given tree, and the code for a tree. The code is generated by recursion on the tree and knows of
the blocks around it only the loop that it stands in.

## Main definitions

* `Script` — a sequence of statements
* `Script.labels`, `Script.code` — the labels that are set apart for a script, and its code
* `Forms` — lines that form a script at an indentation
-/

namespace ControlScript

/-- A sequence of statements. Each statement comes with the statements after it. -/
inductive Script where
  | done
  | action (a : Action) (rest : Script)
  | breakLoop (rest : Script)
  | continueLoop (rest : Script)
  | ifThen (holds : Condition) (body rest : Script)
  | ifElse (holds : Condition) (body other rest : Script)
  | whileLoop (holds : Condition) (body rest : Script)
  | foreverLoop (body rest : Script)
  | doUntil (body : Script) (holds : Condition) (rest : Script)
deriving DecidableEq, Repr

namespace Script

/-- The number of labels that are set apart for a script: two for each block. -/
def labels : Script → Nat
  | done => 0
  | action _ rest | breakLoop rest | continueLoop rest => rest.labels
  | ifThen _ body rest | whileLoop _ body rest | foreverLoop body rest | doUntil body _ rest =>
    2 + body.labels + rest.labels
  | ifElse _ body other rest => 2 + body.labels + other.labels + rest.labels

/-- The code for a script. `next` is the first label that may be used, and `top` is the label at
the top of the loop that the script stands in; the label after `top` is behind that loop. -/
def code (next top : Nat) : Script → List Instruction
  | done => []
  | action a rest => a.code ++ rest.code next top
  | breakLoop rest => .jump (top + 1) :: rest.code next top
  | continueLoop rest => .jump top :: rest.code next top
  | ifThen holds body rest =>
    .jumpUnless holds next ::
      (body.code (next + 2) top ++ .declare next :: rest.code (next + 2 + body.labels) top)
  | ifElse holds body other rest =>
    .jumpUnless holds next ::
      (body.code (next + 2) top ++ .jump (next + 1) :: .declare next ::
        (other.code (next + 2 + body.labels) top ++ .declare (next + 1) ::
          rest.code (next + 2 + body.labels + other.labels) top))
  | whileLoop holds body rest =>
    .declare next :: .jumpUnless holds (next + 1) ::
      (body.code (next + 2) next ++ .jump next :: .declare (next + 1) ::
        rest.code (next + 2 + body.labels) top)
  | foreverLoop body rest =>
    .declare next ::
      (body.code (next + 2) next ++ .jump next :: .declare (next + 1) ::
        rest.code (next + 2 + body.labels) top)
  | doUntil body holds rest =>
    .declare next ::
      (body.code (next + 2) next ++ .jumpUnless holds next :: .declare (next + 1) ::
        rest.code (next + 2 + body.labels) top)

end Script

/-- Lines that form a script at an indentation, below `depth` open blocks. The lines of a block
are indented more than the line that opens it, and all alike; the word that closes a block may be
left out where the indentation says as much. -/
inductive Forms (limit : Nat) : (depth : Nat) → (inLoop : Bool) → (indent : Nat) →
    List Line → Script → Prop where
  | done {depth : Nat} {inLoop : Bool} {indent : Nat} : Forms limit depth inLoop indent [] .done
  | action {depth : Nat} {inLoop : Bool} {indent : Nat} {lines : List Line} {rest : Script}
      {a : Action} (stored : a.isRemote = false)
      (later : Forms limit depth inLoop indent lines rest) :
      Forms limit depth inLoop indent ({ indent, sentence := .action a } :: lines) (.action a rest)
  | breakLoop {depth : Nat} {indent : Nat} {lines : List Line} {rest : Script}
      (later : Forms limit depth true indent lines rest) :
      Forms limit depth true indent ({ indent, sentence := .breakLoop } :: lines) (.breakLoop rest)
  | continueLoop {depth : Nat} {indent : Nat} {lines : List Line} {rest : Script}
      (later : Forms limit depth true indent lines rest) :
      Forms limit depth true indent ({ indent, sentence := .continueLoop } :: lines)
        (.continueLoop rest)
  | ifThen {depth : Nat} {inLoop : Bool} {indent inner : Nat} {first closing lines : List Line}
      {holds : Condition} {body rest : Script} (room : depth < limit) (deeper : indent < inner)
      (nonempty : first ≠ []) (formed : Forms limit (depth + 1) inLoop inner first body)
      (closed : closing = [] ∨ closing = [{ indent, sentence := .endif }])
      (later : Forms limit depth inLoop indent lines rest) :
      Forms limit depth inLoop indent
        ({ indent, sentence := .ifThen holds } :: (first ++ (closing ++ lines)))
        (.ifThen holds body rest)
  | ifElse {depth : Nat} {inLoop : Bool} {indent inner within : Nat}
      {first second closing lines : List Line} {holds : Condition} {body other rest : Script}
      (room : depth < limit) (deeper : indent < inner) (nonempty : first ≠ [])
      (formed : Forms limit (depth + 1) inLoop inner first body) (deeper' : indent < within)
      (nonempty' : second ≠ []) (formed' : Forms limit (depth + 1) inLoop within second other)
      (closed : closing = [] ∨ closing = [{ indent, sentence := .endif }])
      (later : Forms limit depth inLoop indent lines rest) :
      Forms limit depth inLoop indent
        ({ indent, sentence := .ifThen holds } :: (first ++ { indent, sentence := .elseThen } ::
          (second ++ (closing ++ lines))))
        (.ifElse holds body other rest)
  | whileLoop {depth : Nat} {inLoop : Bool} {indent inner : Nat} {first closing lines : List Line}
      {holds : Condition} {body rest : Script} (room : depth < limit) (deeper : indent < inner)
      (nonempty : first ≠ []) (formed : Forms limit (depth + 1) true inner first body)
      (closed : closing = [] ∨ closing = [{ indent, sentence := .endwhile }])
      (later : Forms limit depth inLoop indent lines rest) :
      Forms limit depth inLoop indent
        ({ indent, sentence := .whileLoop holds } :: (first ++ (closing ++ lines)))
        (.whileLoop holds body rest)
  | foreverLoop {depth : Nat} {inLoop : Bool} {indent inner : Nat}
      {first closing lines : List Line} {body rest : Script} (room : depth < limit)
      (deeper : indent < inner) (nonempty : first ≠ [])
      (formed : Forms limit (depth + 1) true inner first body)
      (closed : closing = [] ∨ closing = [{ indent, sentence := .endwhile }])
      (later : Forms limit depth inLoop indent lines rest) :
      Forms limit depth inLoop indent
        ({ indent, sentence := .forever } :: (first ++ (closing ++ lines)))
        (.foreverLoop body rest)
  /-- A loop that `do` opens is closed by `forever`; left open, it is not followed by one. -/
  | doForever {depth : Nat} {inLoop : Bool} {indent inner : Nat}
      {first closing lines : List Line} {body rest : Script} (room : depth < limit)
      (deeper : indent < inner) (nonempty : first ≠ [])
      (formed : Forms limit (depth + 1) true inner first body)
      (closed : closing = [] ∧ (∀ l ∈ lines.head?, l.sentence ≠ .forever) ∨
        closing = [{ indent, sentence := .forever }])
      (later : Forms limit depth inLoop indent lines rest) :
      Forms limit depth inLoop indent
        ({ indent, sentence := .doLoop } :: (first ++ (closing ++ lines)))
        (.foreverLoop body rest)
  | doUntil {depth : Nat} {inLoop : Bool} {indent inner : Nat} {first lines : List Line}
      {holds : Condition} {body rest : Script} (room : depth < limit) (deeper : indent < inner)
      (nonempty : first ≠ []) (formed : Forms limit (depth + 1) true inner first body)
      (later : Forms limit depth inLoop indent lines rest) :
      Forms limit depth inLoop indent
        ({ indent, sentence := .doLoop } :: (first ++ { indent, sentence := .untilTrue holds } ::
          lines))
        (.doUntil body holds rest)

/-- The instructions for a sentence that may stand in a program have a property, jumps and
declarations apart. -/
def Sentence.Makes (P : Instruction → Prop) : Sentence → Prop
  | .action a => a.isRemote = false → ∀ i ∈ a.code, P i
  | .ifThen holds | .whileLoop holds | .untilTrue holds => ∀ label, P (.jumpUnless holds label)
  | _ => True

namespace Forms

variable {limit depth indent : Nat} {inLoop : Bool} {lines : List Line} {script : Script}

/-- What holds of the instructions for each sentence of a script, and of jumps and declarations,
holds of the code for the script. -/
theorem forall_mem_code {P : Instruction → Prop} (jump : ∀ label, P (.jump label))
    (declare : ∀ label, P (.declare label)) (formed : Forms limit depth inLoop indent lines script)
    (said : ∀ l ∈ lines, l.sentence.Makes P) (next top : Nat) :
    ∀ i ∈ script.code next top, P i := by
  induction formed generalizing next top with
  | done => exact List.forall_mem_nil _
  | action stored _ ih =>
    simp only [Script.code, List.forall_mem_cons, List.forall_mem_append] at said ⊢
    exact ⟨said.1 stored, ih said.2 _ _⟩
  | breakLoop _ ih | continueLoop _ ih =>
    simp only [Script.code, List.forall_mem_cons] at said ⊢
    exact ⟨jump _, ih said.2 _ _⟩
  | ifThen _ _ _ _ _ _ ih ih' =>
    simp only [Script.code, List.forall_mem_cons, List.forall_mem_append] at said ⊢
    obtain ⟨holds, inBody, -, later⟩ := said
    exact ⟨holds _, ih inBody _ _, declare _, ih' later _ _⟩
  | ifElse _ _ _ _ _ _ _ _ _ ih ih' ih'' =>
    simp only [Script.code, List.forall_mem_cons, List.forall_mem_append] at said ⊢
    obtain ⟨holds, inBody, -, inOther, -, later⟩ := said
    exact ⟨holds _, ih inBody _ _, jump _, declare _, ih' inOther _ _, declare _,
      ih'' later _ _⟩
  | whileLoop _ _ _ _ _ _ ih ih' =>
    simp only [Script.code, List.forall_mem_cons, List.forall_mem_append] at said ⊢
    obtain ⟨holds, inBody, -, later⟩ := said
    exact ⟨declare _, holds _, ih inBody _ _, jump _, declare _, ih' later _ _⟩
  | foreverLoop _ _ _ _ _ _ ih ih' | doForever _ _ _ _ _ _ ih ih' =>
    simp only [Script.code, List.forall_mem_cons, List.forall_mem_append] at said ⊢
    obtain ⟨-, inBody, -, later⟩ := said
    exact ⟨declare _, ih inBody _ _, jump _, declare _, ih' later _ _⟩
  | doUntil _ _ _ _ _ ih ih' =>
    simp only [Script.code, List.forall_mem_cons, List.forall_mem_append] at said ⊢
    obtain ⟨-, inBody, holds, later⟩ := said
    exact ⟨declare _, ih inBody _ _, holds _, declare _, ih' later _ _⟩

end Forms

end ControlScript
