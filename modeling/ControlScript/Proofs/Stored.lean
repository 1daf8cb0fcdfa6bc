import ControlScript.Proofs.Labels
import ControlScript.Store.LabelSearch

/-!
# Stored programs

A stored program is read by offsets: a statement is fetched from an offset, and a jump searches
the program from its start. This file says what both find in a program that consists of the
statements of given instructions.

## Main definitions

* `Instruction.IsFree` — an instruction that is no raw statement about control
* `Instruction.opcode?` — the opcode of a statement that is not raw

## Main results

* `Store.fetch?_statement`, `Store.fetch?_length` — the statement at an offset, and the end
* `Store.findLabel?_declare` — a label is found where it is declared
-/

namespace ControlScript

open Bytes

/-- Bytes of a statement do not end the program or the statement. -/
theorem Byte.ne_of_not_isControl {b : UInt8} (plain : isControl b = false) :
    b ≠ programEnd ∧ b ≠ statementEnd := by
  constructor <;> (rintro rfl; exact absurd plain (by decide))

theorem Byte.statementEnd_ne_programEnd : statementEnd ≠ programEnd := by decide

namespace Store

variable {s : Store}

/-- A region is the program and, unless that fills it, what stands after the end of the program. -/
theorem exists_region_eq (s : Store) :
    ∃ rest, s.region = s.program ++ rest ∧ rest.headD Byte.programEnd = Byte.programEnd := by
  refine ⟨s.region.dropWhile (· != Byte.programEnd), List.takeWhile_append_dropWhile.symm, ?_⟩
  have ended := head?_dropWhile (· != Byte.programEnd) s.region
  cases rest : s.region.dropWhile (· != Byte.programEnd) with
  | nil => rfl
  | cons b rest => simpa [rest] using ended

/-- The statement at an offset is fetched from there. -/
theorem fetch?_statement {before text after : Bytes} (limit : Nat)
    (stored : s.program = before ++ (text ++ Byte.statementEnd :: after))
    (plain : ∀ b ∈ text, Byte.isControl b = false) :
    s.fetch? before.length limit = some {
      next := before.length + text.length + 1
      truncated := limit < text.length
      text := text.take limit } := by
  obtain ⟨rest, region, -⟩ := exists_region_eq s
  have remaining : s.region.drop before.length =
      text ++ Byte.statementEnd :: (after ++ rest) := by
    rw [region, stored, List.append_assoc, List.drop_left]
    simp
  have body : (text ++ Byte.statementEnd :: (after ++ rest)).takeWhile
      (fun b => b != Byte.programEnd && b != Byte.statementEnd) = text := by
    refine (takeWhile_append_of_ends (fun b member => ?_) (by simp)).1
    have apart := Byte.ne_of_not_isControl (plain b member)
    simp [apart]
  have present : (text ++ Byte.statementEnd :: (after ++ rest)).headD Byte.programEnd ≠
      Byte.programEnd := by
    cases text with
    | nil => exact Byte.statementEnd_ne_programEnd
    | cons b text => simpa using (Byte.ne_of_not_isControl (plain b List.mem_cons_self)).1
  simp only [fetch?, remaining, body, if_neg present]
  simp

/-- Behind the program there is no statement. -/
theorem fetch?_length (s : Store) (limit : Nat) : s.fetch? s.program.length limit = none := by
  obtain ⟨rest, region, ended⟩ := exists_region_eq s
  have remaining : s.region.drop s.program.length = rest := by
    have dropped := congrArg (List.drop s.program.length) region
    rwa [List.drop_left] at dropped
  simp only [fetch?, remaining, if_pos ended]

/-- Whether a text starts with the label `label`, and with no longer one. -/
theorem startsWith_label_iff {label name rest : Bytes}
    (isLabel : ∀ b ∈ label, Byte.isNameChar b = true)
    (isName : ∀ b ∈ name, Byte.isNameChar b = true) (ends : Ends rest) :
    (startsWith label (name ++ rest) &&
        !Byte.isNameChar (((name ++ rest).drop label.length).headD Byte.programEnd)) = true ↔
      label = name := by
  have outside : Byte.isNameChar (rest.headD Byte.programEnd) = false := by
    cases rest with
    | nil => decide
    | cons b rest => exact ends b rfl
  -- The induction is on the label; the name is cut along with it.
  induction label generalizing name with
  | nil =>
    cases name with
    | nil =>
      rw [List.headD_eq_head?_getD] at outside
      simp [startsWith, outside]
    | cons b name => simp [startsWith, isName b List.mem_cons_self]
  | cons p label ih =>
    have labelled := isLabel p List.mem_cons_self
    cases name with
    | nil =>
      have apart : rest.headD 0 ≠ p := by
        rintro rfl
        rw [outside] at labelled
        cases labelled
      rw [List.headD_eq_head?_getD] at apart
      simp [startsWith, apart]
    | cons b name =>
      have isName' : ∀ c ∈ name, Byte.isNameChar c = true :=
        fun c member => isName c (List.mem_cons_of_mem b member)
      have later := ih (fun c member => isLabel c (List.mem_cons_of_mem p member)) isName'
      simp only [Bool.and_eq_true, Bool.not_eq_true'] at later
      rw [Bool.and_eq_true, Bool.not_eq_true', List.cons_append, startsWith, List.headD_cons,
        List.tail_cons, List.length_cons, List.drop_succ_cons, Bool.and_eq_true, beq_iff_eq,
        and_assoc, List.cons.injEq, eq_comm (a := b)]
      exact and_congr_right fun _ => later

/-- Only a statement that declares a label starts with a declaration. -/
theorem ofStatement?_of_declares {label text : Bytes} (declared : declares label text = true) :
    Opcode.ofStatement? text = some .label := by
  simp only [declares, Bool.and_eq_true, beq_iff_eq] at declared
  obtain ⟨⟨letters, -⟩, -⟩ := declared
  rw [show Opcode.label.code = [0x43, 0x4C] by decide] at letters
  match text with
  | [] | [b] => exact absurd (congrArg List.length letters) (by simp)
  | b :: c :: text =>
    simp only [List.length_cons, List.length_nil, List.take_succ_cons, List.take_zero, upper,
      List.map_cons, List.map_nil, List.cons.injEq, and_true] at letters
    have category : Category.ofByte? b = some .control := by
      rw [Category.ofByte?, letters.1]
      rfl
    have named : Opcode.lettered.find? (·.code == [0x43, 0x4C]) = some .label := by decide
    change Opcode.ofPair? b (some c) = some .label
    unfold Opcode.ofPair?
    rw [category]
    change Opcode.lettered.find? (·.code == [Byte.upper b, Byte.upper c]) = some .label
    rw [letters.1, letters.2]
    exact named

/-- A search goes on behind the statement that it stands in. -/
theorem searchLabel_inside (label : Bytes) (offset : Nat) {text : Bytes} (rest : Bytes)
    (plain : ∀ b ∈ text, Byte.isControl b = false) :
    searchLabel label offset false (text ++ Byte.statementEnd :: rest) =
      searchLabel label (offset + text.length + 1) true rest := by
  induction text generalizing offset with
  | nil => simp [searchLabel, Byte.statementEnd_ne_programEnd]
  | cons b text ih =>
    have apart := Byte.ne_of_not_isControl (plain b List.mem_cons_self)
    rw [List.cons_append, searchLabel, if_neg apart.1, Bool.false_and, if_neg (by simp),
      show (b == Byte.statementEnd) = false by simpa using apart.2,
      ih (offset + 1) fun c member => plain c (List.mem_cons_of_mem b member), List.length_cons,
      show offset + 1 + text.length + 1 = offset + (text.length + 1) + 1 by omega]

/-- A search passes over a statement that does not declare the label. -/
theorem searchLabel_statement {label : Bytes} (offset : Nat) {text : Bytes} (rest : Bytes)
    (plain : ∀ b ∈ text, Byte.isControl b = false)
    (other : declares label (text ++ Byte.statementEnd :: rest) = false) :
    searchLabel label offset true (text ++ Byte.statementEnd :: rest) =
      searchLabel label (offset + text.length + 1) true rest := by
  cases text with
  | nil =>
    rw [List.nil_append] at other ⊢
    simp [searchLabel, other, Byte.statementEnd_ne_programEnd]
  | cons b text =>
    have apart := Byte.ne_of_not_isControl (plain b List.mem_cons_self)
    rw [List.cons_append] at other ⊢
    rw [searchLabel, if_neg apart.1, other, Bool.and_false, if_neg (by simp),
      show (b == Byte.statementEnd) = false by simpa using apart.2,
      searchLabel_inside label (offset + 1) rest fun c member =>
        plain c (List.mem_cons_of_mem b member), List.length_cons,
      show offset + 1 + text.length + 1 = offset + (text.length + 1) + 1 by omega]

end Store

namespace Instruction

theorem encode_cons (i : Instruction) (code : List Instruction) :
    encode (i :: code) = i.text ++ Byte.statementEnd :: encode code := by
  simp [encode]

@[simp] theorem encode_nil : encode [] = [] := rfl

theorem length_encode_cons (i : Instruction) (code : List Instruction) :
    (encode (i :: code)).length = i.text.length + 1 + (encode code).length := by
  rw [encode_cons, List.length_append, List.length_cons]
  omega

/-- A raw statement that is not about control. -/
def IsFree : Instruction → Prop
  | .raw statement => statement.head?.any (Byte.spells 'C') = false
  | _ => True

/-- The opcode of an instruction that is not a raw statement. -/
def opcode? : Instruction → Option Opcode
  | .declare _ => some .label
  | .jump _ => some .jump
  | .jumpUnless _ _ => some .jumpIfFalse
  | .delay _ => some .delay
  | .setVariable _ _ => some .setVariable
  | .clearVariables => some .clearVariables
  | .writeText _ => some .writeText
  | .writeValue _ => some .writeValue
  | .writeLine => some .writeLine
  | .beginDownload => some .beginDownload
  | .endDownload => some .endDownload
  | .abortDownload => some .abortDownload
  | .start => some .start
  | .halt => some .halt
  | .raw _ => none

/-- The statement of an instruction has the opcode of the instruction. -/
theorem ofStatement?_text {i : Instruction} {op : Opcode} (named : i.opcode? = some op)
    (rest : Bytes) : Opcode.ofStatement? (i.text ++ rest) = some op := by
  cases i <;> cases named <;> simp only [text, List.append_assoc] <;>
    exact Opcode.ofStatement?_code_append _ _

/-- The opcode of an instruction is that of its statement. -/
theorem ofStatement?_of_opcode? {i : Instruction} {op : Opcode} (named : i.opcode? = some op) :
    Opcode.ofStatement? i.text = some op := by
  rw [← ofStatement?_text named [], List.append_nil]

/-- The arguments of a statement stand behind its letters. -/
theorem drop_code (op : Opcode) (two : op.code.length = 2) (args : Bytes) :
    (op.code ++ args).drop 2 = args := by
  rw [← two, List.drop_left]

/-- The first letter of an opcode starts its statements. -/
theorem upper_head_of_ofStatement? {b : UInt8} {text : Bytes} {op : Opcode}
    (named : Opcode.ofStatement? (b :: text) = some op) : op.code.head? = some (Byte.upper b) := by
  have hash : ∀ n < 256, Category.ofByte? (UInt8.ofNat n) = some .comment →
      Byte.upper (UInt8.ofNat n) = 0x23 := by decide +kernel
  change Opcode.ofPair? b text.head? = some op at named
  unfold Opcode.ofPair? at named
  split at named
  · cases named
  · next isComment =>
    cases named
    have spelled := hash b.toNat b.toNat_lt
    rw [UInt8.ofNat_toNat] at spelled
    rw [spelled isComment]
    rfl
  · cases named
  · have letters := List.find?_some named
    rw [beq_iff_eq] at letters
    rw [letters]
    rfl

/-- The opcode of a statement that does not start with a letter does not start with it either. -/
theorem head?_code_ne {letter : Char} {statement rest : Bytes} {op : Opcode}
    (nonempty : statement ≠ []) (free : statement.head?.any (Byte.spells letter) = false)
    (named : Opcode.ofStatement? (statement ++ rest) = some op) :
    op.code.head? ≠ some letter.toUInt8 := by
  obtain ⟨b, tail, rfl⟩ := List.exists_cons_of_ne_nil nonempty
  have first := upper_head_of_ofStatement? named
  intro capital
  rw [capital, Option.some.injEq] at first
  rw [List.head?_cons, Option.any_some, Byte.spells, ← first] at free
  simp at free

theorem head?_code_of_control {op : Opcode} (control : op.category = .control) :
    op.code.head? = some 'C'.toUInt8 := by
  cases op <;> first | rfl | cases control

theorem head?_code_of_remote {op : Opcode} (remote : op.category = .remote) :
    op.code.head? = some 'R'.toUInt8 := by
  cases op <;> first | rfl | cases remote

/-- A search for a label stops only where the label is declared. -/
theorem declares_text {i : Instruction} (proper : i.Proper) (free : i.IsFree) (label : Nat)
    (rest : Bytes) :
    Store.declares (labelBytes label) (i.text ++ Byte.statementEnd :: rest) = true ↔
      i = .declare label := by
  have ends : Ends (Byte.statementEnd :: rest) := ends_cons (by decide)
  cases i with
  | declare other =>
    have letters : upper (Opcode.label.code ++
        (labelBytes other ++ Byte.statementEnd :: rest) |>.take 2) = Opcode.label.code := by
      rw [show 2 = Opcode.label.code.length by decide, List.take_left]
      decide
    have drop : (Opcode.label.code ++ (labelBytes other ++ Byte.statementEnd :: rest)).drop 2 =
        labelBytes other ++ Byte.statementEnd :: rest := drop_code _ (by decide) _
    have said := Store.startsWith_label_iff (isName_labelBytes label).isNameChar
      (isName_labelBytes other).isNameChar ends
    rw [text, List.append_assoc]
    simp only [Store.declares, show Opcode.label.code.length = 2 by decide, drop, letters,
      beq_self_eq_true, Bool.true_and, said, declare.injEq]
    exact ⟨fun same => (labelBytes_injective same).symm, fun same => by rw [same]⟩
  | raw statement =>
    refine ⟨fun declared => ?_, fun same => by cases same⟩
    have named := Store.ofStatement?_of_declares declared
    exact absurd (head?_code_of_control rfl) (head?_code_ne proper.1 free named)
  | jump | jumpUnless | delay | setVariable | clearVariables | writeText | writeValue | writeLine
  | beginDownload | endDownload | abortDownload | start | halt =>
    refine ⟨fun declared => ?_, fun same => by cases same⟩
    have named := Store.ofStatement?_of_declares declared
    rw [ofStatement?_text rfl] at named
    cases named

end Instruction

namespace Store

open Instruction

/-- A label is found at the statement that declares it, if only that one does. -/
theorem findLabel?_declare {s : Store} {label : Nat} {before after : List Instruction}
    (stored : s.program = encode (before ++ .declare label :: after))
    (proper : ∀ i ∈ before, i.Proper) (free : ∀ i ∈ before, i.IsFree)
    (first : label ∉ declared before) :
    s.findLabel? (labelBytes label) = some (encode before).length := by
  -- For every offset and every rest, because the search moves on in both.
  have search : ∀ (offset : Nat) (rest : Bytes), searchLabel (labelBytes label) offset true
      (encode (before ++ .declare label :: after) ++ rest) =
        some (offset + (encode before).length) := by
    clear stored
    induction before with
    | nil =>
      intro offset rest
      have declared := (declares_text (i := .declare label) trivial trivial label
        (encode after ++ rest)).mpr rfl
      rw [List.nil_append, encode_cons, List.append_assoc, List.cons_append]
      obtain ⟨b, tail, spelled⟩ := List.exists_cons_of_ne_nil
        (Proper.text_ne_nil (i := .declare label) trivial)
      have apart := Byte.ne_of_not_isControl
        (Proper.plain (i := .declare label) trivial b (by simp [spelled]))
      rw [spelled, List.cons_append] at declared ⊢
      simp [searchLabel, apart.1, declared]
    | cons i before ih =>
      intro offset rest
      have other : declares (labelBytes label) (i.text ++ Byte.statementEnd ::
          (encode (before ++ .declare label :: after) ++ rest)) = false := by
        rw [Bool.eq_false_iff]
        intro declared
        rw [declares_text (proper i List.mem_cons_self) (free i List.mem_cons_self)] at declared
        exact first (by simp [declared])
      have later : label ∉ declared before := by
        intro found
        refine first ?_
        simp only [declared, List.filterMap_cons] at found ⊢
        split
        · exact found
        · exact List.mem_cons_of_mem _ found
      rw [List.cons_append, encode_cons, List.append_assoc, List.cons_append,
        searchLabel_statement offset _ (proper i List.mem_cons_self).plain other,
        ih (fun j member => proper j (List.mem_cons_of_mem i member))
          (fun j member => free j (List.mem_cons_of_mem i member)) later, length_encode_cons]
      congr 1
      omega
  obtain ⟨rest, region, -⟩ := exists_region_eq s
  have named : (labelBytes label).isEmpty = false := by rw [labelBytes_eq]; rfl
  rw [findLabel?, named, region, stored, search 0 rest, Nat.zero_add]
  rfl

end Store

end ControlScript
