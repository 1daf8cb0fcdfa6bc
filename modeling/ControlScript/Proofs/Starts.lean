import ControlScript.Proofs.Stored

/-!
# Where statements start

The statements of a stored program are found by fetching one after the other from the start of the
region. The offsets that this comes to are the only ones at which a statement may be taken up:
those where a statement starts, and the end of the program. Whatever bytes a region holds, a search
for a label ends at one of them.

## Main definitions

* `Store.IsStart` — the offsets that fetching comes to

## Main results

* `Store.fetch?_of_le` — what is fetched, in terms of the program
* `Store.IsStart.le_length` — no start is behind the end of the program
* `Store.isStart_of_findLabel?` — a label is found at a start
-/

namespace ControlScript

/-- The members of a class at the beginning of a list, from some place among them on. -/
theorem drop_takeWhile_of_le {α : Type} {p : α → Bool} {l : List α} {place : Nat}
    (le : place ≤ (l.takeWhile p).length) :
    (l.takeWhile p).drop place = (l.drop place).takeWhile p := by
  induction l generalizing place with
  | nil => simp
  | cons a l ih =>
    cases place with
    | zero => rfl
    | succ place =>
      by_cases member : p a = true
      · rw [List.takeWhile_cons_of_pos member] at le ⊢
        exact ih (Nat.le_of_succ_le_succ le)
      · simp [List.takeWhile_cons_of_neg member] at le

namespace Store

variable {s t : Store} {offset : Nat} {fetched : Fetched}

/-- The offsets that fetching statement after statement from the start of the region comes to. How
much of a statement is asked for makes no difference. -/
inductive IsStart (s : Store) : Nat → Prop
  | base : IsStart s 0
  | next {offset limit : Nat} {fetched : Fetched} (start : IsStart s offset)
    (found : s.fetch? offset limit = some fetched) : IsStart s fetched.next

/-- What is left of the program at one of its offsets. -/
theorem drop_program (le : offset ≤ s.length) :
    s.program.drop offset = (s.region.drop offset).takeWhile (· != Byte.programEnd) :=
  drop_takeWhile_of_le le

/-- Behind the body of the first statement of a text stands its end, unless the program ends there. -/
theorem getElem?_body_iff (text : Bytes) :
    let program := text.takeWhile (· != Byte.programEnd)
    let body := program.takeWhile (· != Byte.statementEnd)
    text[body.length]? = some Byte.statementEnd ↔ body.length < program.length := by
  induction text with
  | nil => simp
  | cons b text ih =>
    by_cases last : b = Byte.programEnd
    · subst last
      simpa using Byte.statementEnd_ne_programEnd.symm
    · by_cases closes : b = Byte.statementEnd
      · subst closes
        simp [last]
      · simpa [last, closes] using ih

/-- The statement at an offset of the program goes on to the next `Byte.statementEnd`, or else to
the end of the program. -/
theorem fetch?_of_le (le : offset ≤ s.length) (limit : Nat) :
    s.fetch? offset limit =
      let rest := s.program.drop offset
      let body := rest.takeWhile (· != Byte.statementEnd)
      if rest = [] then none
      else some {
        next := offset + body.length + if body.length < rest.length then 1 else 0
        truncated := limit < body.length
        text := body.take limit } := by
  rw [drop_program le]
  obtain ⟨region, region_eq⟩ : ∃ region, s.region.drop offset = region := ⟨_, rfl⟩
  have both : region.takeWhile (fun b => b != Byte.programEnd && b != Byte.statementEnd) =
      (region.takeWhile (· != Byte.programEnd)).takeWhile (· != Byte.statementEnd) := by
    rw [List.takeWhile_takeWhile]
    congr 1
    funext b
    simp only [Bool.and_comm, Bool.decide_and, Bool.decide_eq_true]
  have ended : region.headD Byte.programEnd = Byte.programEnd ↔
      region.takeWhile (· != Byte.programEnd) = [] := by
    cases region with
    | nil => simp
    | cons b region => by_cases last : b = Byte.programEnd <;> simp [last]
  simp only [fetch?, region_eq, both, getElem?_body_iff region, ended]

/-- A statement that is fetched is not behind the end of the program. -/
theorem next_le_length (le : offset ≤ s.length) {limit : Nat}
    (found : s.fetch? offset limit = some fetched) : fetched.next ≤ s.length := by
  have inside : (s.program.drop offset).length + offset = s.length := by
    rw [List.length_drop]
    exact Nat.sub_add_cancel le
  have body := (List.takeWhile_prefix (l := s.program.drop offset)
    (· != Byte.statementEnd)).length_le
  rw [fetch?_of_le le] at found
  dsimp only at found
  split at found
  · cases found
  · cases found
    dsimp only
    split <;> omega

/-- No start is behind the end of the program. -/
theorem IsStart.le_length (start : s.IsStart offset) : offset ≤ s.length := by
  induction start with
  | base => exact Nat.zero_le _
  | next _ found ih => exact next_le_length ih found

/-- The statement that goes on at an offset ends, if it ends, in front of a start. -/
def Leads (s : Store) (offset : Nat) : Prop :=
  ∀ text rest, s.region.drop offset = text ++ Byte.statementEnd :: rest →
    (∀ b ∈ text, b ≠ Byte.programEnd ∧ b ≠ Byte.statementEnd) → s.IsStart (offset + text.length + 1)

theorem IsStart.leads (start : s.IsStart offset) : s.Leads offset := by
  intro text rest region inside
  have body : (text ++ Byte.statementEnd :: rest).takeWhile
      (fun b => b != Byte.programEnd && b != Byte.statementEnd) = text := by
    refine (takeWhile_append_of_ends (fun b member => ?_) (by simp)).1
    simp [inside b member]
  have present : (text ++ Byte.statementEnd :: rest).headD Byte.programEnd ≠ Byte.programEnd := by
    cases text with
    | nil => exact Byte.statementEnd_ne_programEnd
    | cons b text => exact (inside b List.mem_cons_self).1
  have found : s.fetch? offset 0 = some {
      next := offset + text.length + 1
      truncated := 0 < text.length
      text := text.take 0 } := by
    simp only [fetch?, region, body, if_neg present]
    simp
  exact .next start found

/-- A byte inside a statement leads where the next one does. -/
theorem Leads.succ (leads : s.Leads offset) {b : UInt8} {rest : Bytes}
    (region : s.region.drop offset = b :: rest) (inside : b ≠ Byte.programEnd)
    (goesOn : b ≠ Byte.statementEnd) : s.Leads (offset + 1) := by
  intro text later region' inside'
  have whole : s.region.drop offset = (b :: text) ++ Byte.statementEnd :: later := by
    rw [List.cons_append, ← region', region, ← List.drop_drop, region]
    rfl
  have started := leads (b :: text) later whole (List.forall_mem_cons.mpr ⟨⟨inside, goesOn⟩, inside'⟩)
  rwa [List.length_cons, Nat.add_right_comm offset, ← Nat.add_assoc] at started

/-- A search for a label that stands at a start, or inside a statement, ends at a start. -/
theorem isStart_of_searchLabel {label : Bytes} {found : Nat} {atStart : Bool} {rest : Bytes}
    (region : s.region.drop offset = rest) (start : atStart = true → s.IsStart offset)
    (leads : s.Leads offset) (search : searchLabel label offset atStart rest = some found) :
    s.IsStart found := by
  induction rest generalizing offset atStart with
  | nil => cases search
  | cons b rest ih =>
    have region' : s.region.drop (offset + 1) = rest := by
      rw [← List.drop_drop, region]
      rfl
    simp only [searchLabel] at search
    split at search
    · cases search
    next inside =>
    split at search
    · next declared =>
      cases search
      simp only [Bool.and_eq_true] at declared
      exact start declared.1
    · by_cases closes : b = Byte.statementEnd
      · have next : s.IsStart (offset + 1) :=
          leads [] rest (by rw [region, closes]; rfl) (List.forall_mem_nil _)
        exact ih region' (fun _ => next) next.leads search
      · refine ih region' (fun atStart => ?_) (leads.succ region inside closes) search
        simp [closes] at atStart

/-- A label is found at a start. -/
theorem isStart_of_findLabel? {label : Bytes} {found : Nat}
    (search : s.findLabel? label = some found) : s.IsStart found := by
  unfold findLabel? at search
  split at search
  · cases search
  · exact isStart_of_searchLabel rfl (fun _ => .base) IsStart.base.leads search

end Store

end ControlScript
