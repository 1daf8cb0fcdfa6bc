import ControlScript.Proofs.Listing
import ControlScript.Proofs.Starts
import Mathlib.Order.Bounds.Basic

/-!
# Declarations

A program is executed by fetching one statement after the other, and a jump looks for its label by
walking through the region byte by byte. The two go over the same bytes in different ways. They come
to the same statements, whatever the region holds and whether its program is ended or fills it, so
that a jump goes to the first statement that declares its label and to no place inside another.

## Main definitions

* `Store.starts` — where the statements start that are fetched one after the other
* `Store.visited` — where a search for a label looks for its declaration
* `Store.DeclaresAt` — the statement at an offset declares a label

## Main results

* `Store.mem_starts_iff` — statements start where fetching comes to and finds one
* `Store.visited_eq_starts` — a search looks where the statements start
* `Store.declares_iff` — what a declaration looks like in the program
* `Store.findLabel?_isLeast` — what a search finds, and what is fetched there
-/

namespace ControlScript

open Bytes

/-- A byte that spells a letter is a name character. -/
theorem Byte.isNameChar_of_spells {letter : Char} (capital : isUpper letter.toUInt8 = true)
    {b : UInt8} (spelled : spells letter b = true) : isNameChar b = true := by
  rw [spells, upper, beq_iff_eq] at spelled
  by_cases small : isLower b = true
  · simp [isNameChar, isLetter, small]
  · rw [if_neg small] at spelled
    simp [isNameChar, isLetter, spelled, capital]

/-- A name character is a byte of a statement. -/
theorem Byte.ne_of_isNameChar {b : UInt8} (member : isNameChar b = true) :
    b ≠ programEnd ∧ b ≠ statementEnd :=
  ne_of_not_isControl (isControl_of_isNameChar member)

namespace Store

variable {s : Store} {offset limit : Nat} {fetched : Fetched} {label : Bytes}

/-! ### Two ways through a region -/

/-- Where the statements start that are fetched one after the other, from an offset on. -/
def startsFrom (s : Store) (limit offset : Nat) : List Nat :=
  match _found : s.fetch? offset limit with
  | none => []
  | some fetched => offset :: s.startsFrom limit fetched.next
termination_by s.capacity - offset
decreasing_by
  have taken := lt_next_of_fetch? _found
  omega

theorem startsFrom_of_none (nothing : s.fetch? offset limit = none) :
    s.startsFrom limit offset = [] := by
  rw [startsFrom, nothing]

theorem startsFrom_of_some (found : s.fetch? offset limit = some fetched) :
    s.startsFrom limit offset = offset :: s.startsFrom limit fetched.next := by
  rw [startsFrom, found]

/-- Where the statements start that are fetched one after the other, `limit` bytes of each at
most. -/
def starts (s : Store) (limit : Nat) : List Nat := s.startsFrom limit 0

/-- Where a walk through the rest of a region looks for a declaration. `atStart` tells whether a
statement starts here. -/
def visits (offset : Nat) (atStart : Bool) : Bytes → List Nat
  | [] => []
  | b :: rest =>
    if b = Byte.programEnd then []
    else
      let later := visits (offset + 1) (b == Byte.statementEnd) rest
      if atStart then offset :: later else later

/-- Where a search for a label looks for its declaration. -/
def visited (s : Store) : List Nat := visits 0 true s.region

/-- A search takes the first of the places it looks at where the label is declared. -/
theorem searchLabel_eq_find? {atStart : Bool} {rest : Bytes}
    (region : s.region.drop offset = rest) :
    searchLabel label offset atStart rest =
      (visits offset atStart rest).find? fun place => declares label (s.region.drop place) := by
  induction rest generalizing offset atStart with
  | nil => rfl
  | cons b rest ih =>
    have region' : s.region.drop (offset + 1) = rest := by
      rw [← List.drop_drop, region]
      rfl
    rw [searchLabel, visits]
    by_cases ended : b = Byte.programEnd
    · rw [if_pos ended, if_pos ended]
      rfl
    rw [if_neg ended, if_neg ended, ih region']
    cases atStart with
    | false => rfl
    | true =>
      by_cases declared : declares label (b :: rest) = true <;>
        simp [region, declared]

/-- How many bytes of the rest of a region the statement there takes up, with the byte that ends
it. -/
def span (rest : Bytes) : Nat :=
  let body := rest.takeWhile fun b => b != Byte.programEnd && b != Byte.statementEnd
  body.length + if rest[body.length]? = some Byte.statementEnd then 1 else 0

theorem span_cons (b : UInt8) (rest : Bytes) :
    span (b :: rest) =
      if b = Byte.programEnd then 0 else if b = Byte.statementEnd then 1 else span rest + 1 := by
  by_cases ended : b = Byte.programEnd
  · simp [span, ended, Byte.statementEnd_ne_programEnd.symm]
  by_cases closes : b = Byte.statementEnd
  · simp [span, closes, Byte.statementEnd_ne_programEnd]
  · simp [span, ended, closes, Nat.add_right_comm]

/-- The next statement is fetched from behind what this one takes up. -/
theorem fetch?_next (found : s.fetch? offset limit = some fetched) :
    fetched.next = offset + span (s.region.drop offset) := by
  unfold fetch? at found
  dsimp only at found
  split at found
  · cases found
  · cases found
    exact Nat.add_assoc _ _ _

/-- There is nothing to be fetched exactly where the program ends. -/
theorem fetch?_eq_none_iff :
    s.fetch? offset limit = none ↔
      (s.region.drop offset).headD Byte.programEnd = Byte.programEnd := by
  simp only [fetch?]
  split <;> simp_all

theorem headD_ne_of_fetch? (found : s.fetch? offset limit = some fetched) :
    (s.region.drop offset).headD Byte.programEnd ≠ Byte.programEnd := fun ended =>
  Option.some_ne_none fetched (found.symm.trans (fetch?_eq_none_iff.mpr ended))

/-- A walk that is not at a start comes to the next one where the statement has been passed. -/
theorem visits_false (offset : Nat) (rest : Bytes) :
    visits offset false rest = visits (offset + span rest) true (rest.drop (span rest)) := by
  induction rest generalizing offset with
  | nil => rfl
  | cons b rest ih =>
    by_cases ended : b = Byte.programEnd
    · simp [visits, span_cons, ended]
    by_cases closes : b = Byte.statementEnd
    · simp [visits, span_cons, closes, Byte.statementEnd_ne_programEnd]
    · rw [visits, if_neg ended, span_cons, if_neg ended, if_neg closes, List.drop_succ_cons,
        ← Nat.add_assoc, Nat.add_right_comm, ← ih (offset + 1), beq_false_of_ne closes]
      rfl

/-- A walk that is at a start notes it and goes on as one that is not. -/
theorem visits_true_cons {b : UInt8} (present : b ≠ Byte.programEnd) (offset : Nat) (rest : Bytes) :
    visits offset true (b :: rest) = offset :: visits offset false (b :: rest) := by
  rw [visits, if_neg present, visits, if_neg present]
  rfl

/-- From a start on, the walk and fetching come to the same places. -/
theorem visits_eq_startsFrom (s : Store) (limit offset : Nat) :
    visits offset true (s.region.drop offset) = s.startsFrom limit offset := by
  induction offset using startsFrom.induct s limit with
  | case1 offset nothing =>
    have ended := fetch?_eq_none_iff.mp nothing
    rw [startsFrom_of_none nothing]
    cases rest : s.region.drop offset with
    | nil => rfl
    | cons b region =>
      rw [rest, List.headD_cons] at ended
      rw [visits, if_pos ended]
  | case2 offset fetched found ih =>
    have present := headD_ne_of_fetch? found
    rw [startsFrom_of_some found, ← ih, fetch?_next found, ← List.drop_drop, ← visits_false]
    cases rest : s.region.drop offset with
    | nil => simp [rest] at present
    | cons b region =>
      rw [rest, List.headD_cons] at present
      exact visits_true_cons present offset region

/-- A search looks for a declaration where the statements start. -/
theorem visited_eq_starts (s : Store) (limit : Nat) : s.visited = s.starts limit :=
  visits_eq_startsFrom s limit 0

/-! ### The places where statements start -/

/-- Fetching comes to no place in front of the one that it sets out from. -/
theorem le_of_mem_startsFrom {place : Nat} (member : place ∈ s.startsFrom limit offset) :
    offset ≤ place := by
  induction offset using startsFrom.induct s limit with
  | case1 offset nothing => simp [startsFrom_of_none nothing] at member
  | case2 offset fetched found ih =>
    rw [startsFrom_of_some found, List.mem_cons] at member
    rcases member with here | later
    · exact here.ge
    · exact (lt_next_of_fetch? found).2.le.trans (ih later)

/-- Statements start one behind the other. -/
theorem pairwise_startsFrom (s : Store) (limit offset : Nat) :
    (s.startsFrom limit offset).Pairwise (· < ·) := by
  induction offset using startsFrom.induct s limit with
  | case1 offset nothing => simp [startsFrom_of_none nothing]
  | case2 offset fetched found ih =>
    rw [startsFrom_of_some found]
    refine List.pairwise_cons.mpr ⟨fun place later => ?_, ih⟩
    exact (lt_next_of_fetch? found).2.trans_le (le_of_mem_startsFrom later)

/-- Where fetching comes to, it goes on from there. -/
theorem IsStart.exists_starts_eq (start : s.IsStart offset) (limit : Nat) :
    ∃ before, s.starts limit = before ++ s.startsFrom limit offset := by
  induction start with
  | base => exact ⟨[], rfl⟩
  | @next offset _ fetched _ found ih =>
    obtain ⟨before, split⟩ := ih
    -- How much of the statement is asked for does not change where the next one starts.
    obtain ⟨again, found'⟩ : ∃ again, s.fetch? offset limit = some again := by
      rw [← Option.ne_none_iff_exists', Ne, fetch?_eq_none_iff]
      exact headD_ne_of_fetch? found
    have same : again.next = fetched.next := (fetch?_next found').trans (fetch?_next found).symm
    refine ⟨before ++ [offset], ?_⟩
    rw [split, startsFrom_of_some found', same, List.append_assoc]
    rfl

/-- Statements start where fetching comes to and finds one. -/
theorem mem_starts_iff :
    offset ∈ s.starts limit ↔ s.IsStart offset ∧ s.fetch? offset limit ≠ none := by
  constructor
  · suffices later : ∀ first, s.IsStart first → offset ∈ s.startsFrom limit first →
        s.IsStart offset ∧ s.fetch? offset limit ≠ none from later 0 .base
    intro first start member
    induction first using startsFrom.induct s limit with
    | case1 first nothing => simp [startsFrom_of_none nothing] at member
    | case2 first fetched found ih =>
      rw [startsFrom_of_some found, List.mem_cons] at member
      rcases member with rfl | later
      · exact ⟨start, found ▸ Option.some_ne_none fetched⟩
      · exact ih (start.next found) later
  · rintro ⟨start, present⟩
    obtain ⟨before, split⟩ := start.exists_starts_eq limit
    obtain ⟨fetched, found⟩ := Option.ne_none_iff_exists'.mp present
    rw [split, startsFrom_of_some found]
    exact List.mem_append_right before List.mem_cons_self

/-! ### What a declaration is -/

/-- The statement that starts at an offset declares a label: it holds the letters `CL`, in either
case, and the label, behind which no name character stands. -/
structure DeclaresAt (s : Store) (label : Bytes) (offset : Nat) : Prop where
  start : s.IsStart offset
  spelled : ∃ c l after, s.program.drop offset = c :: l :: (label ++ after) ∧
    Byte.spells 'C' c = true ∧ Byte.spells 'L' l = true ∧ Ends after

/-- A text starts with a run of members of a class, which goes no further, exactly if these are what
is found there. -/
theorem eq_takeWhile_iff {isMember : UInt8 → Bool} {run text : Bytes}
    (inside : ∀ b ∈ run, isMember b = true) :
    run = text.takeWhile isMember ↔
      ∃ after, text = run ++ after ∧ ∀ b ∈ after.head?, isMember b = false := by
  constructor
  · intro same
    refine ⟨text.dropWhile isMember, ?_, head?_dropWhile isMember text⟩
    rw [same, List.takeWhile_append_dropWhile]
  · rintro ⟨after, rfl, outside⟩
    exact (takeWhile_append_of_ends inside outside).1.symm

/-- What a declaration looks like in a region: the label is all of the name behind the letters. -/
theorem declares_iff_name {region : Bytes} (name : ∀ b ∈ label, Byte.isNameChar b = true) :
    declares label region = true ↔ ∃ c l rest, region = c :: l :: rest ∧
      Byte.spells 'C' c = true ∧ Byte.spells 'L' l = true ∧
        label = rest.takeWhile Byte.isNameChar := by
  match region with
  | [] | [b] => simp [declares, upper, show Opcode.label.code = [0x43, 0x4C] by decide]
  | c :: l :: rest =>
    have said := startsWith_label_iff name (fun b => List.mem_takeWhile_imp (l := rest))
      (head?_dropWhile Byte.isNameChar rest)
    rw [List.takeWhile_append_dropWhile, Bool.and_eq_true] at said
    have letters : Opcode.label.code = ['C'.toUInt8, 'L'.toUInt8] := by decide
    simp only [declares, letters, List.length_cons, List.length_nil, List.take_succ_cons,
      List.take_zero, List.drop_succ_cons, List.drop_zero, upper, List.map_cons, List.map_nil,
      Bool.and_eq_true, beq_iff_eq, List.cons.injEq, and_true, and_assoc, said, Byte.spells]
    constructor
    · rintro ⟨first, second, whole⟩
      exact ⟨c, l, rest, rfl, rfl, rfl, first, second, whole⟩
    · rintro ⟨_, _, _, rfl, rfl, rfl, first, second, whole⟩
      exact ⟨first, second, whole⟩

/-- What a declaration looks like in the program, which is what stands in front of the first
`Byte.programEnd` of a region. -/
theorem declares_iff {region : Bytes} (name : ∀ b ∈ label, Byte.isNameChar b = true) :
    declares label region = true ↔
      ∃ c l after, region.takeWhile (· != Byte.programEnd) = c :: l :: (label ++ after) ∧
        Byte.spells 'C' c = true ∧ Byte.spells 'L' l = true ∧ Ends after := by
  -- No name goes on behind the end of the program.
  have within (rest : Bytes) : (rest.takeWhile (· != Byte.programEnd)).takeWhile Byte.isNameChar =
      rest.takeWhile Byte.isNameChar := by
    rw [List.takeWhile_takeWhile]
    congr 1
    funext b
    by_cases member : Byte.isNameChar b = true <;>
      simp [member, (Byte.ne_of_isNameChar · |>.1)]
  -- The letters stand in the program, and so does what is behind them.
  have letters {c l : UInt8} (first : Byte.spells 'C' c = true) (second : Byte.spells 'L' l = true)
      (rest : Bytes) : (c :: l :: rest).takeWhile (· != Byte.programEnd) =
        c :: l :: rest.takeWhile (· != Byte.programEnd) := by
    have present := (Byte.ne_of_isNameChar (Byte.isNameChar_of_spells (by decide) first)).1
    have present' := (Byte.ne_of_isNameChar (Byte.isNameChar_of_spells (by decide) second)).1
    simp [present, present']
  rw [declares_iff_name name]
  constructor
  · rintro ⟨c, l, rest, rfl, first, second, whole⟩
    rw [← within, eq_takeWhile_iff name] at whole
    obtain ⟨after, split, ends⟩ := whole
    exact ⟨c, l, after, by rw [letters first second, split], first, second, ends⟩
  · rintro ⟨c, l, after, split, first, second, ends⟩
    have whole : region = c :: l :: (label ++ after ++
        region.dropWhile (· != Byte.programEnd)) := by
      rw [← List.cons_append, ← List.cons_append, ← split, List.takeWhile_append_dropWhile]
    refine ⟨c, l, _, whole, first, second, ?_⟩
    rw [whole, letters first second, List.cons.injEq, List.cons.injEq] at split
    rw [← within, eq_takeWhile_iff name]
    exact ⟨after, split.2.2, ends⟩

/-- The first of some numbers in order that has a property is the least that does. -/
theorem find?_eq_some_iff_isLeast {places : List Nat} (ordered : places.Pairwise (· < ·))
    (has : Nat → Bool) (place : Nat) :
    places.find? has = some place ↔ IsLeast {o | o ∈ places ∧ has o = true} place := by
  induction places with
  | nil => simp [IsLeast]
  | cons first places ih =>
    obtain ⟨behind, ordered⟩ := List.pairwise_cons.mp ordered
    by_cases here : has first = true
    · have least : IsLeast {o | o ∈ first :: places ∧ has o = true} first := by
        refine ⟨⟨List.mem_cons_self, here⟩, fun o member => ?_⟩
        rcases List.mem_cons.mp member.1 with rfl | later
        · exact le_rfl
        · exact (behind o later).le
      rw [List.find?_cons_of_pos here, Option.some.injEq]
      exact ⟨fun same => same ▸ least, least.unique⟩
    · have others : {o | o ∈ first :: places ∧ has o = true} = {o | o ∈ places ∧ has o = true} := by
        ext o
        simp only [Set.mem_ofPred_eq, List.mem_cons]
        grind
      rw [List.find?_cons_of_neg here, others]
      exact ih ordered

/-- A search looks for the places where the label is declared. -/
theorem declaresAt_iff (name : ∀ b ∈ label, Byte.isNameChar b = true) (limit : Nat) :
    s.DeclaresAt label offset ↔
      offset ∈ s.starts limit ∧ declares label (s.region.drop offset) = true := by
  rw [declares_iff name, mem_starts_iff]
  constructor
  · rintro ⟨start, spelled⟩
    rw [drop_program start.le_length] at spelled
    refine ⟨⟨start, fun nothing => ?_⟩, spelled⟩
    -- Where nothing can be fetched, nothing is left of the program.
    obtain ⟨c, l, after, split, -⟩ := spelled
    have ended := fetch?_eq_none_iff.mp nothing
    cases rest : s.region.drop offset with
    | nil => simp [rest] at split
    | cons b region =>
      rw [rest, List.headD_cons] at ended
      simp [rest, ended] at split
  · rintro ⟨⟨start, -⟩, spelled⟩
    rw [← drop_program start.le_length] at spelled
    exact ⟨start, spelled⟩

/-- What is fetched where a label is declared. -/
theorem DeclaresAt.exists_fetch?_eq (declared : s.DeclaresAt label offset)
    (name : ∀ b ∈ label, Byte.isNameChar b = true) (room : 2 + label.length ≤ limit) :
    ∃ fetched c l more, s.fetch? offset limit = some fetched ∧
      fetched.text = c :: l :: (label ++ more) ∧
        Byte.spells 'C' c = true ∧ Byte.spells 'L' l = true := by
  obtain ⟨start, c, l, after, split, first, second, -⟩ := declared
  have inside : ∀ b ∈ c :: l :: label, (b != Byte.statementEnd) = true := by
    have named : ∀ b ∈ c :: l :: label, Byte.isNameChar b = true :=
      List.forall_mem_cons.mpr ⟨Byte.isNameChar_of_spells (by decide) first,
        List.forall_mem_cons.mpr ⟨Byte.isNameChar_of_spells (by decide) second, name⟩⟩
    exact fun b member => bne_iff_ne.mpr (Byte.ne_of_isNameChar (named b member)).2
  have found := fetch?_of_le start.le_length limit
  rw [split, if_neg (List.cons_ne_nil c _), ← List.cons_append, ← List.cons_append,
    List.takeWhile_append_of_pos inside, List.take_append] at found
  have kept : (c :: l :: label).take limit = c :: l :: label := by
    apply List.take_of_length_le
    simp only [List.length_cons]
    omega
  rw [kept] at found
  exact ⟨_, c, l, _, found, rfl, first, second⟩

/-- A search finds the first statement that declares a label, and it finds one if there is any. It
looks where the statements start that are fetched one after the other; from where it finds the
label, a statement is fetched that starts with its declaration. -/
theorem findLabel?_isLeast (s : Store) {label : Bytes} (nonempty : label ≠ [])
    (name : ∀ b ∈ label, Byte.isNameChar b = true) :
    (∀ offset, s.findLabel? label = some offset ↔ IsLeast {o | s.DeclaresAt label o} offset) ∧
    (s.findLabel? label = none ↔ ∀ offset, ¬ s.DeclaresAt label offset) ∧
    (s.findLabel? label = s.visited.find? fun offset => declares label (s.region.drop offset)) ∧
    (∀ limit, s.visited = s.starts limit) ∧
    ∀ offset limit, s.findLabel? label = some offset → 2 + label.length ≤ limit →
      ∃ fetched c l more, s.fetch? offset limit = some fetched ∧
        fetched.text = c :: l :: (label ++ more) ∧
          Byte.spells 'C' c = true ∧ Byte.spells 'L' l = true := by
  have search : s.findLabel? label =
      s.visited.find? fun offset => declares label (s.region.drop offset) := by
    rw [findLabel?, if_neg (by simpa using nonempty)]
    exact searchLabel_eq_find? rfl
  have least (offset : Nat) :
      s.findLabel? label = some offset ↔ IsLeast {o | s.DeclaresAt label o} offset := by
    simp only [search, visited_eq_starts s 0, declaresAt_iff name 0]
    exact find?_eq_some_iff_isLeast (pairwise_startsFrom s 0 0) _ offset
  refine ⟨least, ?_, search, visited_eq_starts s, fun offset limit found room => ?_⟩
  · rw [search, visited_eq_starts s 0, List.find?_eq_none]
    simp only [declaresAt_iff name 0, not_and]
  · exact ((least offset).mp found).1.exists_fetch?_eq name room

/-- In a region that `CLl10`, `WL` and `CLl1` fill, the label `l1` is found at the last of them. -/
theorem findLabel?_isLeast_of_filled :
    let s : Store := {
      region := [0x43, 0x4C, 0x6C, 0x31, 0x30, 0x0D, 0x57, 0x4C, 0x0D, 0x43, 0x4C, 0x6C, 0x31]
      valid := true }
    let label : Bytes := [0x6C, 0x31]
    label ≠ [] ∧ (∀ b ∈ label, Byte.isNameChar b = true) ∧
      IsLeast {o | s.DeclaresAt label o} 9 ∧ s.starts 4 = [0, 6, 9] ∧
        ∃ fetched c l more, s.fetch? 9 4 = some fetched ∧
          fetched.text = c :: l :: (label ++ more) := by
  intro s label
  have nonempty : label ≠ [] := by decide
  have name : ∀ b ∈ label, Byte.isNameChar b = true := List.all_eq_true.mp (by decide)
  have found : s.findLabel? label = some 9 := by decide
  obtain ⟨least, -, -, same, fetched⟩ := findLabel?_isLeast s nonempty name
  obtain ⟨last, c, l, more, taken, text, -⟩ := fetched 9 4 found (by decide)
  have visited : s.visited = [0, 6, 9] := by decide
  exact ⟨nonempty, name, (least 9).mp found, (same 4).symm.trans visited, last, c, l, more, taken,
    text⟩

end Store

end ControlScript
