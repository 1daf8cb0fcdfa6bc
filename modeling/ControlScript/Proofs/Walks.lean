import ControlScript.Proofs.Declarations

/-!
# Walking through a program

A program is executed by fetching one statement after the other. The walk loses nothing: whatever a
region holds, the statements that are fetched lie one behind the other, from its first byte to the
end of the program, and the walk ends there. Each of them goes on as far as it can, to the next
`Byte.statementEnd` or else to the end of the program. How much of a statement is asked for decides
what is copied, and nothing about where the next one starts.

## Main definitions

* `Store.Span` — a statement that was fetched, and the offset that it was fetched from
* `Store.Walk` — fetching up to where there is nothing
* `Store.Tiles` — spans that cover a range without a gap
* `Store.IsPieceOf` — a span that goes on as far as it can, with what was copied of it

## Main results

* `Store.isSome_fetch?_iff`, `Store.next_le_capacity` — where there is a statement, and how far it
  reaches
* `Store.isPieceOf_of_fetch?`, `Store.exists_walk` — one statement, and the walk from any of them
* `Store.walk_tiles_program` — the walk through a program
-/

namespace ControlScript.Store

variable {s : Store} {limit offset last : Nat} {fetched : Fetched}

/-- A statement that was fetched, with the offset that it was fetched from. -/
structure Span where
  start : Nat
  fetched : Fetched
deriving DecidableEq, Repr

/-- Fetching statement after statement, from an offset up to one where there is nothing. -/
inductive Walk (s : Store) (limit : Nat) : Nat → List Span → Nat → Prop
  | stop {offset : Nat} (ended : s.fetch? offset limit = none) : Walk s limit offset [] offset
  | step {offset last : Nat} {fetched : Fetched} {spans : List Span}
    (found : s.fetch? offset limit = some fetched) (later : Walk s limit fetched.next spans last) :
    Walk s limit offset ({ start := offset, fetched } :: spans) last

/-- The spans lie one behind the other, without a gap, from the first offset to the last one. -/
def Tiles (first : Nat) : List Span → Nat → Prop
  | [], last => first = last
  | span :: spans, last =>
    span.start = first ∧ first < span.fetched.next ∧ Tiles span.fetched.next spans last

/-- The bytes of the program that a span takes up. -/
def bytesOf (s : Store) (span : Span) : Bytes :=
  (s.program.drop span.start).take (span.fetched.next - span.start)

/-- A span goes on to the byte that ends its statement, and only the last one may lack that byte. Of
what stands in front of it, as much has been copied as was asked for. -/
structure IsPieceOf (s : Store) (limit : Nat) (span : Span) (body : Bytes) : Prop where
  bytes : s.bytesOf span = body ++ [Byte.statementEnd] ∨
    s.bytesOf span = body ∧ body ≠ [] ∧ span.fetched.next = s.length
  inside : Byte.statementEnd ∉ body
  text : span.fetched.text = body.take limit
  truncated : span.fetched.truncated = true ↔ limit < body.length

/-! ### One statement -/

/-- A statement takes up bytes of the region only. -/
theorem span_le_length (rest : Bytes) : span rest ≤ rest.length := by
  induction rest with
  | nil => exact Nat.le_refl 0
  | cons b rest ih =>
    rw [span_cons, List.length_cons]
    split
    · exact Nat.zero_le _
    · split
      · exact Nat.le_add_left 1 _
      · exact Nat.succ_le_succ ih

/-- There is a statement at every byte of the region but those that end a program. -/
theorem isSome_fetch?_iff (s : Store) (offset limit : Nat) :
    (s.fetch? offset limit).isSome ↔
      offset < s.capacity ∧ s.byteAt offset ≠ Byte.programEnd := by
  have first : (s.region.drop offset).headD Byte.programEnd = s.byteAt offset := by
    rw [List.headD_eq_head?_getD, List.head?_drop, byteAt, List.getD_eq_getElem?_getD]
  rw [Option.isSome_iff_ne_none, Ne, fetch?_eq_none_iff, first]
  constructor
  · intro present
    -- Past the end of the region there is nothing but the end of the program.
    refine ⟨Nat.lt_of_not_le fun outside => present ?_, present⟩
    rw [byteAt, List.getD_eq_getElem?_getD, List.getElem?_eq_none outside, Option.getD_none]
  · exact fun inside => inside.2

/-- A statement does not reach past the end of the region. -/
theorem next_le_capacity (found : s.fetch? offset limit = some fetched) :
    fetched.next ≤ s.capacity := by
  have start := (lt_next_of_fetch? found).1
  have reach := span_le_length (s.region.drop offset)
  rw [List.length_drop] at reach
  rw [fetch?_next found]
  unfold capacity at start ⊢
  omega

/-- How much of a statement is asked for makes no difference to where the next one starts. -/
theorem map_next_fetch? (s : Store) (offset limit limit' : Nat) :
    (s.fetch? offset limit).map (·.next) = (s.fetch? offset limit').map (·.next) := by
  unfold fetch?
  dsimp only
  split <;> rfl

/-- What is fetched from an offset of the program is a piece of it. -/
theorem isPieceOf_of_fetch? (le : offset ≤ s.length)
    (found : s.fetch? offset limit = some fetched) :
    ∃ body, s.IsPieceOf limit { start := offset, fetched } body := by
  rw [fetch?_of_le le] at found
  obtain ⟨rest, rest_eq⟩ : ∃ rest, rest = s.program.drop offset := ⟨_, rfl⟩
  have remaining : offset + rest.length = s.length := by
    rw [rest_eq, List.length_drop]
    exact Nat.add_sub_cancel' le
  rw [← rest_eq] at found
  dsimp only at found
  split at found
  · cases found
  next present =>
  cases found
  obtain ⟨body, body_eq⟩ : ∃ body, body = rest.takeWhile (· != Byte.statementEnd) := ⟨_, rfl⟩
  have inside : Byte.statementEnd ∉ body := by
    intro member
    rw [body_eq] at member
    simpa using List.mem_takeWhile_imp member
  have split : rest = body ++ rest.dropWhile (· != Byte.statementEnd) := by
    rw [body_eq, List.takeWhile_append_dropWhile]
  rw [← body_eq]
  refine ⟨body, ?_, inside, rfl, decide_eq_true_iff⟩
  unfold bytesOf
  dsimp only
  rw [← rest_eq, Nat.add_assoc, Nat.add_sub_cancel_left]
  -- Behind the body stands the byte that ends it, unless the program ends there.
  cases behind : rest.dropWhile (· != Byte.statementEnd) with
  | nil =>
    rw [behind, List.append_nil] at split
    have short : ¬body.length < rest.length := by rw [split]; exact Nat.lt_irrefl _
    rw [if_neg short, ← split, Nat.add_zero, List.take_length]
    exact .inr ⟨rfl, present, remaining⟩
  | cons b tail =>
    have ends := List.head?_dropWhile_not (· != Byte.statementEnd) rest
    rw [behind] at ends split
    obtain rfl : b = Byte.statementEnd := by simpa using ends
    have longer : body.length < rest.length := by
      rw [split, List.length_append, List.length_cons]
      omega
    rw [if_pos longer, split, List.take_length_add_append]
    exact .inl rfl

/-! ### Statement after statement -/

/-- A walk covers what it goes over. -/
theorem Walk.tiles {spans : List Span} (walk : s.Walk limit offset spans last) :
    Tiles offset spans last := by
  induction walk with
  | stop => rfl
  | step found _ ih => exact ⟨rfl, (lt_next_of_fetch? found).2, ih⟩

/-- From any offset of the program the walk comes to its end, piece by piece. The induction is on
what is left of the region. -/
theorem exists_walk (limit : Nat) (le : offset ≤ s.length) :
    ∃ spans, s.Walk limit offset spans s.length ∧
      ∀ span ∈ spans, ∃ body, s.IsPieceOf limit span body := by
  induction offset using startsFrom.induct s limit with
  | case1 offset nothing =>
    -- Inside the program there would be a statement.
    have ended : s.program.drop offset = [] := by
      by_contra present
      simp [fetch?_of_le le, present] at nothing
    have here : offset = s.length := Nat.le_antisymm le (List.drop_eq_nil_iff.mp ended)
    exact ⟨[], here ▸ .stop nothing, List.forall_mem_nil _⟩
  | case2 offset fetched found ih =>
    obtain ⟨spans, walk, pieces⟩ := ih (next_le_length le found)
    exact ⟨_, .step found walk, List.forall_mem_cons.mpr ⟨isPieceOf_of_fetch? le found, pieces⟩⟩

/-- Fetching statement after statement from the start of a region comes to the end of the program.
What is fetched covers the program without a gap, and each statement goes on as far as it can. Where
the next one starts does not depend on how much is asked for. From any other offset something is
fetched, and a part of the region passed, unless the region or a program ends there. -/
theorem walk_tiles_program (s : Store) (limit : Nat) :
    (∃ spans, s.Walk limit 0 spans s.length ∧ Tiles 0 spans s.length ∧
      ∀ span ∈ spans, ∃ body, s.IsPieceOf limit span body) ∧
    (∀ offset limit', (s.fetch? offset limit').map (·.next) =
      (s.fetch? offset limit).map (·.next)) ∧
    ∀ offset,
      ((s.fetch? offset limit).isSome ↔
        offset < s.capacity ∧ s.byteAt offset ≠ Byte.programEnd) ∧
      ∀ fetched ∈ s.fetch? offset limit, offset < fetched.next ∧ fetched.next ≤ s.capacity := by
  refine ⟨?_, fun offset limit' => s.map_next_fetch? offset limit' limit, fun offset => ?_⟩
  · obtain ⟨spans, walk, pieces⟩ := exists_walk (s := s) limit (Nat.zero_le _)
    exact ⟨spans, walk, walk.tiles, pieces⟩
  · refine ⟨s.isSome_fetch?_iff offset limit, ?_⟩
    intro fetched found
    exact ⟨(lt_next_of_fetch? found).2, next_le_capacity found⟩

end ControlScript.Store
