import ControlScript.Proofs.Stored
import Mathlib.Data.List.Induction

/-!
# Streams of statements

A stream of statements is cut into lines. Control bytes do not count, except the one that ends a
statement; so a line is what counts between two of these. Of the lines of a download, those that
are empty or start with `R` do not become part of the program.

## Main definitions

* `Bytes.sift` — the bytes of a stream that count
* `Bytes.lines` — the lines of a stream, the last of which is still to be ended
* `Bytes.content` — the part of some lines that belongs to a program
* `Bytes.kept` — the part of a stream that belongs to a program

## Main results

* `Bytes.lines_concat`, `Bytes.kept_concat` — a stream with one more byte
* `Bytes.exists_lines_eq` — where a line of a stream begins
-/

namespace ControlScript

/-- Whether a byte of a stream counts. -/
def Byte.counts (b : UInt8) : Bool := !Byte.isControl b || b == Byte.statementEnd

namespace Bytes

/-- The bytes of a stream that count. -/
def sift (stream : Bytes) : Bytes := stream.filter Byte.counts

/-- The lines of a stream. The last one has not been ended. -/
def lines (stream : Bytes) : List Bytes := stream.sift.splitOn Byte.statementEnd

/-- Whether a line is meant for the machine that stores a program, and not for the program. -/
def isRemote (line : Bytes) : Bool := line.head?.any (Byte.spells 'R')

/-- Whether a line becomes part of a program. -/
def isStored (line : Bytes) : Bool := !line.isEmpty && !line.isRemote

/-- The part of some lines that belongs to a program. -/
def content (lines : List Bytes) : Bytes :=
  (lines.filter isStored).flatMap (· ++ [Byte.statementEnd])

/-- The part of a stream that belongs to a program. -/
def kept (stream : Bytes) : Bytes :=
  content stream.lines.dropLast ++
    if (stream.lines.getLastD []).isRemote then [] else stream.lines.getLastD []

/-- Whether a byte belongs to a program, behind the beginning of a line. -/
def keeps (line : Bytes) (b : UInt8) : Bool :=
  Byte.counts b && !(line ++ [b]).isRemote && !(line.isEmpty && b == Byte.statementEnd)

/-- The part of a line that has been read after one more byte of a stream. -/
def following (line : Bytes) (b : UInt8) : Bytes :=
  if Byte.counts b then if b = Byte.statementEnd then [] else line ++ [b] else line

variable {stream line : Bytes} {done : List Bytes} {b : UInt8}

theorem not_isRemote_nil : isRemote [] = false := rfl

theorem content_append (before after : List Bytes) :
    content (before ++ after) = content before ++ content after := by
  simp [content]

theorem lines_nil : lines [] = [[]] := rfl

theorem lines_ne_nil (stream : Bytes) : stream.lines ≠ [] := List.splitOn_ne_nil _ _

/-- A stream has a last line, which is still open. -/
theorem exists_lines_eq_concat (stream : Bytes) : ∃ done line, stream.lines = done ++ [line] := by
  rcases List.eq_nil_or_concat stream.lines with nothing | ⟨done, line, cut⟩
  · exact absurd nothing stream.lines_ne_nil
  · exact ⟨done, line, cut.trans (List.concat_eq_append ..)⟩

theorem kept_of_lines (cut : stream.lines = done ++ [line]) :
    stream.kept = content done ++ if line.isRemote then [] else line := by
  simp [kept, cut]

theorem lines_cons (b : UInt8) (stream : Bytes) :
    lines (b :: stream) =
      if Byte.counts b then
        if b = Byte.statementEnd then [] :: stream.lines else stream.lines.modifyHead (b :: ·)
      else stream.lines := by
  by_cases counts : Byte.counts b = true
  · simp [lines, sift, counts, List.splitOn_cons_eq_if_modifyHead]
  · simp [lines, sift, counts]

/-- A piece that is not ended yet goes on with one more member. -/
theorem splitOn_concat_of_ne {α : Type} [BEq α] [LawfulBEq α] {separator a : α} {l : List α}
    {before : List (List α)} {last : List α} (apart : a ≠ separator)
    (cut : l.splitOn separator = before ++ [last]) :
    (l ++ [a]).splitOn separator = before ++ [last ++ [a]] := by
  induction l generalizing before last with
  | nil =>
    obtain ⟨rfl, same⟩ := List.append_inj' (show [] ++ [[]] = before ++ [last] from cut) rfl
    obtain rfl : [] = last := by simpa using same
    simp [List.splitOn_cons_eq_if_modifyHead, apart]
  | cons c l ih =>
    obtain ⟨before', last', cut'⟩ : ∃ before' last', l.splitOn separator = before' ++ [last'] := by
      rcases List.eq_nil_or_concat (l.splitOn separator) with nothing | ⟨before', last', cut'⟩
      · exact absurd nothing (List.splitOn_ne_nil _ _)
      · exact ⟨before', last', cut'.trans (List.concat_eq_append ..)⟩
    rw [List.splitOn_cons_eq_if_modifyHead, cut'] at cut
    rw [List.cons_append, List.splitOn_cons_eq_if_modifyHead, ih cut']
    split at cut
    · next ends =>
      obtain ⟨rfl, same⟩ := List.append_inj' (show ([] :: before') ++ [last'] = before ++ [last] from cut) rfl
      obtain rfl : last' = last := by simpa using same
      rw [if_pos ends]
      rfl
    · next ends =>
      rw [if_neg ends]
      cases before' with
      | nil =>
        obtain ⟨rfl, same⟩ := List.append_inj' (show [] ++ [c :: last'] = before ++ [last] from cut) rfl
        obtain rfl : c :: last' = last := by simpa using same
        rfl
      | cons piece before' =>
        obtain ⟨rfl, same⟩ := List.append_inj'
          (show ((c :: piece) :: before') ++ [last'] = before ++ [last] from cut) rfl
        obtain rfl : last' = last := by simpa using same
        rfl

/-- The lines of a stream with one more byte. -/
theorem lines_concat (cut : stream.lines = done ++ [line]) (b : UInt8) :
    lines (stream ++ [b]) =
      if Byte.counts b then
        if b = Byte.statementEnd then done ++ [line, []] else done ++ [line ++ [b]]
      else done ++ [line] := by
  rw [lines, sift, List.filter_append]
  split
  · next counts =>
    rw [List.filter_cons_of_pos counts, List.filter_nil]
    split
    · next ends =>
      rw [ends, List.splitOn_append_cons_self]
      exact (congrArg (· ++ [[]]) cut).trans (List.append_assoc ..)
    · next goesOn => exact splitOn_concat_of_ne goesOn cut
  · next dropped =>
    rw [List.filter_cons_of_neg dropped, List.filter_nil, List.append_nil]
    exact cut

theorem exists_lines_concat (cut : stream.lines = done ++ [line]) (b : UInt8) :
    ∃ others, lines (stream ++ [b]) = others ++ [line.following b] := by
  rw [lines_concat cut, following]
  split
  · split
    · exact ⟨done ++ [line], by simp⟩
    · exact ⟨done, rfl⟩
  · exact ⟨done, rfl⟩

/-- Behind the end of a line, the next one is empty. -/
theorem getLast?_lines_concat (stream : Bytes) :
    (lines (stream ++ [Byte.statementEnd])).getLast? = some [] := by
  obtain ⟨done, line, cut⟩ := exists_lines_eq_concat stream
  rw [lines_concat cut, if_pos (by decide), if_pos rfl]
  simp

/-- The first byte of a line tells whether the line is stored. -/
theorem isRemote_append (nonempty : line ≠ []) (more : Bytes) :
    (line ++ more).isRemote = line.isRemote := by
  obtain ⟨b, line, rfl⟩ := List.exists_cons_of_ne_nil nonempty
  rfl

/-- What belongs to a program grows by the bytes that belong to it, one at a time. -/
theorem kept_concat (cut : stream.lines = done ++ [line]) (b : UInt8) :
    kept (stream ++ [b]) = stream.kept ++ if keeps line b then [b] else [] := by
  have before := kept_of_lines cut
  have after := lines_concat cut b
  by_cases counts : Byte.counts b = true
  · by_cases ends : b = Byte.statementEnd
    · rw [if_pos counts, if_pos ends] at after
      have own : isRemote [Byte.statementEnd] = false := by decide
      have ended : lines (stream ++ [b]) = (done ++ [line]) ++ [[]] := by simp [after]
      rw [kept_of_lines ended, before, content_append]
      cases line with
      | nil => simp [keeps, ends, not_isRemote_nil, content, isStored]
      | cons c line =>
        have same := isRemote_append (List.cons_ne_nil c line) [b]
        rw [List.cons_append] at same
        subst ends
        cases remote : isRemote (c :: line) <;>
          simp [keeps, counts, remote, same, not_isRemote_nil, content, isStored]
    · rw [if_pos counts, if_neg ends] at after
      rw [kept_of_lines after, before]
      cases line with
      | nil => cases remote : isRemote [b] <;> simp [keeps, counts, ends, remote]
      | cons c line =>
        have same := isRemote_append (List.cons_ne_nil c line) [b]
        rw [List.cons_append] at same
        cases remote : isRemote (c :: line) <;> simp [keeps, counts, same, remote]
  · rw [if_neg counts] at after
    simp [kept_of_lines after, before, keeps, counts]

/-- Only bytes that count become part of a program. -/
theorem ne_programEnd_of_mem_kept (member : b ∈ stream.kept) : b ≠ Byte.programEnd := by
  induction stream using List.reverseRecOn with
  | nil => cases member
  | append_singleton stream c ih =>
    obtain ⟨done, line, cut⟩ := exists_lines_eq_concat stream
    rw [kept_concat cut] at member
    rcases List.mem_append.mp member with earlier | last
    · exact ih earlier
    · split at last
      · next keeps =>
        obtain rfl := List.mem_singleton.mp last
        rintro rfl
        exact absurd keeps (by simp [Bytes.keeps, show Byte.counts Byte.programEnd = false by decide])
      · cases last

/-- A program is no longer than the stream that it comes from. -/
theorem length_kept_le (stream : Bytes) : stream.kept.length ≤ stream.length := by
  induction stream using List.reverseRecOn with
  | nil => exact Nat.le_refl 0
  | append_singleton stream b ih =>
    obtain ⟨done, line, cut⟩ := exists_lines_eq_concat stream
    rw [kept_concat cut, List.length_append, List.length_append, List.length_singleton]
    split <;> simp <;> omega

/-- No line has a control byte. -/
theorem plain_of_mem_lines (member : line ∈ stream.lines) : ∀ b ∈ line, Byte.isControl b = false := by
  induction stream using List.reverseRecOn generalizing line with
  | nil =>
    obtain rfl : line = [] := by simpa [lines_nil] using member
    exact List.forall_mem_nil _
  | append_singleton stream c ih =>
    obtain ⟨done, last, cut⟩ := exists_lines_eq_concat stream
    rw [cut] at ih
    rw [lines_concat cut] at member
    split at member
    · next counts =>
      split at member
      · rw [show done ++ [last, []] = (done ++ [last]) ++ [[]] by simp] at member
        rcases List.mem_append.mp member with earlier | empty
        · exact ih earlier
        · obtain rfl := List.mem_singleton.mp empty
          exact List.forall_mem_nil _
      · next goesOn =>
        rcases List.mem_append.mp member with earlier | longer
        · exact ih (List.mem_append_left _ earlier)
        · obtain rfl := List.mem_singleton.mp longer
          have plain : Byte.isControl c = false := by simpa [Byte.counts, goesOn] using counts
          have before := ih (List.mem_append_right done List.mem_cons_self)
          exact List.forall_mem_append.mpr ⟨before, by simpa using plain⟩
    · exact ih member

/-- If a stream has no line about downloads, neither has what comes before its last byte. -/
theorem own_of_concat (own : ∀ line ∈ lines (stream ++ [b]), line.isRemote = false) :
    ∀ line ∈ stream.lines, line.isRemote = false := by
  obtain ⟨done, last, cut⟩ := exists_lines_eq_concat stream
  have longer := lines_concat cut b
  rw [cut]
  by_cases inside : Byte.counts b = true ∧ b ≠ Byte.statementEnd
  · rw [if_pos inside.1, if_neg inside.2] at longer
    rw [longer] at own
    obtain ⟨earlier, grown⟩ := List.forall_mem_append.mp own
    refine List.forall_mem_append.mpr ⟨earlier, ?_⟩
    cases last with
    | nil => simp [not_isRemote_nil]
    | cons c last => simpa [isRemote] using grown
  · intro line member
    refine own line ?_
    rw [longer]
    split
    · split
      · exact List.mem_append.mpr ((List.mem_append.mp member).imp_right fun last => by
          simpa using .inl (List.mem_singleton.mp last))
      · next counts goesOn => exact absurd ⟨counts, goesOn⟩ inside
    · exact member

/-- Where a line of a stream has been read up to one of its bytes. -/
theorem exists_lines_eq {later : List Bytes} {tail : Bytes}
    (cut : stream.lines = done ++ (line ++ b :: tail) :: later) :
    ∃ before after, stream = before ++ b :: after ∧ before.lines = done ++ [line] := by
  induction stream generalizing done line with
  | nil =>
    -- The only line of the empty stream is empty.
    have sizes := congrArg (fun pieces => (pieces.map List.length).sum) cut
    simp [lines_nil] at sizes
    omega
  | cons c stream ih =>
    rw [lines_cons] at cut
    split at cut
    · next counts =>
      split at cut
      · next ends =>
        cases done with
        | nil => simp at cut
        | cons first done =>
          obtain ⟨rfl, others⟩ := List.cons.inj cut
          obtain ⟨before, after, rfl, opened⟩ := ih others
          refine ⟨c :: before, after, rfl, ?_⟩
          rw [lines_cons, if_pos counts, if_pos ends, opened]
          rfl
      · next goesOn =>
        obtain ⟨first, others, eq⟩ := List.exists_cons_of_ne_nil (lines_ne_nil stream)
        rw [eq, List.modifyHead_cons] at cut
        cases done with
        | nil =>
          obtain ⟨head, rfl⟩ := List.cons.inj cut
          cases line with
          | nil =>
            obtain ⟨rfl, rfl⟩ := List.cons.inj head
            exact ⟨[], stream, rfl, rfl⟩
          | cons c' line =>
            obtain ⟨rfl, rfl⟩ := List.cons.inj head
            obtain ⟨before, after, rfl, opened⟩ := ih (show _ = [] ++ (line ++ b :: tail) :: others from eq)
            refine ⟨c :: before, after, rfl, ?_⟩
            rw [lines_cons, if_pos counts, if_neg goesOn, opened]
            rfl
        | cons first' done =>
          obtain ⟨rfl, rfl⟩ := List.cons.inj cut
          obtain ⟨before, after, rfl, opened⟩ := ih
            (show _ = (first :: done) ++ (line ++ b :: tail) :: later from eq)
          refine ⟨c :: before, after, rfl, ?_⟩
          rw [lines_cons, if_pos counts, if_neg goesOn, opened]
          rfl
    · next dropped =>
      obtain ⟨before, after, rfl, opened⟩ := ih cut
      refine ⟨c :: before, after, rfl, ?_⟩
      rw [lines_cons, if_neg dropped]
      exact opened

end Bytes

end ControlScript
