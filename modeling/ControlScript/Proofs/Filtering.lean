import ControlScript.Proofs.Downloads
import ControlScript.Proofs.Streams
import ControlScript.Proofs.Success

/-!
# What a download stores

The filter of a download sees a stream byte by byte. It needs to know no more of it than where in
a line it is; what it has sent to the store is what belongs to a program, up to the first byte
that did not fit.

## Main definitions

* `DownloadFilter.placeOf` — where in a line the filter is
* `DownloadFilter.ending?` — how a line ends a download
* `DownloadFilter.Given` — a filter and a store that have been given a stream

## Main results

* `DownloadFilter.process_eq` — a byte, in terms of the line it stands in
* `DownloadFilter.Given.byte`, `DownloadFilter.given_fed` — one byte and a whole stream
* `DownloadFilter.stores_content` — a download from its start to its end
-/

namespace ControlScript

open Bytes

namespace DownloadFilter

/-- Where in a line the filter is after some bytes of it. -/
def placeOf (line : Bytes) : DownloadPlace :=
  if line.isEmpty then .lineStart
  else if !line.isRemote then .storing
  else if line.length = 1 then .gotR
  else .skipping

/-- How a line ends a download, unless the download goes on. -/
def ending? : Bytes → Option Outcome
  | r :: b :: _ =>
    if !Byte.spells 'R' r then none
    else if Byte.spells 'X' b then some .finished
    else if Byte.spells 'A' b then some .aborted
    else none
  | _ => none

/-- The filter and the store after some bytes. -/
def fed (stream : Bytes) (w : DownloadFilter × Store) : DownloadFilter × Store :=
  stream.foldl (fun w b => Attempt.reached (process b w)) w

/-- What some bytes mean for the download, one after the other. -/
def outcomes : Bytes → DownloadFilter × Store → List (Except Fault Outcome)
  | [], _ => []
  | b :: stream, w =>
    Attempt.outcome (process b w) :: outcomes stream (Attempt.reached (process b w))

variable {f : DownloadFilter} {s : Store} {w : DownloadFilter × Store} {line stream : Bytes}
variable {room : Nat} {b : UInt8} {done : List Bytes}

theorem fed_concat (stream : Bytes) (b : UInt8) (w : DownloadFilter × Store) :
    fed (stream ++ [b]) w = Attempt.reached (process b (fed stream w)) := by
  simp [fed]

theorem outcomes_concat (stream : Bytes) (b : UInt8) (w : DownloadFilter × Store) :
    outcomes (stream ++ [b]) w =
      outcomes stream w ++ [Attempt.outcome (process b (fed stream w))] := by
  induction stream generalizing w with
  | nil => rfl
  | cons c stream ih => exact congrArg (_ :: ·) (ih _)

/-- A byte that does not count leaves everything as it is. -/
theorem process_of_dropped (dropped : Byte.counts b = false) (w : DownloadFilter × Store) :
    process b w = .ok .more w := by
  have control : (Byte.isControl b && b != Byte.statementEnd) = true := by
    simpa [Byte.counts] using dropped
  rw [process, if_pos control]
  rfl

/-- A byte that counts is read according to where in a line the filter is. -/
theorem process_of_counts (counts : Byte.counts b = true) (f : DownloadFilter) (s : Store) :
    process b (f, s) = match f.place with
      | .lineStart =>
        if Byte.spells 'R' b then .ok .more ({ f with place := .gotR }, s)
        else if b = Byte.statementEnd then .ok .more (f, s)
        else keep b ({ f with place := .storing }, s)
      | .gotR =>
        if Byte.spells 'X' b then if f.overflowed then abort (f, s) else finish (f, s)
        else if Byte.spells 'A' b then abort (f, s)
        else .ok .more ({ f with place := placeAfter .skipping b }, s)
      | .storing => keep b ({ f with place := placeAfter .storing b }, s)
      | .skipping => .ok .more ({ f with place := placeAfter .skipping b }, s) := by
  have taken : ¬(Byte.isControl b && b != Byte.statementEnd) = true := by
    simpa [Byte.counts, or_iff_not_imp_left] using counts
  obtain ⟨place, overflowed⟩ := f
  rw [process, if_neg taken, Attempt.bind_apply, Attempt.get_apply]
  cases place with
  | lineStart =>
    dsimp only
    split
    · rfl
    · split <;> rfl
  | gotR =>
    dsimp only
    split
    · split <;> rfl
    · split <;> rfl
  | storing => rfl
  | skipping => rfl

/-- A byte that does not end the download moves the filter on in its line. It goes to the store
if it belongs to the program. -/
theorem process_eq (place : f.place = placeOf line)
    (goesOn : line.length = 1 → ending? (line ++ [b]) = none) (s : Store) :
    process b (f, s) =
      if line.keeps b then keep b ({ f with place := placeOf (line.following b) }, s)
      else .ok .more ({ f with place := placeOf (line.following b) }, s) := by
  obtain ⟨_, overflowed⟩ := f
  obtain rfl : _ = placeOf line := place
  by_cases counts : Byte.counts b = true
  · rw [process_of_counts counts]
    have other : Byte.spells 'R' Byte.statementEnd = false := by decide
    -- The place depends on the first byte of the line and on whether there is a second.
    match line with
    | [] =>
      rcases eq_or_ne b Byte.statementEnd with rfl | inside
      · simp [placeOf, keeps, following, isRemote, other]
      · by_cases r : Byte.spells 'R' b = true <;>
          simp [placeOf, keeps, following, counts, isRemote, r, inside]
    | [c] =>
      by_cases r : Byte.spells 'R' c = true
      · -- Neither of the two bytes that end a download follows.
        have next := goesOn rfl
        have notX : ¬Byte.spells 'X' b = true := by
          intro ends
          simp [ending?, r, ends] at next
        have notA : ¬Byte.spells 'A' b = true := by
          intro ends
          simp [ending?, r, notX, ends] at next
        rcases eq_or_ne b Byte.statementEnd with rfl | inside
        · simp [placeOf, keeps, following, counts, isRemote, r, notX, notA, placeAfter]
        · simp [placeOf, keeps, following, counts, isRemote, r, inside, notX, notA, placeAfter]
      · rcases eq_or_ne b Byte.statementEnd with rfl | inside
        · simp [placeOf, keeps, following, counts, isRemote, r, placeAfter]
        · simp [placeOf, keeps, following, counts, isRemote, r, inside, placeAfter]
    | c :: d :: line =>
      by_cases r : Byte.spells 'R' c = true <;>
        rcases eq_or_ne b Byte.statementEnd with rfl | inside <;>
        simp [placeOf, keeps, following, *, isRemote, placeAfter]
  · have dropped : Byte.counts b = false := by simpa using counts
    simp [process_of_dropped dropped, keeps, following, dropped]

/-- A byte that is a letter is no control byte. -/
theorem counts_of_spells {letter : Char} (plain : Byte.isControl letter.toUInt8 = false)
    (letters : Byte.spells letter b = true) : Byte.counts b = true := by
  by_cases control : Byte.isControl b = true
  · have same : Byte.upper b = b := by
      rw [Byte.upper, if_neg]
      simp only [Byte.isControl, Byte.isLower, UInt8.le_iff_toNat_le, UInt8.lt_iff_toNat_lt,
        Bool.or_eq_true, Bool.and_eq_true, decide_eq_true_eq, beq_iff_eq, ← UInt8.toNat_inj]
        at control ⊢
      have bounds : (0x20 : UInt8).toNat = 32 ∧ (0x7F : UInt8).toNat = 127 ∧
          (0x61 : UInt8).toNat = 97 ∧ (0x7A : UInt8).toNat = 122 := by decide
      omega
    rw [Byte.spells, same, beq_iff_eq] at letters
    rw [letters, plain] at control
    cases control
  · simp [Byte.counts, control]

/-- The second byte of a line may end the download. -/
theorem process_of_ending {r : UInt8} {rest : Bytes} {outcome : Outcome}
    (place : f.place = placeOf [r]) (ends : ending? (r :: b :: rest) = some outcome)
    (s : Store) :
    process b (f, s) =
      if outcome = .finished ∧ f.overflowed = false then finish (f, s) else abort (f, s) := by
  obtain ⟨_, overflowed⟩ := f
  obtain rfl : _ = placeOf [r] := place
  by_cases remote : Byte.spells 'R' r = true
  · have at' : placeOf [r] = .gotR := by simp [placeOf, isRemote, remote]
    by_cases x : Byte.spells 'X' b = true
    · have counts := counts_of_spells (by decide) x
      obtain rfl : .finished = outcome := by simpa [ending?, remote, x] using ends
      rw [process_of_counts counts]
      cases overflowed <;> simp [at', x]
    · by_cases a : Byte.spells 'A' b = true
      · have counts := counts_of_spells (by decide) a
        obtain rfl : .aborted = outcome := by simpa [ending?, remote, x, a] using ends
        rw [process_of_counts counts]
        simp [at', x, a]
      · simp [ending?, remote, x, a] at ends
  · simp [ending?, remote] at ends

/-- After an overflow nothing is added. -/
theorem keep_of_overflowed (overflowed : f.overflowed = true) (b : UInt8) (s : Store) :
    keep b (f, s) = .ok .more (f, s) := by
  simp [keep, overflowed]

/-- The first byte that does not fit makes the store overflow. -/
theorem keep_of_full (fitting : f.overflowed = false) (full : s.capacity ≤ s.cursor + 1)
    (b : UInt8) :
    keep b (f, s) = .error (.of .storeFull) ({ f with overflowed := true }, s) := by
  simp [keep, fitting, Store.append_of_full full]

/-- A byte that fits is added. -/
theorem keep_of_room (fitting : f.overflowed = false) (fits : s.cursor + 1 < s.capacity)
    (b : UInt8) :
    keep b (f, s) = .ok .more (f, { s.write s.cursor b with cursor := s.cursor + 1 }) := by
  simp [keep, fitting, Store.append_of_room fits]

/-- A filter and a store of `room` bytes that have been given a stream. What belongs to the
program is in the store, as far as there was room. -/
structure Given (room : Nat) (stream : Bytes) (w : DownloadFilter × Store) : Prop where
  place : ∃ done line, stream.lines = done ++ [line] ∧ w.1.place = placeOf line
  overflowed : w.1.overflowed = decide (room ≤ stream.kept.length)
  invalid : w.2.valid = false
  reliable : w.2.medium.IsReliable
  capacity : w.2.capacity = room
  fits : stream.kept.length < room →
    w.2.cursor = stream.kept.length ∧ stream.kept <+: w.2.region

/-- Whether no line of a stream ends the download. -/
def GoesOn (stream : Bytes) : Prop := ∀ line ∈ stream.lines, ending? line = none

/-- What a byte behind a stream means for the download, as long as it goes on: the first byte
that does not fit is refused. -/
def answer (room : Nat) (stream : Bytes) (b : UInt8) : Except Fault Outcome :=
  if stream.kept.length < room ∧ room ≤ (kept (stream ++ [b])).length then
    .error (.of .storeFull)
  else .ok .more

theorem ending?_of_concat (goesOn : ending? (line ++ [b]) = none) : ending? line = none := by
  match line with
  | [] => rfl
  | [_] => rfl
  | _ :: _ :: _ => exact goesOn

theorem GoesOn.of_concat (goesOn : GoesOn (stream ++ [b])) : GoesOn stream := by
  obtain ⟨done, line, cut⟩ := exists_lines_eq_concat stream
  have longer := lines_concat cut b
  unfold GoesOn at goesOn ⊢
  rw [cut]
  split at longer
  · split at longer
    · rw [longer] at goesOn
      intro other member
      refine goesOn other ?_
      simp only [List.mem_append, List.mem_cons, List.not_mem_nil, or_false] at member ⊢
      tauto
    · rw [longer] at goesOn
      intro other member
      rcases List.mem_append.mp member with earlier | last
      · exact goesOn other (List.mem_append_left _ earlier)
      · obtain rfl := List.mem_singleton.mp last
        exact ending?_of_concat (goesOn _ (List.mem_append_right _ List.mem_cons_self))
  · rwa [longer] at goesOn

/-- The second byte of a line does not end a download that goes on. -/
theorem GoesOn.ending?_eq_none (goesOn : GoesOn (stream ++ [b]))
    (cut : stream.lines = done ++ [line]) (second : line.length = 1) :
    ending? (line ++ [b]) = none := by
  obtain ⟨r, rfl⟩ := List.length_eq_one_iff.mp second
  have longer := lines_concat cut b
  by_cases inside : Byte.counts b = true ∧ b ≠ Byte.statementEnd
  · rw [if_pos inside.1, if_neg inside.2] at longer
    refine goesOn _ ?_
    simp [longer]
  · -- Neither a control byte nor the end of a line is one of the letters.
    have other {letter : Char} (plain : Byte.isControl letter.toUInt8 = false)
        (apart : Byte.spells letter Byte.statementEnd = false) :
        ¬Byte.spells letter b = true := by
      intro letters
      refine inside ⟨counts_of_spells plain letters, ?_⟩
      rintro rfl
      exact absurd letters (by simp [apart])
    have x : ¬Byte.spells 'X' b = true := other (by decide) (by decide)
    have a : ¬Byte.spells 'A' b = true := other (by decide) (by decide)
    simp [ending?, x, a]

/-- Before the first byte the store is empty. -/
theorem given_nil (positive : 0 < s.capacity) (invalid : s.valid = false)
    (reliable : s.medium.IsReliable) (start : s.cursor = 0) : Given s.capacity [] (fresh, s) where
  place := ⟨[], [], rfl, rfl⟩
  overflowed := (decide_eq_false (Nat.not_le_of_lt positive)).symm
  invalid := invalid
  reliable := reliable
  capacity := rfl
  fits _ := ⟨start, List.nil_prefix⟩

/-- One byte more. -/
theorem Given.byte (given : Given room stream w) (goesOn : GoesOn (stream ++ [b])) :
    Given room (stream ++ [b]) (Attempt.reached (process b w)) ∧
      Attempt.outcome (process b w) = answer room stream b := by
  obtain ⟨f, s⟩ := w
  obtain ⟨⟨done, line, cut, place⟩, overflowed, invalid, reliable, capacity, fits⟩ := given
  dsimp only at place overflowed invalid reliable capacity fits
  obtain ⟨others, next⟩ := exists_lines_concat cut b
  have grown := kept_concat cut b
  rw [process_eq place (goesOn.ending?_eq_none cut) s]
  obtain ⟨moved, at', unchanged⟩ : ∃ g : DownloadFilter,
      { f with place := placeOf (line.following b) } = g ∧ g.overflowed = f.overflowed :=
    ⟨_, rfl, rfl⟩
  have place' : moved.place = placeOf (line.following b) := by rw [← at']
  rw [at']
  rw [← unchanged] at overflowed
  by_cases keeps : line.keeps b = true
  · rw [if_pos keeps] at grown ⊢
    have longer : (kept (stream ++ [b])).length = stream.kept.length + 1 := by simp [grown]
    -- Whether there was room before, and whether there is room with this byte, decides what the store
    -- answers.
    by_cases within : stream.kept.length < room
    · obtain ⟨cursor, starts⟩ := fits within
      have fitting : moved.overflowed = false :=
        overflowed.trans (decide_eq_false (Nat.not_le_of_lt within))
      by_cases last : room ≤ stream.kept.length + 1
      · rw [keep_of_full fitting (by rwa [capacity, cursor]), answer, longer,
          if_pos ⟨within, last⟩]
        refine ⟨⟨⟨others, _, next, place'⟩, ?_, invalid, reliable, capacity, ?_⟩, rfl⟩
        · simp [longer, last]
        · intro fits
          omega
      · rw [keep_of_room fitting (by rw [capacity, cursor]; omega), answer, longer,
          if_neg fun full => last full.2]
        obtain ⟨rest, region⟩ := Store.exists_write_eq starts (capacity ▸ within) b
        refine ⟨⟨⟨others, _, next, place'⟩, ?_, invalid, reliable,
          (Store.capacity_write _ _ _).trans capacity, fun _ => ⟨?_, rest, ?_⟩⟩, rfl⟩
        · simp [longer, last, fitting]
        · simp [longer, cursor]
        · rw [grown, cursor, List.append_assoc]
          exact region.symm
    · have full : moved.overflowed = true :=
        overflowed.trans (decide_eq_true (Nat.le_of_not_lt within))
      rw [keep_of_overflowed full, answer, if_neg fun last => within last.1]
      refine ⟨⟨⟨others, _, next, place'⟩, ?_, invalid, reliable, capacity, ?_⟩, rfl⟩
      · simp only [Attempt.reached_ok, full, longer]
        exact (decide_eq_true (by omega)).symm
      · intro fits
        omega
  · rw [if_neg keeps, List.append_nil] at grown
    rw [if_neg keeps, answer, grown, if_neg fun full => Nat.not_le_of_lt full.1 full.2]
    exact ⟨⟨⟨others, _, next, place'⟩, grown ▸ overflowed, invalid, reliable, capacity,
      grown ▸ fits⟩, rfl⟩

/-- A whole stream that does not end the download. At most one byte is refused. -/
theorem given_fed (positive : 0 < room) (start : Given room [] w) (goesOn : GoesOn stream) :
    Given room stream (fed stream w) ∧
      if (kept stream).length < room then
        outcomes stream w = List.replicate stream.length (.ok .more)
      else ∃ first b second, stream = first ++ b :: second ∧
        kept (first ++ [b]) = kept first ++ [b] ∧ (kept first).length + 1 = room ∧
        outcomes stream w = List.replicate first.length (.ok .more) ++
          .error (.of .storeFull) :: List.replicate second.length (.ok .more) := by
  induction stream using List.reverseRecOn with
  | nil =>
    rw [if_pos (show (kept []).length < room from positive)]
    exact ⟨start, rfl⟩
  | append_singleton stream b ih =>
    obtain ⟨given, results⟩ := ih goesOn.of_concat
    obtain ⟨given', result⟩ := given.byte goesOn
    rw [fed_concat, outcomes_concat, result, answer]
    refine ⟨given', ?_⟩
    obtain ⟨done, line, cut⟩ := exists_lines_eq_concat stream
    have grown := kept_concat cut b
    -- A byte is refused only where the room runs out, and that happens once.
    by_cases within : (kept stream).length < room
    · rw [if_pos within] at results
      rw [results]
      by_cases last : room ≤ (kept (stream ++ [b])).length
      · -- This is the byte that is refused.
        rw [if_neg (Nat.not_lt_of_le last), if_pos ⟨within, last⟩]
        split at grown
        · rw [grown, List.length_append, List.length_singleton] at last
          exact ⟨stream, b, [], rfl, grown, by omega, rfl⟩
        · rw [grown, List.append_nil] at last
          omega
      · rw [if_pos (Nat.lt_of_not_le last), if_neg fun full => last full.2, List.length_append,
          List.length_singleton, List.replicate_succ']
    · rw [if_neg within] at results
      obtain ⟨first, refused, second, rfl, own, full, results⟩ := results
      have longer : ¬(kept (first ++ refused :: second ++ [b])).length < room := by
        rw [grown, List.length_append]
        omega
      rw [if_neg longer, if_neg fun full => within full.1, results]
      refine ⟨first, refused, second ++ [b], by simp, own, full, ?_⟩
      rw [List.length_append, List.length_singleton, List.replicate_succ', List.append_assoc]
      rfl

/-- A download that is given up leaves nothing in the store. -/
theorem Given.abort (given : Given room stream w) : ∃ store,
    abort w = .ok .aborted (fresh, store) ∧ store.valid = false ∧ store.program = [] := by
  obtain ⟨medium, -, cleared⟩ := Store.exists_clear_eq given.reliable
  have program := Store.program_clear w.2
  rw [cleared] at program
  refine ⟨{ w.2.write 0 Byte.programEnd with cursor := 0, valid := false, medium }, ?_, rfl, program⟩
  simp only [DownloadFilter.abort, conclude, cleared]

/-- A download that is completed leaves what belongs to the program. -/
theorem Given.finish (given : Given room stream w) (fits : stream.kept.length < room) : ∃ store,
    finish w = .ok .finished (fresh, store) ∧ store.valid = true ∧ store.program = stream.kept := by
  obtain ⟨medium, -, finished⟩ := Store.exists_finishDownload_eq given.reliable
  obtain ⟨cursor, starts⟩ := given.fits fits
  refine ⟨{ w.2.write w.2.cursor Byte.programEnd with valid := true, medium }, ?_, rfl, ?_⟩
  · simp only [DownloadFilter.finish, conclude, finished]
  · have program := Store.program_write_programEnd starts (given.capacity ▸ fits)
      fun b member => ne_programEnd_of_mem_kept member
    rwa [← cursor] at program

/-- What ends a download. -/
theorem exists_cons_cons_of_ending? {outcome : Outcome} (ends : ending? line = some outcome) :
    ∃ r b rest, line = r :: b :: rest ∧ isRemote line = true ∧ outcome ≠ .more := by
  match line with
  | [] => cases ends
  | [_] => cases ends
  | r :: b :: rest =>
    refine ⟨r, b, rest, rfl, ?_⟩
    simp only [ending?] at ends
    split at ends
    · cases ends
    · next remote =>
      refine ⟨by simpa [isRemote] using remote, ?_⟩
      rintro rfl
      split at ends
      · cases ends
      · split at ends <;> cases ends

/-- The letter that ends a download. A program that had no room is given up, whichever it is. -/
theorem Given.ending (given : Given room stream w) {r : UInt8} {rest : Bytes} {outcome : Outcome}
    (cut : stream.lines = done ++ [[r]]) (ends : ending? (r :: b :: rest) = some outcome) :
    ∃ store, Attempt.reached (process b w) = (fresh, store) ∧
      if stream.kept.length < room then
        Attempt.outcome (process b w) = .ok outcome ∧
          if outcome = .finished then store.valid = true ∧ store.program = stream.kept
          else store.valid = false ∧ store.program = []
      else Attempt.outcome (process b w) = .ok .aborted ∧
        store.valid = false ∧ store.program = [] := by
  obtain ⟨others, line, cut', place⟩ := given.place
  obtain ⟨-, same⟩ := List.append_inj' (cut'.symm.trans cut) rfl
  obtain rfl : line = [r] := by simpa using same
  have processed := process_of_ending place ends w.2
  rw [show (w.1, w.2) = w from rfl] at processed
  by_cases fits : stream.kept.length < room
  · have whole : w.1.overflowed = false :=
      given.overflowed.trans (decide_eq_false (Nat.not_le_of_lt fits))
    simp only [if_pos fits]
    by_cases complete : outcome = .finished
    · obtain ⟨store, finished, stored⟩ := given.finish fits
      rw [processed, if_pos ⟨complete, whole⟩, finished]
      simp only [if_pos complete]
      exact ⟨store, rfl, congrArg _ complete.symm, stored⟩
    · obtain ⟨store, aborted, empty⟩ := given.abort
      obtain ⟨-, -, -, -, -, ended⟩ := exists_cons_cons_of_ending? ends
      obtain rfl : outcome = .aborted := by cases outcome <;> trivial
      rw [processed, if_neg fun both => complete both.1, aborted]
      exact ⟨store, rfl, rfl, empty⟩
  · have full : w.1.overflowed = true :=
      given.overflowed.trans (decide_eq_true (Nat.le_of_not_lt fits))
    obtain ⟨store, aborted, empty⟩ := given.abort
    rw [processed, if_neg fun both => by simp [full] at both, aborted]
    simp only [if_neg fits]
    exact ⟨store, rfl, rfl, empty⟩

/-- A download from its start to its end. What is stored is what belongs to the program, if there
is room for it. -/
theorem stores_content {s : Store} {earlier later : List Bytes} {last : Bytes} {outcome : Outcome}
    (positive : 0 < s.capacity) (reliable : s.medium.IsReliable)
    (cut : stream.lines = earlier ++ last :: later)
    (goesOn : ∀ line ∈ earlier, ending? line = none) (ends : ending? last = some outcome) :
    ∃ start before b after, Store.beginDownload s = .ok () start ∧ stream = before ++ b :: after ∧
      lines before = earlier ++ [last.take 1] ∧ last.take 2 = last.take 1 ++ [b] ∧
      let final := fed (before ++ [b]) (fresh, start)
      let results := outcomes (before ++ [b]) (fresh, start)
      final.1 = fresh ∧
        if (content earlier).length < s.capacity then
          results = List.replicate before.length (.ok .more) ++ [.ok outcome] ∧
            if outcome = .finished then
              final.2.valid = true ∧ final.2.length = (content earlier).length ∧
                final.2.program = content earlier
            else final.2.valid = false ∧ final.2.program = []
        else (∃ first x second, before = first ++ x :: second ∧
            kept (first ++ [x]) = kept first ++ [x] ∧ (kept first).length + 1 = s.capacity ∧
            results = List.replicate first.length (.ok .more) ++ .error (.of .storeFull) ::
              List.replicate second.length (.ok .more) ++ [.ok .aborted]) ∧
          final.2.valid = false ∧ final.2.program = [] := by
  obtain ⟨r, b, rest, rfl, remote, ended⟩ := exists_cons_cons_of_ending? ends
  obtain ⟨before, after, rfl, opened⟩ :=
    exists_lines_eq (show _ = earlier ++ ([r] ++ b :: rest) :: later from cut)
  obtain ⟨medium, reliable', cleared⟩ := Store.exists_clear_eq reliable
  let start : Store := { s.write 0 Byte.programEnd with cursor := 0, valid := false, medium }
  have room : start.capacity = s.capacity := Store.capacity_write _ _ _
  have open' : GoesOn before := by
    intro line member
    rw [opened] at member
    rcases List.mem_append.mp member with earlier | own
    · exact goesOn line earlier
    · obtain rfl := List.mem_singleton.mp own
      rfl
  -- The line that ends the download has only been begun, and adds nothing.
  have program : kept before = content earlier := by
    rw [kept_of_lines opened, if_pos (by simpa [isRemote] using remote), List.append_nil]
  obtain ⟨given, results⟩ := given_fed (by rwa [room])
    (given_nil (by rwa [room]) rfl reliable' rfl) open'
  rw [room, program] at results
  obtain ⟨store, reached, left⟩ := given.ending opened ends
  rw [room, program] at left
  refine ⟨start, before, b, after, cleared, rfl, opened, rfl, ?_⟩
  dsimp only
  rw [fed_concat, outcomes_concat, reached]
  refine ⟨rfl, ?_⟩
  by_cases fits : (content earlier).length < s.capacity
  · rw [if_pos fits] at results left ⊢
    obtain ⟨result, left⟩ := left
    rw [results, result]
    refine ⟨rfl, ?_⟩
    by_cases complete : outcome = .finished
    · rw [if_pos complete] at left ⊢
      exact ⟨left.1, congrArg List.length left.2, left.2⟩
    · rw [if_neg complete] at left ⊢
      exact left
  · rw [if_neg fits] at results left ⊢
    obtain ⟨result, left⟩ := left
    obtain ⟨first, x, second, split, own, full, results⟩ := results
    rw [results, result]
    exact ⟨⟨first, x, second, split, own, full, by simp⟩, left⟩

/-- A line of one byte fits a store of four, where it is stored by `RX`. -/
theorem stores_one_byte : ∃ start before b after,
    Store.beginDownload (Store.ofBytes 4 []) = .ok () start ∧
      [0x41, 0x0D, 0x52, 0x58] = before ++ b :: after ∧
      outcomes (before ++ [b]) (fresh, start) =
        List.replicate before.length (.ok .more) ++ [.ok .finished] ∧
      (fed (before ++ [b]) (fresh, start)).2.program = [0x41, 0x0D] := by
  have cut : lines [0x41, 0x0D, 0x52, 0x58] = [[0x41]] ++ [0x52, 0x58] :: [] := by decide
  have ends : ending? [0x52, 0x58] = some .finished := by decide
  have stored := stores_content (s := Store.ofBytes 4 []) (by decide) trivial cut (by decide) ends
  obtain ⟨start, before, b, after, begun, split, -, -, -, stored⟩ := stored
  rw [if_pos (by decide), if_pos rfl] at stored
  obtain ⟨results, -, -, program⟩ := stored
  exact ⟨start, before, b, after, begun, split, results, program⟩

end DownloadFilter

end ControlScript
