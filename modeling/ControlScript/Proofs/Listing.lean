import ControlScript.Proofs.Effects
import ControlScript.Proofs.Filtering

/-!
# Statements as they come in and as they are stored

A machine cuts what comes in into statements: it drops control bytes and empty lines and gives up a
line that is too long. A download does the same in two other places. The filter drops what does not
belong to a program, and whoever fetches from the store gives up what is too long. Both find the same
statements in every stream of lines that are not about downloads.

## Main definitions

* `Item` — a statement, or that one is too long
* `Machine.items` — what a machine finds in the bytes that come in
* `Store.listing` — what is found in a store by fetching up to the end

## Main results

* `Machine.receive_eq_of_item?` — what a machine does with a byte, in terms of what it finds
* `Machine.Reading.byte`, `Machine.reading_receiveAll` — one byte and a whole stream
* `Store.listingFrom_of_program` — what is found in a program of given lines
* `Machine.items_eq_listing` — both find the same
-/

namespace ControlScript

open Bytes

/-- What is found where a statement is looked for. -/
inductive Item where
  | statement (text : Bytes)
  | tooLong
deriving DecidableEq, Repr

namespace Item

/-- What a line stands for where statements may have a number of bytes. -/
def ofLine (limit : Nat) (line : Bytes) : Item :=
  if limit < line.length then .tooLong else .statement line

/-- What some lines stand for. Empty ones stand for nothing. -/
def ofLines (limit : Nat) (lines : List Bytes) : List Item :=
  (lines.filter (!·.isEmpty)).map (ofLine limit)

/-- What has been found in some lines and the beginning of another. -/
def soFar (limit : Nat) (done : List Bytes) (line : Bytes) : List Item :=
  ofLines limit done ++ if limit < line.length then [.tooLong] else []

/-- What has been fetched. -/
def ofFetched (fetched : Fetched) : Item :=
  if fetched.truncated then .tooLong else .statement fetched.text

theorem ofLines_append (limit : Nat) (before after : List Bytes) :
    ofLines limit (before ++ after) = ofLines limit before ++ ofLines limit after := by
  simp [ofLines]

theorem ofLines_singleton {line : Bytes} (nonempty : line ≠ []) (limit : Nat) :
    ofLines limit [line] = [ofLine limit line] := by
  simp [ofLines, nonempty]

end Item

namespace Machine

/-- What a machine finds when a byte comes in. -/
def item? (m : Machine) (b : UInt8) : Option Item :=
  if m.device = .storeProgram then none
  else if b = Byte.statementEnd then
    if m.discarding || m.line.isEmpty then none else some (.statement m.line)
  else if Byte.isControl b || m.discarding then none
  else if m.limits.statementLength ≤ m.line.length then some .tooLong
  else none

/-- What a machine finds in some bytes. -/
def items (m : Machine) (dest : Destination) : Bytes → List Item
  | [] => []
  | b :: stream => (m.item? b).toList ++ (m.receive b dest).items dest stream

/-- The machine with a byte added to the line that comes in. -/
def shift (m : Machine) (b : UInt8) : Machine :=
  if b = Byte.statementEnd then { m with line := [], discarding := false }
  else if Byte.isControl b || m.discarding then m
  else if m.limits.statementLength ≤ m.line.length then { m with line := [], discarding := true }
  else { m with line := m.line ++ [b] }

variable {m n k : Machine} {b : UInt8} {dest : Destination} {stream line : Bytes}
variable {done : List Bytes}

/-- A byte is added to the line that comes in. A statement that is found is executed, and one that
is too long is reported. -/
theorem receive_eq_of_item? (device : m.device = .executeImmediately) (b : UInt8)
    (dest : Destination) :
    m.receive b dest = match m.item? b with
      | none => m.shift b
      | some (.statement text) => (m.shift b).execute text .live dest
      | some .tooLong => (m.shift b).report dest (.of .statementTooLong) := by
  have taking : m.device ≠ .storeProgram := by simp [device]
  have received : m.receive b dest = m.assemble b dest := by simp only [receive, device]
  rw [received, assemble, item?, shift, if_neg taking]
  by_cases ends : b = Byte.statementEnd
  · rw [if_pos ends, if_pos ends, if_pos ends]
    by_cases empty : (m.discarding || m.line.isEmpty) = true
    · rw [if_pos empty, if_pos empty]
    · rw [if_neg empty, if_neg empty]
  rw [if_neg ends, if_neg ends, if_neg ends]
  by_cases dropped : (Byte.isControl b || m.discarding) = true
  · rw [if_pos dropped, if_pos dropped, if_pos dropped]
  rw [if_neg dropped, if_neg dropped, if_neg dropped]
  by_cases full : m.limits.statementLength ≤ m.line.length
  · rw [if_pos full, if_pos full, if_pos full]
  · rw [if_neg full, if_neg full, if_neg full]

theorem items_concat (m : Machine) (dest : Destination) (stream : Bytes) (b : UInt8) :
    m.items dest (stream ++ [b]) =
      m.items dest stream ++ ((m.receiveAll stream dest).item? b).toList := by
  induction stream generalizing m with
  | nil => simp [items, receiveAll]
  | cons c stream ih =>
    have later := ih (m.receive c dest)
    rw [List.cons_append, items, items, later, List.append_assoc]
    rfl

/-- A machine that has read some bytes of a line, where statements may have a number of bytes. It
keeps them unless they are too many. -/
structure Reading (limit : Nat) (line : Bytes) (m : Machine) : Prop where
  device : m.device = .executeImmediately
  length : m.limits.statementLength = limit
  discarding : m.discarding = decide (limit < line.length)
  held : m.line = if limit < line.length then [] else line

/-- A byte that does not count changes nothing. -/
theorem shift_of_dropped (dropped : Byte.counts b = false) (m : Machine) :
    m.shift b = m ∧ m.item? b = none := by
  have control : Byte.isControl b = true ∧ b ≠ Byte.statementEnd := by
    simpa [Byte.counts] using dropped
  simp [shift, item?, control.1, control.2]

namespace Reading

variable {limit : Nat}

/-- What a machine reads is not changed by statements that leave the line alone. -/
theorem steered (reading : Reading limit line m) (steered : Steered .live m n) :
    Reading limit line n where
  device := steered.device.trans reading.device
  length := (congrArg Limits.statementLength steered.limits).trans reading.length
  discarding := steered.discarding.trans reading.discarding
  held := steered.line.trans reading.held

/-- Before the first byte. -/
theorem of_idle (idle : Idle m) : Reading m.limits.statementLength [] m :=
  ⟨idle.device, rfl, idle.discarding, idle.line⟩

/-- At the end of a line its statement is found, unless the line is empty or was given up. -/
theorem closed (reading : Reading limit line m) :
    Reading limit [] (m.shift Byte.statementEnd) ∧
      m.item? Byte.statementEnd =
        if limit < line.length ∨ line = [] then none else some (.statement line) := by
  refine ⟨?_, ?_⟩
  · rw [shift, if_pos rfl]
    exact ⟨reading.device, reading.length, rfl, rfl⟩
  · have taking : m.device ≠ .storeProgram := by simp [reading.device]
    rw [item?, if_neg taking, if_pos rfl, reading.discarding, reading.held]
    by_cases long : limit < line.length
    · simp [long]
    · simp [long]

/-- A byte inside a line is added to it, as long as there is room. The first one for which there is
none is found. -/
theorem plain (reading : Reading limit line m) (own : Byte.isControl b = false) :
    Reading limit (line ++ [b]) (m.shift b) ∧
      m.item? b = if line.length = limit then some .tooLong else none := by
  have taking : m.device ≠ .storeProgram := by simp [reading.device]
  have inside : b ≠ Byte.statementEnd := (Byte.ne_of_not_isControl own).2
  have longer : (line ++ [b]).length = line.length + 1 := by simp
  rw [item?, if_neg taking, if_neg inside, shift, if_neg inside, own, Bool.false_or,
    reading.discarding, reading.length, reading.held]
  by_cases given : limit < line.length
  · -- The line was given up before.
    rw [if_pos (decide_eq_true given), if_pos (decide_eq_true given), if_neg (by omega)]
    have stays : limit < (line ++ [b]).length := by omega
    refine ⟨⟨reading.device, reading.length, ?_, ?_⟩, rfl⟩
    · rw [reading.discarding, decide_eq_true given, decide_eq_true stays]
    · rw [reading.held, if_pos given, if_pos stays]
  · have goesOn : ¬decide (limit < line.length) = true := by simpa using given
    rw [if_neg goesOn, if_neg goesOn, if_neg given]
    by_cases last : line.length = limit
    · -- This is the byte for which there is no room, and it is found once.
      have full : limit ≤ line.length := Nat.le_of_eq last.symm
      have exceeded : limit < (line ++ [b]).length := by omega
      rw [if_pos full, if_pos full, if_pos last]
      exact ⟨⟨reading.device, reading.length, (decide_eq_true exceeded).symm, (if_pos exceeded).symm⟩, rfl⟩
    · have room : ¬limit ≤ line.length := by omega
      have fits : ¬limit < (line ++ [b]).length := by omega
      rw [if_neg room, if_neg room, if_neg last]
      refine ⟨⟨reading.device, reading.length, ?_, (if_neg fits).symm⟩, rfl⟩
      rw [decide_eq_false fits]
      exact decide_eq_false given

/-- The byte that ends a line. A line that was given up has been found where it became too long, and
an empty one is not found. -/
theorem statementEnd (reading : Reading limit line m) (own : line.isRemote = false)
    (done : List Bytes) (dest : Destination) :
    Reading limit [] (m.receive Byte.statementEnd dest) ∧
      Item.soFar limit done line ++ (m.item? Byte.statementEnd).toList =
        Item.soFar limit (done ++ [line]) [] := by
  have executed := receive_eq_of_item? reading.device Byte.statementEnd dest
  obtain ⟨shifted, found⟩ := reading.closed
  simp only [Item.soFar, Item.ofLines_append, List.append_assoc]
  by_cases none : limit < line.length ∨ line = []
  · rw [found, if_pos none] at executed ⊢
    rw [executed]
    refine ⟨shifted, congrArg (Item.ofLines limit done ++ ·) ?_⟩
    rcases none with long | rfl
    · have nonempty : line ≠ [] := by
        rintro rfl
        exact Nat.not_lt_zero _ long
      simp [Item.ofLines_singleton nonempty, Item.ofLine, long]
    · simp [Item.ofLines]
  · rw [found, if_neg none] at executed ⊢
    obtain ⟨fits, nonempty⟩ := not_or.mp none
    rw [executed]
    refine ⟨shifted.steered (Steered.execute nonempty own .live dest _), ?_⟩
    simp [Item.ofLines_singleton nonempty, Item.ofLine, fits]

/-- A byte inside a line. One too many gives the line up. -/
theorem inside (reading : Reading limit line m) {b : UInt8} (inside : Byte.isControl b = false)
    (done : List Bytes) (dest : Destination) :
    Reading limit (line ++ [b]) (m.receive b dest) ∧
      Item.soFar limit done line ++ (m.item? b).toList =
        Item.soFar limit done (line ++ [b]) := by
  have executed := receive_eq_of_item? reading.device b dest
  obtain ⟨shifted, found⟩ := reading.plain inside
  have grown : (line ++ [b]).length = line.length + 1 := by simp
  rw [Item.soFar, Item.soFar, List.append_assoc]
  by_cases last : line.length = limit
  · rw [found, if_pos last] at executed ⊢
    rw [executed]
    refine ⟨shifted.steered ((allows_steered .live).diagnose _ 1 dest _), ?_⟩
    rw [if_neg (by omega), if_pos (by omega)]
    rfl
  · rw [found, if_neg last] at executed ⊢
    rw [executed]
    refine ⟨shifted, congrArg (_ ++ ·) ?_⟩
    by_cases given : limit < line.length
    · rw [if_pos given, if_pos (by omega)]
      rfl
    · rw [if_neg given, if_neg (by omega)]
      rfl

/-- One byte more of a stream. -/
theorem byte (reading : Reading limit line m) (cut : stream.lines = done ++ [line])
    (own : line.isRemote = false) (b : UInt8) (dest : Destination) :
    ∃ done' line', lines (stream ++ [b]) = done' ++ [line'] ∧
      Reading limit line' (m.receive b dest) ∧
      Item.soFar limit done line ++ (m.item? b).toList = Item.soFar limit done' line' := by
  have longer := lines_concat cut b
  by_cases counts : Byte.counts b = true
  · rw [if_pos counts] at longer
    by_cases ends : b = Byte.statementEnd
    · subst ends
      rw [if_pos rfl] at longer
      exact ⟨done ++ [line], [], by simp [longer], reading.statementEnd own done dest⟩
    · rw [if_neg ends] at longer
      have plain : Byte.isControl b = false := by simpa [Byte.counts, ends] using counts
      exact ⟨done, line ++ [b], longer, reading.inside plain done dest⟩
  · rw [if_neg counts] at longer
    obtain ⟨same, nothing⟩ := shift_of_dropped (by simpa using counts) m
    have executed := receive_eq_of_item? reading.device b dest
    rw [nothing] at executed ⊢
    refine ⟨done, line, longer, ?_, List.append_nil _⟩
    rw [executed]
    dsimp only
    rwa [same]

end Reading

/-- A whole stream of lines that are not about downloads. -/
theorem reading_receiveAll (idle : Idle m) (own : ∀ line ∈ stream.lines, line.isRemote = false)
    (dest : Destination) : ∃ done line, stream.lines = done ++ [line] ∧
      Reading m.limits.statementLength line (m.receiveAll stream dest) ∧
      m.items dest stream = Item.soFar m.limits.statementLength done line := by
  induction stream using List.reverseRecOn with
  | nil => exact ⟨[], [], rfl, .of_idle idle, rfl⟩
  | append_singleton stream b ih =>
    obtain ⟨done, line, cut, reading, found⟩ := ih (own_of_concat own)
    have last := own_of_concat own line (by simp [cut])
    obtain ⟨done', line', cut', reading', more⟩ := reading.byte cut last b dest
    refine ⟨done', line', cut', ?_, ?_⟩
    · rw [receiveAll_append]
      exact reading'
    · rw [items_concat, found, more]

/-- In a stream of lines that have been ended, a machine finds what the lines stand for. -/
theorem items_of_own (idle : Idle m) (ended : stream.lines.getLast? = some [])
    (own : ∀ line ∈ stream.lines, line.isRemote = false) (dest : Destination) :
    m.items dest stream = Item.ofLines m.limits.statementLength stream.lines := by
  obtain ⟨done, line, cut, -, found⟩ := reading_receiveAll idle own dest
  obtain rfl : line = [] := by simpa [cut] using ended
  rw [found, cut, Item.ofLines_append]
  rfl

end Machine

namespace Store

variable {s : Store} {offset limit : Nat} {fetched : Fetched}

/-- What is fetched is in the region, and takes up some of it. -/
theorem lt_next_of_fetch? (found : s.fetch? offset limit = some fetched) :
    offset < s.capacity ∧ offset < fetched.next := by
  unfold fetch? at found
  dsimp only at found
  split at found
  · cases found
  next present =>
  cases found
  dsimp only
  cases rest : s.region.drop offset with
  | nil => simp [rest] at present
  | cons b region =>
    have inside : offset < s.capacity := by
      by_contra outside
      rw [List.drop_eq_nil_of_le (Nat.le_of_not_lt outside)] at rest
      cases rest
    refine ⟨inside, ?_⟩
    rw [rest, List.headD_cons] at present
    by_cases ends : b = Byte.statementEnd
    · subst ends
      simp
    · simp [present, ends]
      omega

/-- What is found from an offset on, by fetching up to the end. -/
def listingFrom (s : Store) (limit offset : Nat) : List Item :=
  match _found : s.fetch? offset limit with
  | none => []
  | some fetched => Item.ofFetched fetched :: s.listingFrom limit fetched.next
termination_by s.capacity - offset
decreasing_by
  have taken := lt_next_of_fetch? _found
  omega

/-- What is found in a store. -/
def listing (s : Store) (limit : Nat) : List Item := s.listingFrom limit 0

/-- What is found in a program of given lines, from some line on. -/
theorem listingFrom_of_program {before : Bytes} {lines : List Bytes}
    (stored : s.program = before ++ lines.flatMap (· ++ [Byte.statementEnd]))
    (plain : ∀ line ∈ lines, ∀ b ∈ line, Byte.isControl b = false) (limit : Nat) :
    s.listingFrom limit before.length = lines.map (Item.ofLine limit) := by
  induction lines generalizing before with
  | nil =>
    have ended : s.program.length = before.length := by simp [stored]
    have nothing := s.fetch?_length limit
    rw [ended] at nothing
    rw [listingFrom, nothing]
    rfl
  | cons line lines ih =>
    have plain' := plain line List.mem_cons_self
    have split : s.program = before ++ (line ++ Byte.statementEnd ::
        lines.flatMap (· ++ [Byte.statementEnd])) := by simp [stored]
    have found := fetch?_statement limit split plain'
    have stored' : s.program = (before ++ (line ++ [Byte.statementEnd])) ++
        lines.flatMap (· ++ [Byte.statementEnd]) := by simp [split]
    have later := ih stored' fun other member => plain other (List.mem_cons_of_mem line member)
    have next : (before ++ (line ++ [Byte.statementEnd])).length =
        before.length + line.length + 1 := by
      simp
      omega
    rw [next] at later
    rw [listingFrom, found]
    dsimp only
    rw [later, List.map_cons, Item.ofFetched, Item.ofLine]
    by_cases long : limit < line.length
    · simp [long]
    · simp [long, List.take_of_length_le (Nat.le_of_not_lt long)]

/-- The statements that are found in a program are those that it consists of. -/
theorem length_listing {code : List Instruction}
    (program : s.program = Instruction.encode code) (proper : ∀ i ∈ code, i.Proper) (limit : Nat) :
    (s.listing limit).length = code.length := by
  have lines : s.program =
      [] ++ (code.map Instruction.text).flatMap (· ++ [Byte.statementEnd]) := by
    rw [program, Instruction.encode, List.flatMap_map, List.nil_append]
  have plain : ∀ line ∈ code.map Instruction.text, ∀ b ∈ line, Byte.isControl b = false := by
    intro line member
    obtain ⟨i, inCode, rfl⟩ := List.mem_map.mp member
    exact (proper i inCode).plain
  have listed := listingFrom_of_program lines plain limit
  rw [listing, show 0 = ([] : Bytes).length from rfl, listed]
  simp

end Store

namespace Machine

open DownloadFilter

variable {m k : Machine} {stream : Bytes} {dest : Destination}

/-- As long as no byte of a download is refused or ends it, the machine passes them on. -/
theorem receiveAll_of_more (device : m.device = .storeProgram)
    (more : outcomes stream (m.filter, m.store) = List.replicate stream.length (.ok .more))
    (dest : Destination) : m.receiveAll stream dest =
      { m with filter := (fed stream (m.filter, m.store)).1
               store := (fed stream (m.filter, m.store)).2 } := by
  induction stream generalizing m with
  | nil => rfl
  | cons b stream ih =>
    obtain ⟨first, later⟩ := List.cons.inj more
    obtain ⟨filter, store, processed⟩ : ∃ filter store,
        process b (m.filter, m.store) = .ok .more (filter, store) := by
      cases done : process b (m.filter, m.store) with
      | ok outcome w =>
        rw [done] at first
        cases first
        exact ⟨w.1, w.2, rfl⟩
      | error f w =>
        rw [done] at first
        cases first
    have received : m.receive b dest = { m with filter, store } := by
      simp only [receive, device, download_of_more processed]
    change (m.receive b dest).receiveAll stream dest = _
    rw [processed] at later
    have passed : { m with filter, store }.receiveAll stream dest = _ := ih device later
    rw [received, passed]
    simp only [fed, List.foldl_cons, processed, Attempt.reached_ok]

/-- A stream of lines that are not about downloads, between the statements that begin and end one, is
stored if there is room for it. -/
theorem stored_of_own (idle : Idle k) (two : 2 ≤ k.limits.statementLength)
    (ended : stream.lines.getLast? = some []) (own : ∀ line ∈ stream.lines, line.isRemote = false)
    (room : stream.length < k.store.capacity) (reliable : k.store.medium.IsReliable)
    (dest : Destination) :
    let n := k.receiveAll (Instruction.encode [.beginDownload] ++ stream ++
      Instruction.encode [.endDownload]) dest
    n.store.valid = true ∧ n.store.program = stream.kept := by
  have positive : 0 < k.store.capacity := Nat.zero_lt_of_lt room
  have fits : stream.kept.length < k.store.capacity := Nat.lt_of_le_of_lt stream.length_kept_le room
  obtain ⟨filling, -⟩ := filling_of_beginDownload idle two positive reliable dest
  rw [receiveAll_append, receiveAll_append]
  generalize k.receiveAll (Instruction.encode [.beginDownload]) dest = n at filling
  obtain ⟨fitting, start, -⟩ := filling.fits positive
  -- A download begins with a fresh filter, as the lemmas about streams of bytes ask for.
  have begun : n.filter = .fresh := by
    have place := filling.place
    cases filter : n.filter with
    | mk at' overflowed =>
      rw [filter] at place fitting
      obtain rfl : at' = .lineStart := place
      obtain rfl : overflowed = false := fitting
      rfl
  have goesOn : GoesOn stream := by
    intro line member
    cases ends : ending? line with
    | none => rfl
    | some outcome =>
      obtain ⟨_, _, _, -, remote, -⟩ := exists_cons_cons_of_ending? ends
      rw [own line member] at remote
      cases remote
  have given := given_nil (filling.capacity.symm ▸ positive) filling.invalid filling.reliable start
  rw [filling.capacity, ← begun] at given
  obtain ⟨given, results⟩ := given_fed positive given goesOn
  rw [if_pos fits] at results
  have passed := receiveAll_of_more filling.device results dest
  obtain ⟨done, line, cut, place⟩ := given.place
  obtain rfl : line = [] := by simpa [cut] using ended
  have filled : Filling k.store.capacity .lineStart stream.kept (n.receiveAll stream dest) := by
    rw [passed]
    refine ⟨filling.device, filling.stopped, place, given.invalid, given.reliable, given.capacity,
      fun _ => ⟨?_, given.fits fits⟩, fun full => absurd fits (Nat.not_lt_of_le full)⟩
    exact given.overflowed.trans (decide_eq_false (Nat.not_le_of_lt fits))
  obtain ⟨-, -, stored⟩ := filled.endDownload (fun b => ne_programEnd_of_mem_kept) dest
  rw [if_pos fits] at stored
  exact ⟨stored.1, stored.2.1⟩

/-- What a machine finds in a stream of lines that are not about downloads, and what is fetched from
a store into which the stream was downloaded, are the same, whatever number of bytes a statement may
have. -/
theorem items_eq_listing (idle : Idle m) (ended : stream.lines.getLast? = some [])
    (own : ∀ line ∈ stream.lines, line.isRemote = false) (storing : Idle k)
    (two : 2 ≤ k.limits.statementLength) (room : stream.length < k.store.capacity)
    (reliable : k.store.medium.IsReliable) (dest dest' : Destination) :
    let n := k.receiveAll (Instruction.encode [.beginDownload] ++ stream ++
      Instruction.encode [.endDownload]) dest'
    n.store.valid = true ∧
      m.items dest stream = n.store.listing m.limits.statementLength := by
  intro n
  obtain ⟨valid, stored⟩ := stored_of_own storing two ended own room reliable dest'
  refine ⟨valid, ?_⟩
  obtain ⟨done, line, cut⟩ := exists_lines_eq_concat stream
  obtain rfl : line = [] := by simpa [cut] using ended
  let lines := done.filter (!·.isEmpty)
  have kept : stream.kept = [] ++ lines.flatMap (· ++ [Byte.statementEnd]) := by
    -- No line is about downloads, so only the empty ones are left out.
    have same : done.filter isStored = lines := by
      refine List.filter_congr fun line member => ?_
      rw [isStored, own line (by simp [cut, member]), Bool.not_false, Bool.and_true]
    rw [kept_of_lines cut, content, same, if_neg (by simp [not_isRemote_nil])]
    simp
  have plain : ∀ line ∈ lines, ∀ b ∈ line, Byte.isControl b = false := by
    intro line member
    have whole : line ∈ stream.lines := by simp [cut, List.mem_of_mem_filter member]
    exact plain_of_mem_lines whole
  have listed := Store.listingFrom_of_program (stored.trans kept) plain
  rw [items_of_own idle ended own dest, cut, Item.ofLines_append]
  exact (List.append_nil _).trans (listed m.limits.statementLength).symm

/-- Where statements may have two bytes, `#ab` is too long and `#a` is not. -/
theorem items_eq_listing_of_two : ∃ (m n : Machine) (stream : Bytes),
    m.limits.statementLength = 2 ∧ n.store.valid = true ∧
      m.items console stream = n.store.listing 2 ∧
      Item.ofLines 2 stream.lines = [.statement [0x23, 0x61], .tooLong] := by
  let limits : Limits := { statementLength := 2, storeCapacity := 16 }
  have idle : Idle (ofLimits limits (.ofLimits limits) 0) := ⟨rfl, rfl, rfl⟩
  have reliable : (ofLimits limits (.ofLimits limits) 0).store.medium.IsReliable := trivial
  have cut : lines ([0x23, 0x61, 0x0D, 0x23, 0x61, 0x62, 0x0A] ++ [Byte.statementEnd]) =
      [[0x23, 0x61], [0x23, 0x61, 0x62], []] := by decide
  obtain ⟨valid, same⟩ := items_eq_listing idle (getLast?_lines_concat _) (by rw [cut]; decide) idle
    (by decide) (by decide) reliable console console
  refine ⟨_, _, _, rfl, valid, same, ?_⟩
  rw [cut]
  decide

end Machine

end ControlScript
