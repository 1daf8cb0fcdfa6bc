import ControlScript.Attempt
import ControlScript.Limits
import ControlScript.Store.Medium

/-!
# The program store

A store keeps one program in a region of fixed size. The program is what stands in front of
the first `Byte.programEnd`. A download writes it byte by byte and leaves room for that
byte; only a completed download makes the store valid.

## Main definitions

* `Store` — a region with its write cursor, its validity and its medium
* `Store.program` — the stored program
* `Store.beginDownload`, `Store.append`, `Store.finishDownload`, `Store.clear`
* `Store.fetch?` — one statement
* `Store.describe` — a description for whoever looks after the machine

Whatever is written is saved when a download begins or ends and when the store is cleared.
If saving fails, what was written stays written.
-/

namespace ControlScript

/-- A program store. -/
structure Store where
  /-- The bytes of the store; their number is its capacity. -/
  region : Bytes
  /-- Where the next byte of a download goes. -/
  cursor : Nat := 0
  /-- Whether the program may be started. -/
  valid : Bool
  /-- What backs the store. -/
  medium : Medium := .volatile
deriving DecidableEq, Repr

/-- A statement as it is fetched from a store. -/
structure Fetched where
  /-- Where the statement after it starts. -/
  next : Nat
  /-- Whether the statement is longer than what was asked for. -/
  truncated : Bool
  /-- The statement as far as it was asked for. -/
  text : Bytes
deriving DecidableEq, Repr

namespace Store

/-- The store with a region: valid if there is a program. -/
def ofRegion (region : Bytes) (medium : Medium) : Store :=
  { region, valid := region.headD Byte.programEnd != Byte.programEnd, medium }

/-- The store of a machine that has none of its own. -/
def ofLimits (limits : Limits) : Store :=
  ofRegion (List.replicate limits.storeCapacity Byte.programEnd) .volatile

/-- A store without a medium whose region starts with the given bytes, as far as they fit. -/
def ofBytes (capacity : Nat) (bytes : Bytes) : Store :=
  ofRegion (bytes.take capacity ++ List.replicate (capacity - bytes.length) Byte.programEnd)
    .volatile

/-- The store opened on a file, unless the file is out of reach. -/
def open? (file : File) (capacity : Nat) : Option Store :=
  (file.load? capacity).map fun region => ofRegion region (.file file)

/-- The number of bytes in the store. -/
def capacity (s : Store) : Nat := s.region.length

/-- The byte at an offset; past the end, the end of the program. -/
def byteAt (s : Store) (offset : Nat) : UInt8 := s.region.getD offset Byte.programEnd

/-- The stored program. -/
def program (s : Store) : Bytes := s.region.takeWhile (· != Byte.programEnd)

/-- The length of the stored program. -/
def length (s : Store) : Nat := s.program.length

/-- Whether there is no program. -/
def isEmpty (s : Store) : Bool := s.program.isEmpty

/-- Writes a byte. What would go past the end is not written. -/
def write (s : Store) (offset : Nat) (b : UInt8) : Store :=
  { s with region := s.region.set offset b }

/-- Makes the region durable. -/
def save : Attempt Store Unit := fun s =>
  let after := { s with medium := s.medium.afterSave s.region }
  if s.medium.fails then .error (.of .storageFailure) after else .ok () after

/-- Removes the program. -/
def clear : Attempt Store Unit := do
  modify fun s => { s.write 0 Byte.programEnd with cursor := 0, valid := false }
  save

/-- Makes room for a new program. -/
def beginDownload : Attempt Store Unit := clear

/-- Adds a byte to the program, if there is room for it and for the end of the program. -/
def append (b : UInt8) : Attempt Store Unit := fun s =>
  if s.capacity ≤ s.cursor + 1 then .error (.of .storeFull) s
  else .ok () { s.write s.cursor b with cursor := s.cursor + 1 }

/-- Ends the program. -/
def finishDownload : Attempt Store Unit := do
  modify fun s => { s.write s.cursor Byte.programEnd with valid := true }
  save

/-- The statement at an offset, without the byte that ends it and cut off after `limit`
bytes. There is none at the end of the program or past the end of the region. -/
def fetch? (s : Store) (offset limit : Nat) : Option Fetched :=
  let rest := s.region.drop offset
  if rest.headD Byte.programEnd = Byte.programEnd then none
  else
    let body := rest.takeWhile fun b => b != Byte.programEnd && b != Byte.statementEnd
    let ended := rest[body.length]? = some Byte.statementEnd
    some {
      next := offset + body.length + if ended then 1 else 0
      truncated := limit < body.length
      text := body.take limit }

/-- A description of the store. -/
def describe (s : Store) : String :=
  s!"ProgramStore \x7b capacity: {s.capacity}, cursor: {s.cursor}, valid: {s.valid} \x7d"

@[simp] theorem capacity_write (s : Store) (offset : Nat) (b : UInt8) :
    (s.write offset b).capacity = s.capacity := by
  simp [capacity, write]

/-- Saving changes the medium alone. -/
theorem reached_save (s : Store) :
    Attempt.reached (save s) = { s with medium := s.medium.afterSave s.region } := by
  unfold save
  dsimp only
  split <;> rfl

/-- Where only the end of the program has room, a byte is refused. -/
theorem append_of_full {s : Store} (full : s.capacity ≤ s.cursor + 1) (b : UInt8) :
    append b s = .error (.of .storeFull) s := if_pos full

/-- Where there is room, a byte is written and the cursor goes on. -/
theorem append_of_room {s : Store} (room : s.cursor + 1 < s.capacity) (b : UInt8) :
    append b s = .ok () { s.write s.cursor b with cursor := s.cursor + 1 } :=
  if_neg (Nat.not_le_of_lt room)

/-- What removing the program leaves, even if saving failed. -/
theorem reached_clear (s : Store) : Attempt.reached (clear s) =
    { s.write 0 Byte.programEnd with
      cursor := 0
      valid := false
      medium := s.medium.afterSave (s.write 0 Byte.programEnd).region } :=
  reached_save { s.write 0 Byte.programEnd with cursor := 0, valid := false }

/-- What ending the program leaves, even if saving failed. -/
theorem reached_finishDownload (s : Store) : Attempt.reached (finishDownload s) =
    { s.write s.cursor Byte.programEnd with
      valid := true
      medium := s.medium.afterSave (s.write s.cursor Byte.programEnd).region } :=
  reached_save { s.write s.cursor Byte.programEnd with valid := true }

/-- After the store was cleared there is no program, even if saving failed. -/
theorem program_clear (s : Store) : (Attempt.reached (clear s)).program = [] := by
  rw [reached_clear]
  cases region : s.region <;> simp [program, write, region]

end Store

end ControlScript
