import ControlScript.Store.Basic

/-!
# Downloads

During a download the incoming bytes pass a filter, which decides which of them become part
of the program. Lines that start with `R` manage the download and are never stored: `RX`
completes it, `RA` gives it up, and any other is dropped, as are empty lines and all control
bytes except the one that ends a statement.

Once the program does not fit, the rest of the download is dropped and `RX` gives it up.

## Main definitions

* `DownloadFilter` — where in a line the filter is, and whether the store has overflowed
* `DownloadFilter.Outcome` — what a byte means for the download
* `DownloadFilter.process` — one byte
-/

namespace ControlScript

/-- Where in a line the filter of a download is. -/
inductive DownloadPlace where
  | lineStart
  /-- After an `R` at the start of a line. -/
  | gotR
  /-- In a line that becomes part of the program. -/
  | storing
  /-- In a line that is dropped. -/
  | skipping
deriving DecidableEq, Repr

/-- The filter of a download. -/
structure DownloadFilter where
  place : DownloadPlace := .lineStart
  /-- Whether the program did not fit. -/
  overflowed : Bool := false
deriving DecidableEq, Repr

namespace DownloadFilter

/-- What a byte means for the download. -/
inductive Outcome where
  /-- The download goes on. -/
  | more
  /-- The program is complete. -/
  | finished
  /-- The download was given up and the store is clear. -/
  | aborted
deriving DecidableEq, Repr

/-- The filter at the start of a download. -/
def fresh : DownloadFilter := {}

/-- Adds a byte to the program. A program that does not fit is reported once. -/
def keep (b : UInt8) : Attempt (DownloadFilter × Store) Outcome := fun (f, s) =>
  if f.overflowed then .ok .more (f, s)
  else
    match Store.append b s with
    | .ok _ s => .ok .more (f, s)
    | .error e s => .error e ({ f with overflowed := true }, s)

/-- Ends the download with a last operation on the store. -/
def conclude (outcome : Outcome) (last : Attempt Store Unit) :
    Attempt (DownloadFilter × Store) Outcome := fun (_, s) =>
  match last s with
  | .ok _ s => .ok outcome (fresh, s)
  | .error e s => .error e (fresh, s)

/-- Gives the download up. -/
def abort : Attempt (DownloadFilter × Store) Outcome := conclude .aborted Store.clear

/-- Completes the download. -/
def finish : Attempt (DownloadFilter × Store) Outcome := conclude .finished Store.finishDownload

/-- Moves on to another place. -/
def moveTo (place : DownloadPlace) : Attempt (DownloadFilter × Store) Outcome := fun (f, s) =>
  .ok .more ({ f with place }, s)

/-- The place after a byte that stands in a line. -/
def placeAfter (inside : DownloadPlace) (b : UInt8) : DownloadPlace :=
  if b = Byte.statementEnd then .lineStart else inside

/-- Filters one byte. -/
def process (b : UInt8) : Attempt (DownloadFilter × Store) Outcome := do
  if Byte.isControl b && b != Byte.statementEnd then return .more
  let (filter, _) ← get
  match filter.place with
  | .lineStart =>
    if Byte.spells 'R' b then moveTo .gotR
    else if b = Byte.statementEnd then return .more
    else
      let _ ← moveTo .storing
      keep b
  | .gotR =>
    if Byte.spells 'X' b then
      if filter.overflowed then abort else finish
    else if Byte.spells 'A' b then abort
    else moveTo (placeAfter .skipping b)
  | .storing =>
    let _ ← moveTo (placeAfter .storing b)
    keep b
  | .skipping => moveTo (placeAfter .skipping b)

end DownloadFilter

end ControlScript
