import ControlScript.Store.Checksum

/-!
# Media

A program store may be backed by a file, which holds an image of the store's region: the
region, then its checksum. An image of another size or with a wrong checksum counts as
empty, so that a damaged program is never run.

## Main definitions

* `Medium` — what backs a store
* `Image.ofRegion`, `Image.region?` — writing and reading an image
* `File.load?` — the region that a file stands for
* `Medium.afterSave`, `Medium.fails` — making a region durable
-/

namespace ControlScript

namespace Image

/-- The image of a region. -/
def ofRegion (region : Bytes) : Bytes := region ++ (Checksum.ofBytes region).toBytes

/-- The region of an image for a store of this capacity, if the image is sound. -/
def region? (capacity : Nat) (image : Bytes) : Option Bytes :=
  let region := image.take capacity
  if image.length = capacity + 4 ∧ image.drop capacity = (Checksum.ofBytes region).toBytes then
    some region
  else none

/-- The image of a region is sound. -/
theorem region?_ofRegion (region : Bytes) :
    region? region.length (ofRegion region) = some region := by
  simp [region?, ofRegion]

end Image

/-- A file that may hold an image. Writing to it may fail at any time: what comes of each attempt
is no choice of the machine and is given in advance. -/
structure File where
  /-- What the file holds, `none` when there is no file. -/
  contents : Option Bytes := none
  /-- Whether the file can be read and written. -/
  reachable : Bool := true
  /-- Whether each of the next attempts to write fails, even if the file can be reached. An
  attempt after these does not. -/
  failures : List Bool := []
deriving DecidableEq, Repr

/-- Whether the next attempt to write fails. -/
def File.fails (file : File) : Bool := !file.reachable || file.failures.headD false

/-- A file that can be written can also be read. -/
theorem File.reachable_of_not_fails {file : File} (saves : file.fails = false) :
    file.reachable = true := by
  simp only [fails, Bool.or_eq_false_iff, Bool.not_eq_false'] at saves
  exact saves.1

/-- The file after an attempt to write to it. One that fails leaves the contents as they were. -/
def File.afterWrite (file : File) (contents : Bytes) : File :=
  { file with
    contents := if file.fails then file.contents else some contents
    failures := file.failures.tail }

/-- The region of a store of this capacity that is opened on a file: that of a sound image
and an empty one otherwise. A file out of reach cannot be opened. -/
def File.load? (file : File) (capacity : Nat) : Option Bytes :=
  if file.reachable then
    some ((file.contents.bind (Image.region? capacity)).getD
      (List.replicate capacity Byte.programEnd))
  else none

/-- What backs a program store. -/
inductive Medium where
  /-- Nothing: the program is lost with the machine. -/
  | volatile
  | file (file : File)
deriving DecidableEq, Repr

namespace Medium

/-- The medium after an attempt to make a region durable. -/
def afterSave (region : Bytes) : Medium → Medium
  | .volatile => .volatile
  | .file f => .file (f.afterWrite (Image.ofRegion region))

/-- Whether the next attempt to make a region durable fails. -/
def fails : Medium → Bool
  | .volatile => false
  | .file f => f.fails

/-- The file behind a store. -/
def file? : Medium → Option File
  | .volatile => none
  | .file f => some f

/-- What was saved is loaded again. -/
theorem load?_of_afterSave {f : File} (region : Bytes) (saves : fails (.file f) = false) :
    (afterSave region (.file f)).file?.bind (·.load? region.length) = some region := by
  have written : f.fails = false := saves
  have reachable : f.reachable = true := File.reachable_of_not_fails written
  simp [afterSave, File.afterWrite, written, file?, File.load?, reachable,
    Image.region?_ofRegion]

end Medium

end ControlScript
