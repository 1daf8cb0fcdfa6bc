import ControlScript.Text.Bytes

/-!
# Checksum

The CRC-32 of IEEE 802.3: the remainder of a byte string, read as a polynomial over two
elements with the low bit of each byte first, with all bits of the start value and of the
result inverted.

## Main definitions

* `Checksum.step` — one bit
* `Checksum.update` — one byte
* `Checksum.ofBytes` — a byte string
* `Checksum.toBytes` — the four bytes of a checksum, the lowest first
-/

namespace ControlScript

/-- A cyclic redundancy check of 32 bits. -/
abbrev Checksum := BitVec 32

namespace Checksum

/-- The generating polynomial, the lowest power in the highest bit. -/
def polynomial : Checksum := 0xEDB88320

/-- Divides by the polynomial for one bit. -/
def step (c : Checksum) : Checksum :=
  if c.getLsbD 0 then (c >>> 1) ^^^ polynomial else c >>> 1

/-- Takes one more byte in. -/
def update (c : Checksum) (b : UInt8) : Checksum :=
  Nat.repeat step 8 (c ^^^ b.toBitVec.setWidth 32)

/-- The checksum of a byte string. -/
def ofBytes (bytes : Bytes) : Checksum := ~~~(bytes.foldl update (~~~(0 : Checksum)))

/-- The four bytes of a checksum, the lowest first. -/
def toBytes (c : Checksum) : Bytes :=
  [0, 8, 16, 24].map fun place => UInt8.ofBitVec (c.extractLsb' place 8)

@[simp] theorem length_toBytes (c : Checksum) : c.toBytes.length = 4 := rfl

/-- The check value of the standard: the checksum of the digits one to nine. -/
theorem ofBytes_digits : ofBytes (Bytes.ofString "123456789") = 0xCBF43926 := by
  decide +kernel

end Checksum

end ControlScript
