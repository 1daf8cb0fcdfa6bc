import ControlScript.Opcode
import ControlScript.Store.Basic

/-!
# Label search

Jumps name their target by a label. Every jump walks through the stored program from its
start to the statement that declares the label, so nothing has to be kept for it.

A declaration holds the letters `CL`, in either case, and then the label, spelled exactly;
no name character may follow. The first declaration of a label counts.
-/

namespace ControlScript.Store

/-- Whether `text`, the rest of a region, starts with a declaration of `label`. Past the end
of the region there is nothing but the end of the program. -/
def declares (label text : Bytes) : Bool :=
  let letters := Opcode.label.code
  let rest := text.drop letters.length
  Bytes.upper (text.take letters.length) == letters &&
    Bytes.startsWith label rest &&
    !Byte.isNameChar ((rest.drop label.length).headD Byte.programEnd)

/-- Walks through the rest of a program, of which `offset` bytes have been passed, to a
statement that declares `label`. `atStart` tells whether a statement starts here. -/
def searchLabel (label : Bytes) (offset : Nat) (atStart : Bool) : Bytes → Option Nat
  | [] => none
  | b :: rest =>
    if b = Byte.programEnd then none
    else if atStart && declares label (b :: rest) then some offset
    else searchLabel label (offset + 1) (b == Byte.statementEnd) rest

/-- The offset of the statement that declares a label. -/
def findLabel? (s : Store) (label : Bytes) : Option Nat :=
  if label.isEmpty then none else searchLabel label 0 true s.region

end ControlScript.Store
