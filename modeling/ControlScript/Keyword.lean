import ControlScript.Text.Bytes

/-!
# Keywords

A source line that does not assign starts with a keyword. Keywords are spelled in any case
and end at a space or at the end of the line, so `delay=4` assigns to a variable `delay`.
-/

namespace ControlScript

/-- The words that a source line may start with. -/
inductive Keyword where
  | delay | set | ifThen | doLoop | whileLoop | endif | forever | endwhile | untilTrue | clear
  | run | elseThen | wait | stop | begin | finish | print | println | breakLoop | continueLoop
deriving DecidableEq, Repr

namespace Keyword

/-- All keywords. -/
def all : List Keyword :=
  [.delay, .set, .ifThen, .doLoop, .whileLoop, .endif, .forever, .endwhile, .untilTrue, .clear,
    .run, .elseThen, .wait, .stop, .begin, .finish, .print, .println, .breakLoop, .continueLoop]

/-- The spelling in capitals. -/
def text : Keyword → String
  | .delay => "DELAY"
  | .set => "SET"
  | .ifThen => "IF"
  | .doLoop => "DO"
  | .whileLoop => "WHILE"
  | .endif => "ENDIF"
  | .forever => "FOREVER"
  | .endwhile => "ENDWHILE"
  | .untilTrue => "UNTIL"
  | .clear => "CLEAR"
  | .run => "RUN"
  | .elseThen => "ELSE"
  | .wait => "WAIT"
  | .stop => "STOP"
  | .begin => "BEGIN"
  | .finish => "END"
  | .print => "PRINT"
  | .println => "PRINTLN"
  | .breakLoop => "BREAK"
  | .continueLoop => "CONTINUE"

/-- The spelling in capitals, as bytes. -/
def word (k : Keyword) : Bytes := Bytes.ofString k.text

/-- The keyword that a line starts with, if it starts with one. -/
def ofLine? (line : Bytes) : Option Keyword :=
  let first := Bytes.upper (line.takeWhile (· != Byte.space))
  all.find? (·.word == first)

/-- Every keyword is found in its own spelling. -/
theorem ofLine?_word (k : Keyword) : ofLine? k.word = some k := by cases k <;> decide

/-- Different keywords are spelled differently. -/
theorem word_injective {a b : Keyword} (same : a.word = b.word) : a = b :=
  Option.some.inj ((ofLine?_word a).symm.trans (same ▸ ofLine?_word b))

end Keyword

end ControlScript
