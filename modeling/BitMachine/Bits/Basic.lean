import BitMachine.Text.Quoted

/-!
# Bit-strings

A bit-string is one or more binary digits, most significant first, with an optional sign mark
in front. It is the only kind of value that registers and memory hold.

* `Bits` — a bit-string; the type rules out the empty one.
* `Bits.parse` — reads a text, and names the first thing that is wrong with it.
* `Bits.text` — the one text that stands for a bit-string.
-/

namespace BitMachine

/-- What can be wrong with a text that should be a binary literal. -/
inductive LiteralError where
  /-- There are no digits. -/
  | empty
  /-- A character is no binary digit. -/
  | invalidDigit (c : Char)
  /-- The literal has a sign mark where none is allowed. -/
  | signed (text : String)
  /-- The value does not fit in 64 bits. -/
  | overflow (text : String)
deriving DecidableEq

/-- The message for a literal error. -/
def LiteralError.message : LiteralError → String
  | .empty => "empty bit-string"
  | .invalidDigit c => s!"invalid binary digit {Text.quoteChar c}"
  | .signed text => s!"signed value {text} where an unsigned one is required"
  | .overflow text => s!"value {text} does not fit in 64 bits"

/-- A non-empty row of binary digits, most significant first, that may carry a sign mark. -/
structure Bits where
  /-- Whether the sign mark is present. -/
  negative : Bool
  /-- The digits, most significant first. -/
  digits : List Bool
  /-- There is at least one digit. -/
  digits_ne_nil : digits ≠ []
deriving DecidableEq

/-- The sign mark in front of negative differences. -/
def signMark : Char := '-'

/-- The character of a binary digit. -/
def digitChar (d : Bool) : Char :=
  if d then '1' else '0'

/-- The binary digit that a character stands for. -/
def readDigit (c : Char) : Except LiteralError Bool :=
  if c = '0' then .ok false
  else if c = '1' then .ok true
  else .error (.invalidDigit c)

/-- The digits that a text consists of; the first character that is none is reported. -/
def readDigits (cs : List Char) : Except LiteralError (List Bool) :=
  cs.mapM readDigit

namespace Bits

/-- A bit-string with the given digits, of which there has to be at least one. -/
def ofDigits (negative : Bool) : List Bool → Except LiteralError Bits
  | [] => .error .empty
  | d :: ds => .ok ⟨negative, d :: ds, List.cons_ne_nil d ds⟩

/-- Whether a text starts with the sign mark, and what follows the mark. -/
def splitSign : List Char → Bool × List Char
  | [] => (false, [])
  | c :: cs => if c = signMark then (true, cs) else (false, c :: cs)

/-- Reads a bit-string from characters. -/
def ofChars (cs : List Char) : Except LiteralError Bits := do
  let (negative, body) := splitSign cs
  ofDigits negative (← readDigits body)

/-- Reads a bit-string. -/
def parse (s : String) : Except LiteralError Bits :=
  ofChars s.toList

/-- Reads a bit-string that must not have a sign mark. -/
def parseUnsigned (s : String) : Except LiteralError Bits := do
  let (negative, body) := splitSign s.toList
  if negative then .error (.signed s)
  ofDigits false (← readDigits body)

/-- The characters of the digits, without the sign mark. -/
def digitChars (b : Bits) : List Char :=
  b.digits.map digitChar

/-- The characters of a bit-string. -/
def chars (b : Bits) : List Char :=
  if b.negative then signMark :: b.digitChars else b.digitChars

/-- The text of a bit-string. -/
def text (b : Bits) : String :=
  String.ofList b.chars

/-- The text of the digits, without the sign mark. -/
def digitText (b : Bits) : String :=
  String.ofList b.digitChars

/-- The number of digits. -/
def width (b : Bits) : Nat :=
  b.digits.length

/-- The inspection text, such as `0b101`. -/
def inspect (b : Bits) : String :=
  "0b" ++ b.text

end Bits

end BitMachine
