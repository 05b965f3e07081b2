import BitMachine.Text.Printable

/-!
# Quoted text

Characters and strings inside quotes, for error messages. Five characters have short escapes;
the quote in use is escaped and the other is not; a character without a visible form of its own
is written as its hexadecimal code point.
-/

namespace BitMachine.Text

/-- The code point escape of a character, such as the one for U+0301. -/
def escapeCodePoint (c : Char) : List Char :=
  "\\u\x7b".toList ++ Nat.toDigits 16 c.toNat ++ ['\x7d']

/-- A character between quotes `quote`. -/
def escapeChar (quote : Char) (c : Char) : List Char :=
  if c = '\x00' then ['\\', '0']
  else if c = '\t' then ['\\', 't']
  else if c = '\r' then ['\\', 'r']
  else if c = '\n' then ['\\', 'n']
  else if c = '\\' || c = quote then ['\\', c]
  else if isPrintable c then [c]
  else escapeCodePoint c

/-- A character in single quotes. -/
def quoteChar (c : Char) : String :=
  let quote := '\x27'
  String.ofList (quote :: escapeChar quote c ++ [quote])

/-- A text in double quotes. -/
def quoteString (s : String) : String :=
  let quote := '\x22'
  String.ofList (quote :: s.toList.flatMap (escapeChar quote) ++ [quote])

end BitMachine.Text
