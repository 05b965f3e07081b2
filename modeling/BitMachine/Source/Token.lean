import BitMachine.Source.Error
import BitMachine.Text.Blank

/-!
# Tokens of a source line

A line is trimmed, loses its comment, and falls into tokens at its separators, which are either
all spaces or all tabs. A comment starts with a `#` at the start of the line or after a
separator; a `#` inside a token is part of the token.
-/

namespace BitMachine.Source

/-- The characters that separate tokens. -/
def isSeparator (c : Char) : Bool :=
  c == ' ' || c == '\t'

/-- What stands before the comment; `gap` says whether a comment may start here. -/
def beforeComment (gap : Bool) : List Char → List Char
  | [] => []
  | c :: cs => if gap && c == '#' then [] else c :: beforeComment (isSeparator c) cs

/-- The part of a line that is neither comment nor blank at an end. -/
def codePart (line : List Char) : List Char :=
  Text.trimEnd (beforeComment true (Text.trim line))

/-- The tokens of a line. There are none in blank lines and in lines that are all comment. -/
def tokens (line : List Char) : Except SourceFlaw (List (List Char)) :=
  let code := codePart line
  if code.contains ' ' && code.contains '\t' then .error .mixedSeparators
  else .ok (Text.pieces isSeparator code)

end BitMachine.Source
