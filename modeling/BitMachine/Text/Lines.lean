/-!
# Lines

A line ends with a line feed, and a carriage return directly before that line feed belongs to
the line end. What follows the last line feed is a line too, unless it is empty; a carriage
return at its end is part of the line. The rule is the same for characters and for bytes, so
`lines` takes the two marks as arguments.
-/

namespace BitMachine.Text

variable {α : Type} [BEq α]

/-- A finished line without the carriage return of its line end. -/
def dropReturn (ret : α) (line : List α) : List α :=
  if line.getLast?.any (· == ret) then line.dropLast else line

/-- The lines that a list of line-feed separated segments stands for. -/
def linesOfSegments (ret : α) : List (List α) → List (List α)
  | [] => []
  | [last] => if last.isEmpty then [] else [last]
  | segment :: rest => dropReturn ret segment :: linesOfSegments ret rest

/-- The lines of a text, for the given line feed and carriage return. -/
def linesWith (feed ret : α) (cs : List α) : List (List α) :=
  linesOfSegments ret (cs.splitOn feed)

/-- The lines of a text. -/
def lines (cs : List Char) : List (List Char) :=
  linesWith '\n' '\r' cs

/-- The lines of a file as bytes. -/
def byteLines (bs : List UInt8) : List (List UInt8) :=
  linesWith 10 13 bs

end BitMachine.Text
