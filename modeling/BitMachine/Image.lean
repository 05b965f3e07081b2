import BitMachine.FileError
import BitMachine.Program
import BitMachine.Text.Lines
import BitMachine.Text.Utf8

/-!
# Program images

A text format for programs. A line holds an address, a colon and the tokens of the word there;
a semicolon starts a comment; blank lines and lines that start with a semicolon are skipped.
An image lists no address twice and no empty word.

* `Image.render` — the image of a program.
* `Image.parse` — the program of an image, or the first flaw in the order of the lines.
* `Image.ofBytes` — the same for the content of a file. A line that is not UTF-8 is a flaw of
  its own, reported where it stands.
-/

namespace BitMachine

/-- What is wrong with a line of an image. -/
inductive ImageFlaw where
  /-- The line has no colon. -/
  | missingColon
  /-- What stands before the colon is no address. -/
  | address (cause : MalformedAddress)
  /-- A token is no bit-string. -/
  | token (cause : LiteralError)
  /-- There are no tokens. -/
  | missingWord (addr : Address)
  /-- An earlier line has a word for the address. -/
  | listedTwice (addr : Address)
deriving DecidableEq

/-- The message for a flaw in an image. -/
def ImageFlaw.message : ImageFlaw → String
  | .missingColon => "expected `0xN: word`"
  | .address cause => cause.message
  | .token cause => cause.message
  | .missingWord addr => s!"no word at {addr.text}"
  | .listedTwice addr => s!"{addr.text} listed twice"

/-- Why an image cannot be read or written. -/
inductive ImageError where
  /-- The file cannot be read or written. -/
  | file (cause : FileError)
  /-- A line, counted from 1, has a flaw. -/
  | malformed (line : Nat) (flaw : ImageFlaw)
deriving DecidableEq

/-- The message for an image error. -/
def ImageError.message : ImageError → String
  | .file cause => s!"I/O error: {cause.message}"
  | .malformed line flaw => s!"parse error on line {line}: {flaw.message}"

namespace Image

/-- The image of a program. -/
def render (p : Program) : String :=
  s!"; ZEV program image\n; {p.size} words\n\n" ++
    String.join (p.words.map fun (addr, w) => s!"{addr.text}: {w.text}\n")

/-- What stands before and after the first colon. -/
def splitColon? (cs : List Char) : Option (List Char × List Char) :=
  match cs.dropWhile (· != ':') with
  | [] => none
  | _ :: body => some (cs.takeWhile (· != ':'), body)

/-- The address and the word of a line that is neither blank nor a comment. -/
def entry (line : List Char) : Except ImageFlaw (Address × Word) := do
  let some (place, body) := splitColon? line | throw .missingColon
  let addr ← (Address.parse (String.ofList (Text.trim place))).mapError .address
  let w ← (Word.ofChars (body.takeWhile (· != ';'))).mapError .token
  if w.isEmpty then throw (.missingWord addr)
  return (addr, w)

/-- The program with the word of a further line. -/
def addLine (p : Program) (line : List Char) : Except ImageFlaw Program := do
  let line := Text.trim line
  if line.isEmpty || line.head? = some ';' then return p
  let (addr, w) ← entry line
  if (p.get? addr).isSome then throw (.listedTwice addr)
  return p.push addr w

/-- The program with the words of further lines, the first of which has the given number. A
    line that could not be read as text ends the reading. -/
def addLines (p : Program) (number : Nat) :
    List (Option (List Char)) → Except ImageError Program
  | [] => .ok p
  | none :: _ => .error (.file .invalidText)
  | some line :: rest =>
    match addLine p line with
    | .ok p => addLines p (number + 1) rest
    | .error flaw => .error (.malformed number flaw)

/-- The program of an image. -/
def parse (text : String) : Except ImageError Program :=
  addLines {} 1 ((Text.lines text.toList).map some)

/-- The program of an image file. -/
def ofBytes (content : List UInt8) : Except ImageError Program :=
  addLines {} 1 ((Text.byteLines content).map Text.decodeUtf8?)

/-- The content of an image file. -/
def toBytes (p : Program) : List UInt8 :=
  Text.encodeUtf8 (render p).toList

end Image

end BitMachine
