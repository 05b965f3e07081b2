import BitMachine.Bits.Basic
import BitMachine.Text.Blank

/-!
# Words

A word is what one memory slot holds: a row of bit-strings, called tokens. In an instruction the
first token is the opcode and the others are the operands. The empty word exists as a value, but
memory refuses it.
-/

namespace BitMachine

/-- A row of tokens. -/
structure Word where
  /-- The tokens, the opcode first. -/
  tokens : List Bits
deriving DecidableEq

namespace Word

/-- Reads the blank-separated tokens of a word. -/
def ofChars (cs : List Char) : Except LiteralError Word := do
  return ⟨← (Text.words cs).mapM Bits.ofChars⟩

/-- Reads a word; the first malformed token is reported. -/
def parse (s : String) : Except LiteralError Word :=
  ofChars s.toList

/-- The first token. -/
def first? (w : Word) : Option Bits :=
  w.tokens.head?

/-- The tokens after the first one. -/
def operands (w : Word) : List Bits :=
  w.tokens.tail

/-- The number of tokens. -/
def size (w : Word) : Nat :=
  w.tokens.length

/-- Whether there are no tokens. -/
def isEmpty (w : Word) : Bool :=
  w.tokens.isEmpty

/-- The tokens of a word separated by single spaces. -/
def text (w : Word) : String :=
  " ".intercalate (w.tokens.map Bits.text)

/-- The inspection text of a word. -/
def inspect (w : Word) : String :=
  s!"Word[{w.text}]"

end Word

end BitMachine
