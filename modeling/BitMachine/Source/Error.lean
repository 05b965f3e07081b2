import BitMachine.Address

/-!
# Errors in source texts

What can be wrong with a line of a source text. Every error is reported with the number of its
line, counted from 1.
-/

namespace BitMachine

/-- What is wrong with a source line. -/
inductive SourceFlaw where
  /-- The line has both spaces and tabs between its tokens. -/
  | mixedSeparators
  /-- The first token names no operation and no directive. -/
  | unknownMnemonic (mnemonic : String)
  /-- A token is no operand. -/
  | unknownOperand (token : String)
  /-- The operands do not suit the mnemonic. -/
  | operandMismatch (mnemonic : String) (expected : String)
  /-- The number in an operand does not fit in 64 bits. -/
  | valueOutOfRange (token : String)
  /-- The word would stand past the last slot. -/
  | noAddressLeft
  /-- An earlier line has placed a word at the address. -/
  | duplicateAddress (addr : Address)
deriving DecidableEq

/-- An error in a source text. -/
structure SourceError where
  /-- The number of the line, counted from 1. -/
  line : Nat
  /-- What is wrong with it. -/
  flaw : SourceFlaw
deriving DecidableEq

/-- The message for an error in a source text. -/
def SourceError.message (e : SourceError) : String :=
  let line := e.line
  match e.flaw with
  | .mixedSeparators => s!"syntax error on line {line}: tabs and spaces mixed as separators"
  | .unknownMnemonic mnemonic => s!"unknown mnemonic on line {line}: {mnemonic}"
  | .unknownOperand token => s!"unrecognized operand on line {line}: {token}"
  | .operandMismatch mnemonic expected =>
    s!"bad operands for {mnemonic} on line {line}: expected {expected}"
  | .valueOutOfRange token => s!"value out of range on line {line}: {token}"
  | .noAddressLeft => s!"no address left for the word on line {line}"
  | .duplicateAddress addr => s!"address {addr.text} written twice (line {line})"

end BitMachine
