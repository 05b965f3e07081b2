/-!
# Decimal numbers

Reading runs of decimal digits. Only the ten ASCII digits count, there is no sign, and leading
zeros are allowed.
-/

namespace BitMachine.Text

/-- The number that a non-empty run of decimal digits stands for. -/
def readDecimal? (cs : List Char) : Option Nat :=
  if !cs.isEmpty && cs.all Char.isDigit then some (Nat.ofDigitChars 10 cs 0) else none

/-- A number as a 64-bit integer, if it fits. -/
def narrow? (n : Nat) : Option UInt64 :=
  if h : n < UInt64.size then some (UInt64.ofNatLT n h) else none

/-- The 64-bit number that a run of decimal digits stands for. -/
def readUInt64? (cs : List Char) : Option UInt64 :=
  (readDecimal? cs).bind narrow?

end BitMachine.Text
