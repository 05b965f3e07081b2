import BitMachine.Bits.Value

/-!
# Addition and subtraction of bit-strings

Both operations work digit by digit from the least significant end with a carry or a borrow, so
operands and results may have any length.

* `rippleAdd`, `rippleSub` — the two digit loops over columns of digits.
* `Bits.add`, `Bits.sub` — for bit-strings, which must not have a sign mark.
* `addLiterals`, `subLiterals` — for texts, the left operand checked first.

A sum or a difference has no leading zeros. A negative difference carries the sign mark; the
difference zero is the digit zero.
-/

namespace BitMachine

/-- The sum of columns of digits, least significant first, given the carry into them. -/
def rippleAdd (carry : Bool) : List (Bool × Bool) → List Bool
  | [] => if carry then [true] else []
  | (x, y) :: rest => (x ^^ y ^^ carry) :: rippleAdd (x && y || carry && (x ^^ y)) rest

/-- The difference of columns of digits, least significant first, given the borrow into them,
    and the borrow that is left over. -/
def rippleSub (borrow : Bool) : List (Bool × Bool) → List Bool × Bool
  | [] => ([], borrow)
  | (x, y) :: rest =>
    let (ds, out) := rippleSub (!x && (y || borrow) || y && borrow) rest
    ((x ^^ y ^^ borrow) :: ds, out)

/-- The digits of two numbers side by side, least significant first, the shorter one with
    zeros in front. -/
def columns (a b : List Bool) : List (Bool × Bool) :=
  let width := max a.length b.length
  (padDigits width a).reverse.zip (padDigits width b).reverse

/-- Digits without the zeros in front. -/
def stripZeros (ds : List Bool) : List Bool :=
  ds.dropWhile (!·)

/-- Whether the first of two rows of the same length comes first in lexicographic order. -/
def precedes : List Bool → List Bool → Bool
  | x :: xs, y :: ys => if x == y then precedes xs ys else y
  | _, _ => false

/-- Whether the first row of digits stands for the smaller number. -/
def isSmaller (a b : List Bool) : Bool :=
  let a := stripZeros a
  let b := stripZeros b
  if a.length == b.length then precedes a b else a.length < b.length

namespace Bits

/-- The bit-string without leading zeros for the given digits; zero has no sign mark. -/
def canonical (negative : Bool) (ds : List Bool) : Bits :=
  match stripZeros ds with
  | [] => zero
  | d :: rest => ⟨negative, d :: rest, List.cons_ne_nil d rest⟩

/-- The digits of a bit-string that must not have a sign mark. -/
def unsignedDigits (b : Bits) : Except LiteralError (List Bool) :=
  if b.negative then .error (.signed b.text) else .ok b.digits

/-- The sum of two rows of digits. -/
def sumOf (a b : List Bool) : Bits :=
  canonical false (rippleAdd false (columns a b)).reverse

/-- The difference of two rows of digits: the smaller number is taken from the larger. -/
def differenceOf (a b : List Bool) : Bits :=
  if isSmaller a b then canonical true (rippleSub false (columns b a)).1.reverse
  else canonical false (rippleSub false (columns a b)).1.reverse

/-- The sum of two bit-strings. -/
def add (a b : Bits) : Except LiteralError Bits := do
  let x ← a.unsignedDigits
  let y ← b.unsignedDigits
  return sumOf x y

/-- The difference of two bit-strings. -/
def sub (a b : Bits) : Except LiteralError Bits := do
  let x ← a.unsignedDigits
  let y ← b.unsignedDigits
  return differenceOf x y

end Bits

/-- The sum of two unsigned literals. -/
def addLiterals (a b : String) : Except LiteralError Bits := do
  let x ← Bits.parseUnsigned a
  let y ← Bits.parseUnsigned b
  x.add y

/-- The difference of two unsigned literals. -/
def subLiterals (a b : String) : Except LiteralError Bits := do
  let x ← Bits.parseUnsigned a
  let y ← Bits.parseUnsigned b
  x.sub y

end BitMachine
