import BitMachine.Bits.Basic

/-!
# Values of bit-strings

The correspondence between binary literals and integers.

* `digitsValue` and `Bits.magnitude` — the number that digits stand for, without any bound.
* `decodeUnsigned`, `decodeSigned` — the 64-bit value of any text, or what is wrong with it.
* `Bits.unsigned`, `Bits.signed` — the same for a bit-string, where only a sign mark or the
  size of the value can be wrong.
* `Bits.ofNat`, `encodeUnsigned` — the shortest literal of a number, and one with zeros in
  front up to a width.
-/

namespace BitMachine

/-- The number that a row of digits stands for, most significant digit first. -/
def digitsValue (ds : List Bool) : Nat :=
  ds.foldl (fun n d => 2 * n + d.toNat) 0

/-- The value that digits extend a number to, as long as it stays below 2^64 digit by digit.
    The first offence counts: a wrong character, or a digit that makes the value too large. -/
def decodeDigits (whole : String) (value : UInt64) : List Char → Except LiteralError UInt64
  | [] => .ok value
  | c :: cs => do
    let d ← readDigit c
    let next := 2 * value.toNat + d.toNat
    if h : next < UInt64.size then decodeDigits whole (UInt64.ofNatLT next h) cs
    else .error (.overflow whole)

/-- The value of an unsigned literal. Leading zeros are allowed. -/
def decodeUnsigned (s : String) : Except LiteralError UInt64 :=
  match Bits.splitSign s.toList with
  | (true, _) => .error (.signed s)
  | (false, []) => .error .empty
  | (false, c :: cs) => decodeDigits s 0 (c :: cs)

/-- The number 2^63, the magnitude of the least signed value. -/
def signedLimit : Nat := 0x8000000000000000

/-- A signed value of the given magnitude, if it lies between -2^63 and 2^63 - 1. -/
def signedValue (text : String) (negative : Bool) (magnitude : Nat) : Except LiteralError Int :=
  if negative then
    if magnitude ≤ signedLimit then .ok (-(magnitude : Int)) else .error (.overflow text)
  else
    if magnitude < signedLimit then .ok (magnitude : Int) else .error (.overflow text)

/-- The value of a literal that may have a sign mark. -/
def decodeSigned (s : String) : Except LiteralError Int := do
  let (negative, body) := Bits.splitSign s.toList
  let magnitude ← decodeUnsigned (String.ofList body)
  signedValue s negative magnitude.toNat

/-- The binary digits of a number without leading zeros; zero has one digit. -/
def binaryDigits (n : Nat) : List Bool :=
  if n < 2 then [n == 1] else binaryDigits (n / 2) ++ [n % 2 == 1]
termination_by n
decreasing_by omega

theorem binaryDigits_ne_nil (n : Nat) : binaryDigits n ≠ [] := by
  unfold binaryDigits
  split <;> simp

namespace Bits

/-- The number that the digits stand for. -/
def magnitude (b : Bits) : Nat :=
  digitsValue b.digits

/-- The value of a bit-string without a sign mark, if it fits in 64 bits. -/
def unsigned (b : Bits) : Except LiteralError UInt64 :=
  if b.negative then .error (.signed b.text)
  else if h : b.magnitude < UInt64.size then .ok (UInt64.ofNatLT b.magnitude h)
  else .error (.overflow b.text)

/-- The signed value of a bit-string, if it fits in 64 bits. A magnitude of 2^64 or more is
    reported without the sign mark. -/
def signed (b : Bits) : Except LiteralError Int :=
  if b.magnitude < UInt64.size then signedValue b.text b.negative b.magnitude
  else .error (.overflow b.digitText)

/-- The shortest bit-string of a number. -/
def ofNat (n : Nat) : Bits :=
  ⟨false, binaryDigits n, binaryDigits_ne_nil n⟩

/-- The single digit zero. -/
def zero : Bits :=
  ofNat 0

end Bits

/-- Digits with zeros in front up to a width. -/
def padDigits (width : Nat) (ds : List Bool) : List Bool :=
  List.replicate (width - ds.length) false ++ ds

theorem padDigits_ne_nil {width : Nat} {ds : List Bool} (h : ds ≠ []) :
    padDigits width ds ≠ [] := by
  simp [padDigits, h]

/-- The bit-string of a number with at least `width` digits. It is never cut. Any width is
    allowed here; the widths in use are taken to be among those that a text formatter accepts. -/
def encodeUnsigned (value : UInt64) (width : Nat) : Bits :=
  ⟨false, padDigits width (binaryDigits value.toNat), padDigits_ne_nil (binaryDigits_ne_nil _)⟩

end BitMachine
