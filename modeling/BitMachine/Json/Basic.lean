/-!
# JSON values

A JSON value keeps its numbers and strings as they are written, without reading them: which
numbers and strings are acceptable depends on what they stand for.

* `Json.chars`, `Json.text` — the compact text of a value.
* `Json.ofString` and the other `of` functions — values for texts and numbers.
* `Json.unescape?` — the text that an escaped string stands for.
-/

namespace BitMachine

/-- A JSON value. -/
inductive Json where
  | null
  | bool (value : Bool)
  /-- A number as it is written. -/
  | number (literal : List Char)
  /-- A string as it is written between its quotes. -/
  | string (escaped : List Char)
  | array (items : List Json)
  /-- The members of an object in order, the keys as they are written between their quotes. -/
  | object (members : List (List Char × Json))

namespace Json

mutual

/-- The characters of the compact text of a value. -/
def chars : Json → List Char
  | .null => "null".toList
  | .bool true => "true".toList
  | .bool false => "false".toList
  | .number literal => literal
  | .string escaped => '"' :: escaped ++ ['"']
  | .array items => '[' :: itemChars items ++ [']']
  | .object members => '\x7b' :: memberChars members ++ ['\x7d']

/-- The characters of values separated by commas. -/
def itemChars : List Json → List Char
  | [] => []
  | [item] => item.chars
  | item :: rest => item.chars ++ ',' :: itemChars rest

/-- The characters of members separated by commas. -/
def memberChars : List (List Char × Json) → List Char
  | [] => []
  | [(key, value)] => '"' :: key ++ '"' :: ':' :: value.chars
  | (key, value) :: rest =>
    '"' :: key ++ '"' :: ':' :: value.chars ++ ',' :: memberChars rest

end

/-- The compact text of a value. -/
def text (j : Json) : String :=
  String.ofList j.chars

/-! ### Strings -/

/-- A character as it is written in a string. -/
def escapeChar (c : Char) : List Char :=
  if c = '"' then ['\\', '"']
  else if c = '\\' then ['\\', '\\']
  else if c = '\x08' then ['\\', 'b']
  else if c = '\x0c' then ['\\', 'f']
  else if c = '\n' then ['\\', 'n']
  else if c = '\r' then ['\\', 'r']
  else if c = '\t' then ['\\', 't']
  else if c.toNat < 0x20 then
    ['\\', 'u', '0', '0', Nat.digitChar (c.toNat / 16), Nat.digitChar (c.toNat % 16)]
  else [c]

/-- A text as it is written in a string. -/
def escape (cs : List Char) : List Char :=
  cs.flatMap escapeChar

/-- The code point of an escape with one letter. -/
def shortEscape? (c : Char) : Option Nat :=
  [('"', 0x22), ('\\', 0x5C), ('/', 0x2F), ('b', 0x08), ('f', 0x0C), ('n', 0x0A), ('r', 0x0D),
   ('t', 0x09)].lookup c

/-- The value of a hexadecimal digit. -/
def hexValue? (c : Char) : Option Nat :=
  if '0' ≤ c && c ≤ '9' then some (c.toNat - '0'.toNat)
  else if 'a' ≤ c && c ≤ 'f' then some (c.toNat - 'a'.toNat + 10)
  else if 'A' ≤ c && c ≤ 'F' then some (c.toNat - 'A'.toNat + 10)
  else none

/-- The code points and surrogates that a written string consists of. -/
def codes? : List Char → Option (List Nat)
  | [] => some []
  | '\\' :: 'u' :: a :: b :: c :: d :: rest => do
    let a ← hexValue? a
    let b ← hexValue? b
    let c ← hexValue? c
    let d ← hexValue? d
    return (((a * 16 + b) * 16 + c) * 16 + d) :: (← codes? rest)
  | '\\' :: c :: rest => do return (← shortEscape? c) :: (← codes? rest)
  | c :: rest => do return c.toNat :: (← codes? rest)

/-- Whether a number is the first half of a surrogate pair. -/
def isHighSurrogate (n : Nat) : Bool :=
  0xD800 ≤ n && n < 0xDC00

/-- Whether a number is the second half of a surrogate pair. -/
def isLowSurrogate (n : Nat) : Bool :=
  0xDC00 ≤ n && n < 0xE000

/-- The characters of code points and surrogate pairs. A surrogate outside a pair stands for no
    character. -/
def joinSurrogates? : List Nat → Option (List Char)
  | [] => some []
  | [n] =>
    if isHighSurrogate n || isLowSurrogate n then none else some [Char.ofNat n]
  | n :: m :: rest =>
    if isHighSurrogate n then
      if isLowSurrogate m then
        (joinSurrogates? rest).map
          (Char.ofNat (0x10000 + (n - 0xD800) * 0x400 + (m - 0xDC00)) :: ·)
      else none
    else if isLowSurrogate n then none
    else (joinSurrogates? (m :: rest)).map (Char.ofNat n :: ·)

/-- The text that a written string stands for. -/
def unescape? (escaped : List Char) : Option (List Char) :=
  (codes? escaped).bind joinSurrogates?

/-! ### Values for texts and numbers -/

/-- The value for a text. -/
def ofString (s : String) : Json :=
  .string (escape s.toList)

/-- The value for a number. -/
def ofNat (n : Nat) : Json :=
  .number (Nat.toDigits 10 n)

/-- The value for a signed number. -/
def ofInt (n : Int) : Json :=
  .number (toString n).toList

/-- The value for something that may be missing. -/
def ofOption {α : Type} (f : α → Json) : Option α → Json
  | some x => f x
  | none => .null

/-- The object with the given members. -/
def ofMembers (members : List (String × Json)) : Json :=
  .object (members.map fun (key, value) => (escape key.toList, value))

/-! ### Views -/

/-- The text that a string value stands for. -/
def text? : Json → Option String
  | .string escaped => (unescape? escaped).map String.ofList
  | _ => none

/-- The number that a literal stands for, if it is a plain non-negative integer: no sign, no
    leading zeros, no fraction and no exponent. -/
def plainNat? (literal : List Char) : Option Nat :=
  if literal.all Char.isDigit && !literal.isEmpty && (literal.head? != some '0' ||
      literal.length == 1) then
    some (Nat.ofDigitChars 10 literal 0)
  else none

/-- The number that a number value stands for, if it is a plain non-negative integer. -/
def nat? : Json → Option Nat
  | .number literal => plainNat? literal
  | _ => none

/-- The items of an array. -/
def items? : Json → Option (List Json)
  | .array items => some items
  | _ => none

/-- The members of an object, the keys as texts. -/
def members? : Json → Option (List (String × Json))
  | .object members => members.mapM fun (key, value) =>
    (unescape? key).map fun key => (String.ofList key, value)
  | _ => none

end Json

end BitMachine
