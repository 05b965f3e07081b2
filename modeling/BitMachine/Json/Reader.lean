import BitMachine.Json.Basic

/-!
# Reading JSON

The grammar of JSON texts: one value with blanks around it and nothing else. Strings are checked
for well-formed escapes and for control characters, and numbers for their form; neither is
evaluated. The nesting of a text is bounded by its length, which bounds the recursion.
-/

namespace BitMachine.Json

/-- The text without the blanks at its start. -/
def skipBlanks (cs : List Char) : List Char :=
  cs.dropWhile fun c => c == ' ' || c == '\n' || c == '\t' || c == '\r'

/-- The digits at the start of a text and what follows them; there has to be one. -/
def readDigits? (cs : List Char) : Option (List Char × List Char) :=
  match cs.takeWhile Char.isDigit with
  | [] => none
  | digits => some (digits, cs.dropWhile Char.isDigit)

/-- The integer part of a number, which has no leading zeros, and what follows it. -/
def readInteger? : List Char → Option (List Char × List Char)
  | [] => none
  | c :: cs => if c = '0' then some (['0'], cs) else readDigits? (c :: cs)

/-- The fraction of a number, which may be missing, and what follows it. -/
def readFraction? (cs : List Char) : Option (List Char × List Char) :=
  match cs with
  | '.' :: rest => (readDigits? rest).map fun (digits, rest) => ('.' :: digits, rest)
  | _ => some ([], cs)

/-- The exponent of a number, which may be missing, and what follows it. -/
def readExponent? (cs : List Char) : Option (List Char × List Char) :=
  match cs with
  | [] => some ([], [])
  | e :: rest =>
    if e = 'e' || e = 'E' then
      let (sign, rest) := match rest with
        | '+' :: rest => (['+'], rest)
        | '-' :: rest => (['-'], rest)
        | rest => ([], rest)
      (readDigits? rest).map fun (digits, rest) => (e :: sign ++ digits, rest)
    else some ([], cs)

/-- The number at the start of a text and what follows it. -/
def readNumber? (cs : List Char) : Option (List Char × List Char) := do
  let (sign, cs) := match cs with
    | '-' :: rest => (['-'], rest)
    | cs => ([], cs)
  let (whole, cs) ← readInteger? cs
  let (fraction, cs) ← readFraction? cs
  let (exponent, cs) ← readExponent? cs
  return (sign ++ whole ++ fraction ++ exponent, cs)

/-- Whether a text starts with four hexadecimal digits. -/
def startsWithHex (cs : List Char) : Bool :=
  (cs.take 4).length == 4 && (cs.take 4).all fun c => (hexValue? c).isSome

/-- The rest of a string after its opening quote, and what follows the closing one. -/
def readString? : List Char → Option (List Char × List Char)
  | [] => none
  | '"' :: rest => some ([], rest)
  | '\\' :: c :: rest =>
    if (shortEscape? c).isSome || (c == 'u' && startsWithHex rest) then
      (readString? rest).map fun (s, rest) => ('\\' :: c :: s, rest)
    else none
  | c :: rest =>
    if c.toNat < 0x20 then none
    else (readString? rest).map fun (s, rest) => (c :: s, rest)

/-- What follows a word at the start of a text. -/
def readWord? (word : String) (cs : List Char) : Option (List Char) :=
  if word.toList.isPrefixOf cs then some (cs.drop word.length) else none

mutual

/-- The value at the start of a text and what follows it. -/
def readValue? : Nat → List Char → Option (Json × List Char)
  | 0, _ => none
  | _ + 1, [] => none
  | fuel + 1, c :: cs =>
    if c = '"' then (readString? cs).map fun (s, rest) => (.string s, rest)
    else if c = '[' then
      match skipBlanks cs with
      | ']' :: rest => some (.array [], rest)
      | cs => (readItems? fuel cs).map fun (items, rest) => (.array items, rest)
    else if c = '\x7b' then
      match skipBlanks cs with
      | '\x7d' :: rest => some (.object [], rest)
      | cs => (readMembers? fuel cs).map fun (members, rest) => (.object members, rest)
    else if c = 'n' then (readWord? "ull" cs).map (.null, ·)
    else if c = 't' then (readWord? "rue" cs).map (.bool true, ·)
    else if c = 'f' then (readWord? "alse" cs).map (.bool false, ·)
    else (readNumber? (c :: cs)).map fun (literal, rest) => (.number literal, rest)

/-- The items of an array up to its closing bracket, and what follows that. -/
def readItems? : Nat → List Char → Option (List Json × List Char)
  | 0, _ => none
  | fuel + 1, cs => do
    let (item, rest) ← readValue? fuel (skipBlanks cs)
    match skipBlanks rest with
    | ',' :: rest =>
      let (items, rest) ← readItems? fuel rest
      return (item :: items, rest)
    | ']' :: rest => return ([item], rest)
    | _ => none

/-- The members of an object up to its closing brace, and what follows that. -/
def readMembers? : Nat → List Char → Option (List (List Char × Json) × List Char)
  | 0, _ => none
  | fuel + 1, cs => do
    let '"' :: rest := skipBlanks cs | none
    let (key, rest) ← readString? rest
    let ':' :: rest := skipBlanks rest | none
    let (value, rest) ← readValue? fuel (skipBlanks rest)
    match skipBlanks rest with
    | ',' :: rest =>
      let (members, rest) ← readMembers? fuel rest
      return ((key, value) :: members, rest)
    | '\x7d' :: rest => return ([(key, value)], rest)
    | _ => none

end

/-- The value of a JSON text. -/
def parse? (s : String) : Option Json := do
  let cs := skipBlanks s.toList
  let (value, rest) ← readValue? (2 * cs.length + 2) cs
  if (skipBlanks rest).isEmpty then some value else none

end BitMachine.Json
