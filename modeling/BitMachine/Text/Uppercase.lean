/-!
# Upper case

The upper-case form of a word, as far as it consists of ASCII characters. A few characters
outside ASCII have an ASCII upper-case form: the dotless i, the long s, the sharp s and the
Latin ligatures.
-/

namespace BitMachine.Text

/-- The upper-case form of a character when that form is ASCII only. -/
def upperAscii? (c : Char) : Option (List Char) :=
  match c with
  | 'ı' => some ['I']
  | 'ſ' => some ['S']
  | 'ß' => some ['S', 'S']
  | 'ﬀ' => some ['F', 'F']
  | 'ﬁ' => some ['F', 'I']
  | 'ﬂ' => some ['F', 'L']
  | 'ﬃ' => some ['F', 'F', 'I']
  | 'ﬄ' => some ['F', 'F', 'L']
  | 'ﬅ' => some ['S', 'T']
  | 'ﬆ' => some ['S', 'T']
  | c => if c.toNat < 0x80 then some [c.toUpper] else none

/-- The upper-case form of a word when that form is ASCII only. -/
def uppercase? (cs : List Char) : Option (List Char) :=
  (cs.mapM upperAscii?).map List.flatten

end BitMachine.Text
