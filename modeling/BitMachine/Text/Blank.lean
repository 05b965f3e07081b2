/-!
# Blanks

The characters that separate words and surround lines, and the two operations that rest on
them.

* `isBlank` — the Unicode property White_Space, 25 characters.
* `trim`, `trimEnd` — a text without the blanks around it, or without those after it.
* `words` — the maximal runs of characters that are not blank.
-/

namespace BitMachine.Text

/-- The characters with the Unicode property White_Space. -/
def isBlank (c : Char) : Bool :=
  let n := c.toNat
  (0x09 ≤ n && n ≤ 0x0D) || n == 0x20 || n == 0x85 || n == 0xA0 || n == 0x1680 ||
    (0x2000 ≤ n && n ≤ 0x200A) || n == 0x2028 || n == 0x2029 || n == 0x202F || n == 0x205F ||
    n == 0x3000

/-- A text without the blanks at its end. -/
def trimEnd (cs : List Char) : List Char :=
  (cs.reverse.dropWhile isBlank).reverse

/-- A text without the blanks at its start and at its end. -/
def trim (cs : List Char) : List Char :=
  trimEnd (cs.dropWhile isBlank)

/-- The non-empty pieces of a text between the characters that satisfy `p`. -/
def pieces (p : Char → Bool) (cs : List Char) : List (List Char) :=
  (cs.splitOnP p).filter (!·.isEmpty)

/-- The maximal runs of characters that are not blank. -/
def words (cs : List Char) : List (List Char) :=
  pieces isBlank cs

end BitMachine.Text
