/-!
# Padding

Text in a field of a given width: it is cut to the precision, if there is one, and then filled
up on the side that the alignment leaves free. A centred text gets the odd filler on its right.
-/

namespace BitMachine.Text

/-- Where a text stands in a field that is wider than the text. -/
inductive Alignment where
  | left
  | right
  | centre
deriving DecidableEq

/-- How many of the missing fillers stand before the text. -/
def Alignment.leading : Alignment → Nat → Nat
  | .left, _ => 0
  | .right, missing => missing
  | .centre, missing => missing / 2

/-- A text of at least `width` characters, made from at most `precision` characters. -/
def pad (fill : Char) (align : Alignment) (width : Nat) (precision : Option Nat)
    (cs : List Char) : List Char :=
  let shown := match precision with
    | some limit => cs.take limit
    | none => cs
  let missing := width - shown.length
  let before := align.leading missing
  List.replicate before fill ++ shown ++ List.replicate (missing - before) fill

/-- A text with spaces after it up to the width. -/
def padRight (width : Nat) (s : String) : String :=
  String.ofList (pad ' ' .left width none s.toList)

/-- A text with spaces before it up to the width. -/
def padLeft (width : Nat) (s : String) : String :=
  String.ofList (pad ' ' .right width none s.toList)

end BitMachine.Text
