import BitMachine.Source.Statement
import BitMachine.Text.Lines

/-!
# The layout of a source text

The lines of a source text are read in order, and every item is placed one slot after the
previous one, or where the last ORG says. No slot is used twice. The first flaw, in the order of
the lines, is the result of the whole text.

* `Layout` — the items that are placed so far, and the place of the next one.
* `layout` — the items of a source text with their addresses, in source order.
-/

namespace BitMachine.Source

/-- The items that are placed so far, and the place of the next one. -/
structure Layout where
  /-- The items with their addresses, in source order. -/
  items : List (Address × Item) := []
  /-- Where the next item stands; none past the last slot. -/
  next : Option Address := some Address.first

namespace Layout

/-- Places an item. -/
def place (l : Layout) (item : Item) : Except SourceFlaw Layout :=
  match l.next with
  | none => .error .noAddressLeft
  | some addr =>
    if (l.items.lookup addr).isSome then .error (.duplicateAddress addr)
    else .ok ⟨l.items ++ [(addr, item)], addr.next?⟩

/-- The effect of a statement. -/
def apply (l : Layout) : Statement → Except SourceFlaw Layout
  | .origin addr => .ok { l with next := some addr }
  | .item content => l.place content

/-- The effect of a line. -/
def applyLine (l : Layout) (line : List Char) : Except SourceFlaw Layout := do
  match ← Statement.ofLine? line with
  | some statement => l.apply statement
  | none => return l

/-- The effect of lines, the first of which has the given number. -/
def applyLines (l : Layout) (number : Nat) : List (List Char) → Except SourceError Layout
  | [] => .ok l
  | line :: rest =>
    match l.applyLine line with
    | .ok l => l.applyLines (number + 1) rest
    | .error flaw => .error ⟨number, flaw⟩

end Layout

/-- The items of a source text with their addresses, in source order. -/
def layout (source : String) : Except SourceError (List (Address × Item)) := do
  return (← Layout.applyLines {} 1 (Text.lines source.toList)).items

end BitMachine.Source
