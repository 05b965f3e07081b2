import BitMachine.Program
import BitMachine.Source.Layout

/-!
# Assembling source texts

A source text is laid out, and each of its items becomes a word. The layout does not depend on
the width of the numbers, so the width decides neither whether a text can be assembled nor where
its words stand.
-/

namespace BitMachine.Source

/-- The program of items with their addresses, its numbers padded to `width` digits. -/
def programOf (items : List (Address × Item)) (width : Nat) : Program :=
  ⟨items.map fun (addr, item) => (addr, item.word width)⟩

/-- The program of a source text, its numbers padded to `width` digits. -/
def assemble (source : String) (width : Nat) : Except SourceError Program := do
  return programOf (← layout source) width

end BitMachine.Source
