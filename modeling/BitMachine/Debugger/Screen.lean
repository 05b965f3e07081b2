import BitMachine.Debugger.Basic
import BitMachine.Text.Padding

/-!
# The debugger's screen

The screen is two columns of panels, each a box with a title in its upper border. The left
column, three fifths of the width, shows the disassembly, the registers and the status line;
the right one shows the memory, the serial line and the keys. Contents are cut at the inner
width and fill up with blanks.

* `panel` — a box as the list of its rows.
* `splitHeight` — how the panels of a column share its rows.
* `Debugger.disassemblyRows`, `Debugger.registerRows`, `Debugger.memoryRows`,
  `Debugger.serialRows` — the contents of the panels.
* `Debugger.draw` — the rows of the whole screen.

Only the contents are the debugger's own. Boxes and the split into heights are those of the
terminal library, described here as far as the screens of the tests show them; the theory says
nothing about them.
-/

namespace BitMachine

/-- A row of a given width: cut, or filled up with `fill`. -/
def fitRow (fill : Char) (width : Nat) (s : String) : String :=
  String.ofList (Text.pad fill .left width (some width) s.toList)

/-- A row between two edges. Where there is room for one character only, it is the left edge. -/
def edgedRow (left fill right : Char) (width : Nat) (s : String) : String :=
  match width with
  | 0 => ""
  | 1 => left.toString
  | inner + 2 => left.toString ++ fitRow fill inner s ++ right.toString

/-- A box of a given size as the list of its rows. A box of one row is its upper border. -/
def panel (title : String) (width height : Nat) (contents : List String) : List String :=
  match height with
  | 0 => []
  | 1 => [upper]
  | inner + 2 =>
    let body := (contents ++ List.replicate inner "").take inner
    (upper :: body.map (edgedRow '│' ' ' '│' width)) ++ [edgedRow '└' '─' '┘' width ""]
where
  /-- The upper border. -/
  upper : String := edgedRow '┌' '─' '┐' width title

/-- The heights of three panels one below the other. The second and the third have the heights
    `middle` and `lower`, and the first takes the other rows, at least `least`. If there are too
    few rows for that, the first takes them first, and the other two share the rest evenly, unless
    one half is more than the third panel needs. -/
def splitHeight (height least middle lower : Nat) : Nat × Nat × Nat :=
  if least + middle + lower ≤ height then (height - middle - lower, middle, lower)
  else
    let upper := min least height
    let last := min lower ((height - upper) / 2)
    (upper, height - upper - last, last)

/-- The last `n` items of a list. -/
def lastItems {α : Type} (n : Nat) (xs : List α) : List α :=
  xs.drop (xs.length - n)

namespace Debugger

/-- The row of a slot: a mark for a breakpoint, a mark for the next address, and the text. -/
def disassemblyRow (breakpoints : List Address) (row : Row) : String :=
  let breakpoint := if breakpoints.contains row.addr then "●" else " "
  let next := if row.isNext then "▶ " else "  "
  let place := Text.padLeft 6 row.addr.text
  s!"{breakpoint} {next}{place}: {row.text}"

/-- The rows of the disassembly panel. -/
def disassemblyRows (d : Debugger) (rows : Nat) : List String :=
  (d.disassembly rows).map (disassemblyRow d.breakpoints)

/-- A register with its digits and its value; the value is unknown if it needs more than
    64 bits. -/
def registerCell (index : Nat) (value : Option Bits) : String :=
  let (digits, mark, number) := match value with
    | none => ("-", "   ", "")
    | some bits =>
      match bits.signed with
      | .ok number => (bits.text, " = ", toString number)
      | .error _ => (bits.text, " = ", "?")
  s!"reg{index}: " ++ Text.padLeft 12 digits ++ mark ++ Text.padRight 8 number

/-- Texts joined two by two. -/
def inPairs : List String → List String
  | a :: b :: rest => (a ++ b) :: inPairs rest
  | rest => rest

/-- The rows of the register panel: two registers in a row, and a summary. -/
def registerRows (d : Debugger) : List String :=
  let m := d.machine
  let cells := m.registers.slots.zipIdx.map fun (value, i) => registerCell i value
  inPairs cells ++
    [s!"Cycle: {m.cycle}   Next: {m.nextAddress.text}   State: {m.describe}"]

/-- The row of a stored word. -/
def memoryRow (addr : Address) (w : Word) : String :=
  Text.padLeft 6 addr.text ++ ": " ++ w.text

/-- The rows of the memory panel: stored words from the scroll offset on. -/
def memoryRows (d : Debugger) (rows : Nat) : List String :=
  ((d.machine.memory.entries.drop d.scroll).take rows).map fun (addr, w) => memoryRow addr w

/-- The rows of the serial panel: the values emitted last. -/
def serialRows (d : Debugger) (rows : Nat) : List String :=
  lastItems rows d.machine.serial.lines

/-- The rows of the panel that explains the keys. -/
def helpRows : List String :=
  ["s: Step  r: Run  p: Pause  b: Breakpoint", "x: Reset  ↑↓: Scroll memory  q: Quit"]

/-- The height of the register panel: a row for each two registers, the summary and the borders.
    Heights have 16 bits. The rows are cut to that size, and the sum wraps around. -/
def registerHeight (d : Debugger) : UInt16 :=
  UInt16.ofNat ((d.machine.registers.count + 1) / 2) + 3

/-- The left column: disassembly, registers and status line. -/
def leftColumn (d : Debugger) (width height : Nat) : List String :=
  let (upper, middle, lower) := splitHeight height 10 d.registerHeight.toNat 3
  panel " Disassembly " width upper (d.disassemblyRows (upper - 2)) ++
    panel " Registers " width middle d.registerRows ++
    panel " Status " width lower [d.status]

/-- The right column: memory, serial line and keys. -/
def rightColumn (d : Debugger) (width height : Nat) : List String :=
  let (upper, middle, lower) := splitHeight height 8 8 4
  panel s!" Memory ({d.machine.memory.size} words) " width upper (d.memoryRows (upper - 2)) ++
    panel " Serial " width middle (d.serialRows (middle - 2)) ++
    panel " Help " width lower helpRows

/-- The rows of the screen. -/
def draw (d : Debugger) (width height : Nat) : List String :=
  let left := (6 * width + 5) / 10
  List.zipWith (· ++ ·) (d.leftColumn left height) (d.rightColumn (width - left) height)

end Debugger

end BitMachine
