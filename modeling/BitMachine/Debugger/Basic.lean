import BitMachine.Disassembly
import BitMachine.Machine.Run

/-!
# The debugger

A debugger drives a machine through a program: step by step, or continuously tick by tick until
the machine stops or the next address is a breakpoint. Its status line says what happened last.

* `Debugger.create` — a debugger for a program, loaded.
* `Debugger.step`, `Debugger.run`, `Debugger.tick`, `Debugger.reset` — execution.
* `Debugger.toggleBreakpoint`, `Debugger.scrollUp`, `Debugger.scrollDown` — the view.
* `Debugger.disassembly` — the slots around the next address.
-/

namespace BitMachine

/-- The state of a debugger. -/
structure Debugger where
  /-- The machine. -/
  machine : Machine
  /-- The program, for a reset. -/
  program : Program
  /-- The breakpoints in the order of their addresses. -/
  breakpoints : List Address
  /-- Whether ticks go on executing. -/
  running : Bool
  /-- The status line. -/
  status : String
  /-- The number of stored words that are scrolled out of view. -/
  scroll : Nat

/-- The state of a machine in words. -/
def Machine.describe (m : Machine) : String :=
  match m.status with
  | .halted code => s!"exited with status {code}"
  | .faulted fault => s!"fault: {fault.message}"
  | .running => "running"

namespace Debugger

/-- A reset machine with the program loaded. A program that does not fit stops the machine with
    the fault; the words before it are in memory. -/
def loaded (m : Machine) (p : Program) : Machine :=
  match m.reset.clearSerial.loadProgram p with
  | (m, .ok ()) => m
  | (m, .error e) => m.stopWith (.memory e)

/-- A debugger for a program. -/
def create (config : Config) (program : Program) : Debugger :=
  let machine := loaded (Machine.create config) program
  { machine := machine
    program := program
    breakpoints := []
    running := false
    status := match machine.fault? with
      | some fault => s!"Load failed: {fault.message}"
      | none => "Ready. Press 's' to step, 'r' to run, 'q' to quit."
    scroll := 0 }

/-- One cycle. A machine that has stopped stays as it is. -/
def step (d : Debugger) : Debugger :=
  if !d.machine.isRunning then
    { d with status := s!"CPU stopped: {d.machine.describe}", running := false }
  else
    let place := d.machine.nextAddress.text
    match d.machine.step with
    | (machine, .ok (some i)) => { d with machine := machine, status := s!"{place}: {i.text}" }
    | (machine, .ok none) =>
      { d with machine := machine, status := s!"{place}: skipped data word" }
    | (machine, .error fault) =>
      { d with machine := machine, status := s!"Error: {fault.message}", running := false }

/-- Starts continuous execution. -/
def run (d : Debugger) : Debugger :=
  { d with running := true, status := "Running..." }

/-- One round of continuous execution: one cycle, unless the machine has stopped or the next
    address is a breakpoint. -/
def tick (d : Debugger) : Debugger :=
  if !d.running then d
  else if !d.machine.isRunning then
    { d with
      running := false
      status := s!"Stopped after {d.machine.cycle} cycles: {d.machine.describe}" }
  else if d.breakpoints.contains d.machine.nextAddress then
    { d with running := false, status := s!"Breakpoint at {d.machine.nextAddress.text}" }
  else d.step

/-- Rounds of continuous execution. -/
def ticks (d : Debugger) : Nat → Debugger
  | 0 => d
  | n + 1 => d.tick.ticks n

/-- The list with an address at its place in the order. -/
def insertBreakpoint (a : Address) : List Address → List Address
  | [] => [a]
  | b :: rest => if a < b then a :: b :: rest else b :: insertBreakpoint a rest

/-- Sets a breakpoint at the next address, or removes the one there. -/
def toggleBreakpoint (d : Debugger) : Debugger :=
  let next := d.machine.nextAddress
  if d.breakpoints.contains next then
    { d with
      breakpoints := d.breakpoints.filter (· ≠ next)
      status := s!"Removed breakpoint at {next.text}" }
  else
    { d with
      breakpoints := insertBreakpoint next d.breakpoints
      status := s!"Set breakpoint at {next.text}" }

/-- Loads the program again and stops continuous execution. -/
def reset (d : Debugger) : Debugger :=
  { d with
    machine := loaded d.machine d.program
    running := false
    status := "Reset. Ready." }

/-- Scrolls one word back. -/
def scrollUp (d : Debugger) : Debugger :=
  { d with scroll := d.scroll - 1 }

/-- Scrolls one word on, as long as a word stays in view. -/
def scrollDown (d : Debugger) : Debugger :=
  if d.scroll + 1 < d.machine.memory.size then { d with scroll := d.scroll + 1 } else d

/-- One slot of the disassembly. -/
structure Row where
  /-- The address of the slot. -/
  addr : Address
  /-- The disassembly of the word there, or a dot if there is none. -/
  text : String
  /-- Whether the next cycle fetches this slot. -/
  isNext : Bool

/-- The text of an empty slot. -/
def emptySlotText : String := "·"

/-- The text of a slot. -/
def slotText (m : Machine) (addr : Address) : String :=
  match m.memory.cells.get? addr with
  | some w => w.disassemble m.config.minInstructionLength.toNat
  | none => emptySlotText

/-- The slots around the next address, half of them before it as far as slot 1 allows. The slot
    behind the last row is a number of 64 bits as well, so no more rows than that are asked for. -/
def disassembly (d : Debugger) (rows : Nat) : List Row :=
  let next := d.machine.nextAddress
  let start := max (next.slot.toNat - rows / 2) 1
  (List.range' start rows).map fun slot =>
    let addr : Address := ⟨UInt64.ofNat slot⟩
    ⟨addr, slotText d.machine addr, addr = next⟩

end Debugger

end BitMachine
