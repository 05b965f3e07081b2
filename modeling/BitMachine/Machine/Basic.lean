import BitMachine.Config
import BitMachine.Machine.Fault
import BitMachine.Program
import BitMachine.Registers
import BitMachine.SerialLog

/-!
# The machine

A machine owns its registers, its memory and its serial line. The cycle counter doubles as the
program counter: cycle `n` fetches the word at slot `n`, so there are no jumps.

* `Machine.create`, `Machine.withMemory` — a fresh machine.
* `Machine.reset`, `Machine.rewind` — start anew, without or with the memory contents. Neither
  touches what was emitted.
* `Machine.loadProgram`, `Machine.loadWords` — fill the memory.
-/

namespace BitMachine

/-- Whether a machine goes on, and why not. -/
inductive Status where
  /-- The machine goes on. -/
  | running
  /-- An EXIT stopped the machine with this code. -/
  | halted (code : Nat)
  /-- A fault stopped the machine. -/
  | faulted (fault : Fault)
deriving DecidableEq

/-- The inspection text of a status. -/
def Status.inspect : Status → String
  | .running => "Running"
  | .halted code => Text.inspectTagged "Halted" (toString code)
  | .faulted fault => Text.inspectTagged "Faulted" fault.inspect

/-- The state of a machine. -/
structure Machine where
  /-- The configuration that the machine was built with. -/
  config : Config
  /-- The registers. -/
  registers : Registers
  /-- The memory. -/
  memory : Memory
  /-- Whether the machine goes on. -/
  status : Status
  /-- The number of cycles so far, and the slot of the word fetched last. -/
  cycle : UInt64
  /-- What was emitted so far. -/
  serial : SerialLog
  /-- The instruction executed last. -/
  lastInstruction : Option Instruction

namespace Machine

/-- A machine around a memory. -/
def withMemory (config : Config) (memory : Memory) : Machine where
  config := config
  registers := Registers.blank config.registerCount.toNat
  memory := memory
  status := .running
  cycle := 0
  serial := {}
  lastInstruction := none

/-- A machine with an empty memory. -/
def create (config : Config) : Machine :=
  withMemory config (Memory.empty config.memoryCapacity)

/-- Goes back to cycle 0 with empty registers, keeping the memory and what was emitted. -/
def rewind (m : Machine) : Machine :=
  { m with registers := m.registers.reset, status := .running, cycle := 0,
           lastInstruction := none }

/-- Goes back to cycle 0 with empty registers and an empty memory, keeping what was emitted. -/
def reset (m : Machine) : Machine :=
  { m.rewind with memory := m.memory.clear }

/-- Forgets what was emitted. -/
def clearSerial (m : Machine) : Machine :=
  { m with serial := {} }

/-- Stores the words of a program at their addresses. After a failure the words before it are
    in memory. -/
def loadProgram (m : Machine) (p : Program) : Machine × Except MemoryError Unit :=
  let (memory, result) := m.memory.load p.words
  ({ m with memory := memory }, result)

/-- Stores words at sequential addresses. After a failure the words before it are in memory. -/
def loadWords (m : Machine) (ws : List Word) : Machine × Except MemoryError (List Address) :=
  let (memory, result) := m.memory.loadSequentially ws
  ({ m with memory := memory }, result)

/-- The address that the next cycle fetches. -/
def nextAddress (m : Machine) : Address :=
  ⟨m.cycle + 1⟩

/-- Whether the machine goes on. -/
def isRunning (m : Machine) : Bool :=
  m.status == .running

/-- The exit code of a halted machine. -/
def exitCode? (m : Machine) : Option Nat :=
  match m.status with
  | .halted code => some code
  | _ => none

/-- Whether an EXIT stopped the machine. -/
def isHalted (m : Machine) : Bool :=
  m.exitCode?.isSome

/-- The fault that stopped the machine. -/
def fault? (m : Machine) : Option Fault :=
  match m.status with
  | .faulted fault => some fault
  | _ => none

/-- The inspection text of a machine. -/
def inspect (m : Machine) : String :=
  Text.inspectRecord "Cpu"
    [("state", m.status.inspect), ("cycle", toString m.cycle),
     ("regs", m.registers.inspect), ("mem", m.memory.inspect)]

end Machine

end BitMachine
