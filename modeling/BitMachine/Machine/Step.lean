import BitMachine.Bits.Arithmetic
import BitMachine.Machine.Basic

/-!
# One cycle

A cycle counts up, fetches the word at the slot of the new count, skips it when it is shorter
than an instruction, and otherwise decodes and executes it.

* `Machine.Action` — a part of a cycle. A fault ends it and undoes nothing: the machine is left as
  it is at that point.
* `Machine.execute` — the action of an instruction, in the order of its checks, reads and writes.
* `Machine.step` — one cycle, and the stop if it ends in a fault.
-/

namespace BitMachine

namespace Machine

/-! ### Reading -/

/-- Refuses an operand that names no register. -/
def checkRegister (m : Machine) (opcode : Opcode) (index : UInt64) : Except Fault Unit :=
  match m.registers.validate index with
  | .ok _ => .ok ()
  | .error e => .error (.invalidRegister m.cycle opcode e.index e.count)

/-- What a source register holds; one that was never written is refused. -/
def readSource (m : Machine) (opcode : Opcode) (index : UInt64) : Except Fault Bits :=
  match m.registers.get index with
  | .ok (some value) => .ok value
  | _ => .error (.emptyRegister m.cycle opcode index)

/-- The fault of a bit-string that does not have the value that is needed. -/
def needs {α : Type} (m : Machine) (value : Except LiteralError α) : Except Fault α :=
  value.mapError (.literal m.cycle)

/-- The result of an arithmetic operation on two bit-strings. -/
def compute (m : Machine) (op : ArithOp) (a b : Bits) : Except Fault Bits :=
  match op with
  | .add => m.needs (a.add b)
  | .sub => m.needs (a.sub b)
  | .mul => do
    let x ← m.needs a.unsigned
    let y ← m.needs b.unsigned
    let product := x.toNat * y.toNat
    if product < UInt64.size then return Bits.ofNat product
    else throw (.overflow m.cycle (.arith .mul))
  | .div => do
    let x ← m.needs a.unsigned
    let y ← m.needs b.unsigned
    if y = 0 then throw (.divisionByZero m.cycle)
    else return Bits.ofNat (x.toNat / y.toNat)

/-- The value that a MOV writes. -/
def movValue (m : Machine) : MovSource → Except Fault Bits
  | .immediate value => .ok value
  | .address addr =>
    match (m.memory.cells.get? addr).bind Word.first? with
    | some value => .ok value
    | none => .error (.invalidAddress m.cycle .mov addr)

/-- The sources of an arithmetic operation. All of its operands are checked before one is read. -/
def readSources (m : Machine) (opcode : Opcode) (lhs rhs dst : UInt64) :
    Except Fault (Bits × Bits) := do
  m.checkRegister opcode lhs
  m.checkRegister opcode rhs
  m.checkRegister opcode dst
  let a ← m.readSource opcode lhs
  let b ← m.readSource opcode rhs
  return (a, b)

/-- The value that an OUT emits; a register that was never written has none. -/
def outValue (m : Machine) (src : UInt64) : Except Fault (Option Int) :=
  match m.registers.get src with
  | .ok (some bits) => (m.needs bits.signed).map some
  | _ => .ok none

/-- The number 2^31, which exit codes stay below. -/
def exitCodeLimit : Nat := 0x80000000

/-- The exit code of an EXIT. -/
def exitValue (m : Machine) (code : UInt64) : Except Fault Nat :=
  if code.toNat < exitCodeLimit then .ok code.toNat
  else .error (.exitCodeOutOfRange m.cycle code)

/-- The word at the slot of the cycle count. -/
def fetch (m : Machine) : Except Fault Word :=
  match m.memory.cells.get? ⟨m.cycle⟩ with
  | some word => .ok word
  | none => .error (.outOfInstructions m.cycle ⟨m.cycle⟩)

/-- The instruction that a word decodes to. -/
def decoded (m : Machine) (word : Word) : Except Fault Instruction :=
  (Instruction.decode word).mapError (Fault.ofDecodeError m.cycle)

/-! ### Acting -/

/-- A part of a cycle: it works on the machine, and a fault may end it. The machine is left as it is
    at that point, so whatever has been written by then stays. -/
abbrev Action (α : Type) : Type := EStateM Fault Machine α

/-- Reads from the machine. -/
def reading {α : Type} (read : Machine → Except Fault α) : Action α := do
  ofExcept (read (← get))

/-- Writes a register. -/
def store (opcode : Opcode) (index : UInt64) (value : Bits) : Action Unit := do
  let m ← get
  let (registers, result) := m.registers.set index value
  set { m with registers := registers }
  ofExcept (result.mapError fun e => .invalidRegister m.cycle opcode e.index e.count)

/-- The action of an instruction. -/
def execute : Instruction → Action Unit
  | .mov dst src => do
    reading (·.checkRegister .mov dst)
    let value ← reading (·.movValue src)
    store .mov dst value
  | .arith op lhs rhs dst => do
    let (a, b) ← reading (·.readSources (.arith op) lhs rhs dst)
    let value ← reading (·.compute op a b)
    store (.arith op) dst value
  | .out src => do
    reading (·.checkRegister .out src)
    let value ← reading (·.outValue src)
    modify fun m => { m with serial := m.serial.emit value }
  | .exit code => do
    let status ← reading (·.exitValue code)
    modify fun m => { m with status := .halted status }

/-- Fetches, decodes and executes the word at the slot of the cycle count. The instruction is
    missing when the word is too short to be one. -/
def fetchAndExecute : Action (Option Instruction) := do
  let word ← reading fetch
  if word.size < (← get).config.minInstructionLength.toNat then return none
  else
    let instruction ← reading (·.decoded word)
    execute instruction
    modify fun m => { m with lastInstruction := some instruction }
    return some instruction

/-- Stops a machine with a fault. -/
def stopWith (m : Machine) (fault : Fault) : Machine :=
  { m with status := .faulted fault }

/-- One cycle. It yields the executed instruction, or none when the word was skipped as data. A
    fault stops the machine as the cycle has left it.

    There is no cycle after number 2^64 - 1, and no machine gets that far. That a step is refused
    there, and like every refused step leaves the machine as it is, is a convention. -/
def step (m : Machine) : Machine × Except Fault (Option Instruction) :=
  if m.status ≠ .running ∨ m.cycle = Address.last.slot then (m, .error (.notRunning m.cycle))
  else
    let m := { m with cycle := m.cycle + 1 }
    match fetchAndExecute.run m with
    | .ok executed m => (m, .ok executed)
    | .error fault m => (m.stopWith fault, .error fault)

end Machine

end BitMachine
