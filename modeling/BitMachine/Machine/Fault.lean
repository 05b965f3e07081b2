import BitMachine.Instruction
import BitMachine.Memory.Basic

/-!
# Faults

Why a machine stopped, or refuses to go on. Every fault of an execution names the cycle that it
happened in.
-/

namespace BitMachine

/-- Why a machine stopped, or refuses to go on. -/
inductive Fault where
  /-- A step was asked of a machine that does not go on. -/
  | notRunning (cycle : UInt64)
  /-- The slot of the cycle holds no word. -/
  | outOfInstructions (cycle : UInt64) (addr : Address)
  /-- No operation has the number in the first token. -/
  | invalidInstruction (cycle : UInt64) (opcode : UInt64)
  /-- The operation does not take this number of operands. -/
  | arityMismatch (cycle : UInt64) (opcode : Opcode) (found : Nat)
  /-- An operand names a register that the machine does not have. -/
  | invalidRegister (cycle : UInt64) (opcode : Opcode) (index : UInt64) (count : Nat)
  /-- A source register was never written. -/
  | emptyRegister (cycle : UInt64) (opcode : Opcode) (index : UInt64)
  /-- The address that a MOV reads holds no word. -/
  | invalidAddress (cycle : UInt64) (opcode : Opcode) (addr : Address)
  /-- The divisor of a DIV is zero. -/
  | divisionByZero (cycle : UInt64)
  /-- A product does not fit in 64 bits. -/
  | overflow (cycle : UInt64) (opcode : Opcode)
  /-- The code of an EXIT does not fit in 31 bits. -/
  | exitCodeOutOfRange (cycle : UInt64) (code : UInt64)
  /-- A bit-string does not have the value that is needed. -/
  | literal (cycle : UInt64) (cause : LiteralError)
  /-- The program did not fit into memory. -/
  | memory (cause : MemoryError)
deriving DecidableEq

/-- The inspection text of a literal error. -/
def LiteralError.inspect : LiteralError → String
  | .empty => "Empty"
  | .invalidDigit c => Text.inspectTagged "InvalidDigit" (Text.quoteChar c)
  | .signed text => Text.inspectTagged "Signed" (Text.quoteString text)
  | .overflow text => Text.inspectTagged "Overflow" (Text.quoteString text)

namespace Fault

/-- The fault of a word that does not decode. -/
def ofDecodeError (cycle : UInt64) : DecodeError → Fault
  | .emptyWord => .literal cycle .empty
  | .invalidOpcode value => .invalidInstruction cycle value
  | .arityMismatch opcode found => .arityMismatch cycle opcode found
  | .operand cause => .literal cycle cause

/-- The cycle that a fault of an execution happened in. -/
def cycle? : Fault → Option UInt64
  | .notRunning cycle => some cycle
  | .outOfInstructions cycle _ => some cycle
  | .invalidInstruction cycle _ => some cycle
  | .arityMismatch cycle _ _ => some cycle
  | .invalidRegister cycle _ _ _ => some cycle
  | .emptyRegister cycle _ _ => some cycle
  | .invalidAddress cycle _ _ => some cycle
  | .divisionByZero cycle => some cycle
  | .overflow cycle _ => some cycle
  | .exitCodeOutOfRange cycle _ => some cycle
  | .literal cycle _ => some cycle
  | .memory _ => none

/-- The message for a fault. -/
def message : Fault → String
  | .notRunning cycle => s!"CPU not running (stopped at cycle {cycle})"
  | .outOfInstructions cycle addr =>
    s!"cycle {cycle}: ran out of instructions, nothing stored at {addr.text}"
  | .invalidInstruction cycle opcode =>
    s!"cycle {cycle}: invalid instruction, opcode {opcode} is not defined"
  | .arityMismatch cycle opcode found => s!"cycle {cycle}: {opcode.arityComplaint found}"
  | .invalidRegister cycle opcode index count =>
    s!"cycle {cycle}: {opcode.mnemonic} uses register {index}, " ++
      s!"but the machine has {count} registers"
  | .emptyRegister cycle opcode index =>
    s!"cycle {cycle}: {opcode.mnemonic} reads uninitialized register {index}"
  | .invalidAddress cycle opcode addr =>
    s!"cycle {cycle}: {opcode.mnemonic} references {addr.text}, which holds nothing"
  | .divisionByZero cycle => s!"cycle {cycle}: division by zero"
  | .overflow cycle opcode =>
    s!"cycle {cycle}: {opcode.mnemonic} result does not fit in 64 bits"
  | .exitCodeOutOfRange cycle code => s!"cycle {cycle}: exit code {code} out of range"
  | .literal cycle cause => s!"cycle {cycle}: malformed operand: {cause.message}"
  | .memory cause => s!"memory error: {cause.message}"

/-- The name of a fault in inspection texts. -/
def name : Fault → String
  | .notRunning .. => "NotRunning"
  | .outOfInstructions .. => "OutOfInstructions"
  | .invalidInstruction .. => "InvalidInstruction"
  | .arityMismatch .. => "ArityMismatch"
  | .invalidRegister .. => "InvalidRegister"
  | .emptyRegister .. => "EmptyRegister"
  | .invalidAddress .. => "InvalidAddress"
  | .divisionByZero .. => "DivisionByZero"
  | .overflow .. => "Overflow"
  | .exitCodeOutOfRange .. => "ExitCodeOutOfRange"
  | .literal .. => "Codec"
  | .memory .. => "Memory"

/-- The fields of a fault after its cycle, for inspection. -/
def details : Fault → List (String × String)
  | .notRunning _ | .divisionByZero _ | .memory _ => []
  | .outOfInstructions _ addr => [("addr", addr.inspect)]
  | .invalidInstruction _ opcode => [("opcode", toString opcode)]
  | .arityMismatch _ opcode found =>
    [("opcode", opcode.name),
     ("expected", Text.inspectList (opcode.arity.map toString)),
     ("found", toString found)]
  | .invalidRegister _ opcode index count =>
    [("opcode", opcode.name), ("index", toString index), ("count", toString count)]
  | .emptyRegister _ opcode index => [("opcode", opcode.name), ("index", toString index)]
  | .invalidAddress _ opcode addr => [("opcode", opcode.name), ("addr", addr.inspect)]
  | .overflow _ opcode => [("opcode", opcode.name)]
  | .exitCodeOutOfRange _ code => [("code", toString code)]
  | .literal _ cause => [("source", cause.inspect)]

/-- The inspection text of a fault. -/
def inspect (f : Fault) : String :=
  match f, f.cycle? with
  | .memory cause, _ => Text.inspectTagged f.name cause.inspect
  | _, some cycle => Text.inspectRecord f.name (("cycle", toString cycle) :: f.details)
  | _, none => Text.inspectRecord f.name f.details

end Fault

end BitMachine
