import BitMachine.Address
import BitMachine.Bits.Value
import BitMachine.Opcode
import BitMachine.Word

/-!
# Instructions

An instruction and its encoding as a word.

| opcode | operation | operands             |
|--------|-----------|----------------------|
| 0      | MOV       | dst, address         |
| 0      | MOV       | dst, ignored, value  |
| 1–4    | ADD … DIV | lhs, rhs, dst        |
| 5      | OUT       | src                  |
| 15     | EXIT      | code                 |

* `Instruction.decode` — the instruction of a word, or the first thing that is wrong with it.
* `Instruction.encode` — the word of an instruction, its numbers padded to a width.
-/

namespace BitMachine

/-- Where a MOV takes its value from. -/
inductive MovSource where
  /-- The value is part of the instruction. -/
  | immediate (value : Bits)
  /-- The value is the first token of the word at an address. -/
  | address (addr : Address)
deriving DecidableEq

/-- A decoded instruction. Register numbers are not checked against a machine. -/
inductive Instruction where
  /-- Writes a value to a register. -/
  | mov (dst : UInt64) (src : MovSource)
  /-- Combines two registers into a third. -/
  | arith (op : ArithOp) (lhs rhs dst : UInt64)
  /-- Emits a register on the serial line. -/
  | out (src : UInt64)
  /-- Stops the machine with an exit code. -/
  | exit (code : UInt64)
deriving DecidableEq

/-- What can be wrong with a word that should be an instruction. -/
inductive DecodeError where
  /-- The word has no tokens. -/
  | emptyWord
  /-- No operation has this number. -/
  | invalidOpcode (value : UInt64)
  /-- The operation does not take this number of operands. -/
  | arityMismatch (opcode : Opcode) (found : Nat)
  /-- A token is not the number that it should be. -/
  | operand (cause : LiteralError)
deriving DecidableEq

/-- The complaint about an operand count. -/
def Opcode.arityComplaint (opcode : Opcode) (found : Nat) : String :=
  let expected := Text.inspectList (opcode.arity.map toString)
  s!"{opcode.mnemonic} takes {expected} operands, found {found}"

/-- The message for a decode error. -/
def DecodeError.message : DecodeError → String
  | .emptyWord => "empty word"
  | .invalidOpcode value => s!"invalid opcode: {value}"
  | .arityMismatch opcode found => opcode.arityComplaint found
  | .operand cause => s!"malformed operand: {cause.message}"

/-- The operation that the first token of a word names. -/
def Word.opcode (w : Word) : Except DecodeError Opcode := do
  let some token := w.first? | .error .emptyWord
  let value ← token.unsigned.mapError .operand
  let some opcode := Opcode.ofValue? value | .error (.invalidOpcode value)
  return opcode

namespace Instruction

/-- The operation of an instruction. -/
def opcode : Instruction → Opcode
  | .mov .. => .mov
  | .arith op .. => .arith op
  | .out _ => .out
  | .exit _ => .exit

/-- The number in an operand token. -/
def field (token : Bits) : Except DecodeError UInt64 :=
  token.unsigned.mapError .operand

/-- The instruction of an operation and its operand tokens. In a MOV of a value the token
    before the value is not looked at. -/
def ofOperands : Opcode → List Bits → Except DecodeError Instruction
  | .mov, [dst, addr] => do return .mov (← field dst) (.address ⟨← field addr⟩)
  | .mov, [dst, _, value] => do return .mov (← field dst) (.immediate value)
  | .arith op, [lhs, rhs, dst] => do
    return .arith op (← field lhs) (← field rhs) (← field dst)
  | .out, [src] => do return .out (← field src)
  | .exit, [code] => do return .exit (← field code)
  | opcode, operands => .error (.arityMismatch opcode operands.length)

/-- The instruction of a word. -/
def decode (w : Word) : Except DecodeError Instruction := do
  ofOperands (← w.opcode) w.operands

/-- The word of an instruction, every number padded to `width` digits. -/
def encode (i : Instruction) (width : Nat) : Word :=
  let num := (encodeUnsigned · width)
  let operands := match i with
    | .mov dst (.immediate value) => [num dst, num 0, value]
    | .mov dst (.address addr) => [num dst, num addr.slot]
    | .arith _ lhs rhs dst => [num lhs, num rhs, num dst]
    | .out src => [num src]
    | .exit code => [num code]
  ⟨num i.opcode.value :: operands⟩

/-- The inspection text of an instruction. -/
def inspect (i : Instruction) : String :=
  Text.inspectRecord i.opcode.name <| match i with
    | .mov dst (.immediate value) =>
      [("dst", toString dst), ("src", Text.inspectTagged "Immediate" value.inspect)]
    | .mov dst (.address addr) =>
      [("dst", toString dst), ("src", Text.inspectTagged "Address" addr.inspect)]
    | .arith _ lhs rhs dst =>
      [("lhs", toString lhs), ("rhs", toString rhs), ("dst", toString dst)]
    | .out src => [("src", toString src)]
    | .exit code => [("code", toString code)]

end Instruction

end BitMachine
