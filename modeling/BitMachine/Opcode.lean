/-!
# Opcodes

The seven operations of the machine with their numbers, names and operand counts.
-/

namespace BitMachine

/-- The four arithmetic operations. -/
inductive ArithOp where
  | add
  | sub
  | mul
  | div
deriving DecidableEq

/-- The operations of the machine. -/
inductive Opcode where
  | mov
  | arith (op : ArithOp)
  | out
  | exit
deriving DecidableEq

namespace Opcode

/-- All operations in the order of their numbers. -/
def all : List Opcode :=
  [.mov, .arith .add, .arith .sub, .arith .mul, .arith .div, .out, .exit]

/-- The number of an operation. -/
def value : Opcode → UInt64
  | .mov => 0
  | .arith .add => 1
  | .arith .sub => 2
  | .arith .mul => 3
  | .arith .div => 4
  | .out => 5
  | .exit => 15

/-- The operation of a number. -/
def ofValue? (n : UInt64) : Option Opcode :=
  all.find? (·.value == n)

/-- The name of an operation as programs write it. -/
def mnemonic : Opcode → String
  | .mov => "MOV"
  | .arith .add => "ADD"
  | .arith .sub => "SUB"
  | .arith .mul => "MUL"
  | .arith .div => "DIV"
  | .out => "OUT"
  | .exit => "EXIT"

/-- The name of an operation as records of instructions write it. -/
def name : Opcode → String
  | .mov => "Mov"
  | .arith .add => "Add"
  | .arith .sub => "Sub"
  | .arith .mul => "Mul"
  | .arith .div => "Div"
  | .out => "Out"
  | .exit => "Exit"

/-- The operation of a record name. -/
def ofName? (s : String) : Option Opcode :=
  all.find? (·.name == s)

/-- The operand counts that an operation accepts, lowest first. -/
def arity : Opcode → List Nat
  | .mov => [2, 3]
  | .arith _ => [3]
  | .out => [1]
  | .exit => [1]

end Opcode

end BitMachine
