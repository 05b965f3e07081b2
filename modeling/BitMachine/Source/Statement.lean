import BitMachine.Instruction
import BitMachine.Source.Token
import BitMachine.Text.Uppercase

/-!
# Statements of a source line

A code line is one statement: it moves the place of the next word, or it denotes a word. Numbers
stay numbers here; the width of their digits is chosen when the word is made.

| line                      | statement                                       |
|---------------------------|-------------------------------------------------|
| `ORG 0xN`                 | the next word stands at slot N, which is not 0  |
| `DAT $N`, `DATA $N`, `$N` | a data word                                     |
| `MOV regN $V`             | an instruction that loads a value               |
| `MOV regN 0xN`            | an instruction that loads from an address       |
| `ADD regN regN regN` …    | an arithmetic instruction                       |
| `OUT regN`                | an instruction that emits a register            |
| `EXIT $N`, `EXT $N`       | an instruction that stops the machine           |

* `Operand.ofToken` — the operand that a token stands for.
* `Statement.ofLine?` — the statement of a line. A flaw of an operand is reported before a flaw
  of the mnemonic, and that before operands that do not suit it.
* `Item.word` — the word that an item denotes, at a token width.
-/

namespace BitMachine.Source

/-- An operand of a statement. -/
inductive Operand where
  /-- A register, written `regN` or `idxN`. -/
  | register (index : UInt64)
  /-- A number, written `$N`. -/
  | immediate (value : UInt64)
  /-- An address, written `0xN`. -/
  | address (slot : UInt64)
deriving DecidableEq

/-- The kind of an operand and its digits, by the letters it starts with in lower case. -/
def Operand.split? : List Char → Option ((UInt64 → Operand) × List Char)
  | 'r' :: 'e' :: 'g' :: digits => some (.register, digits)
  | 'i' :: 'd' :: 'x' :: digits => some (.register, digits)
  | '$' :: digits => some (.immediate, digits)
  | '0' :: 'x' :: digits => some (.address, digits)
  | _ => none

/-- The operand of a token. The letters may have either case. -/
def Operand.ofToken (token : List Char) : Except SourceFlaw Operand :=
  match Operand.split? (token.map Char.toLower) with
  | none => .error (.unknownOperand (String.ofList token))
  | some (kind, digits) =>
    match Text.readDecimal? digits with
    | none => .error (.unknownOperand (String.ofList token))
    | some n =>
      match Text.narrow? n with
      | none => .error (.valueOutOfRange (String.ofList token))
      | some value => .ok (kind value)

/-- What a line starts with. -/
inductive Mnemonic where
  /-- The directive that moves the place of the next word. -/
  | origin
  /-- The directive for a data word. -/
  | data
  /-- An operation of the machine. -/
  | operation (opcode : Opcode)
deriving DecidableEq

/-- The spellings of the mnemonics, in upper case. -/
def Mnemonic.spellings : List (String × Mnemonic) :=
  [("ORG", .origin), ("DAT", .data), ("DATA", .data),
   ("MOV", .operation .mov), ("ADD", .operation (.arith .add)),
   ("SUB", .operation (.arith .sub)), ("MUL", .operation (.arith .mul)),
   ("DIV", .operation (.arith .div)), ("OUT", .operation .out),
   ("EXIT", .operation .exit), ("EXT", .operation .exit)]

/-- The mnemonic whose spelling is the upper-case form of a token, with that spelling. -/
def Mnemonic.ofToken? (token : List Char) : Option (String × Mnemonic) := do
  let upper ← Text.uppercase? token
  let spelling := String.ofList upper
  let mnemonic ← spellings.lookup spelling
  return (spelling, mnemonic)

/-- The operands that a mnemonic takes. -/
def Mnemonic.expected : Mnemonic → String
  | .origin => "0xN, N >= 1"
  | .data => "$imm"
  | .operation .mov => "regN, $imm | 0xN"
  | .operation (.arith _) => "regN, regN, regN"
  | .operation .out => "regN"
  | .operation .exit => "$imm"

/-- What a code line puts into memory. -/
inductive Item where
  /-- A data word with one number. -/
  | data (value : UInt64)
  /-- An instruction that loads a number. -/
  | loadValue (dst value : UInt64)
  /-- An instruction that loads the first token of the word at a slot. -/
  | loadFrom (dst slot : UInt64)
  /-- An arithmetic instruction. -/
  | arith (op : ArithOp) (lhs rhs dst : UInt64)
  /-- An instruction that emits a register. -/
  | out (src : UInt64)
  /-- An instruction that stops the machine. -/
  | exit (code : UInt64)
deriving DecidableEq

/-- The word that an item denotes, its numbers padded to `width` digits. -/
def Item.word (width : Nat) : Item → Word
  | .data value => ⟨[encodeUnsigned value width]⟩
  | .loadValue dst value =>
    (Instruction.mov dst (.immediate (encodeUnsigned value width))).encode width
  | .loadFrom dst slot => (Instruction.mov dst (.address ⟨slot⟩)).encode width
  | .arith op lhs rhs dst => (Instruction.arith op lhs rhs dst).encode width
  | .out src => (Instruction.out src).encode width
  | .exit code => (Instruction.exit code).encode width

/-- What a code line says. -/
inductive Statement where
  /-- The next item stands at this address. -/
  | origin (addr : Address)
  /-- An item stands here. -/
  | item (content : Item)
deriving DecidableEq

namespace Statement

/-- The statement of a mnemonic and operands that suit it. -/
def ofOperands? : Mnemonic → List Operand → Option Statement
  | .origin, [.address slot] => if slot = 0 then none else some (.origin ⟨slot⟩)
  | .data, [.immediate value] => some (.item (.data value))
  | .operation .mov, [.register dst, .immediate value] => some (.item (.loadValue dst value))
  | .operation .mov, [.register dst, .address slot] => some (.item (.loadFrom dst slot))
  | .operation (.arith op), [.register lhs, .register rhs, .register dst] =>
    some (.item (.arith op lhs rhs dst))
  | .operation .out, [.register src] => some (.item (.out src))
  | .operation .exit, [.immediate code] => some (.item (.exit code))
  | _, _ => none

/-- The data word of a line that starts with a number, which has to be all of the line. -/
def ofBareNumber (tokens : List (List Char)) : Except SourceFlaw Statement := do
  match ← tokens.mapM Operand.ofToken with
  | [.immediate value] => return .item (.data value)
  | _ => throw (.operandMismatch "DAT" "a single $imm")

/-- The statement of a mnemonic token and operand tokens. -/
def ofMnemonic (head : List Char) (rest : List (List Char)) : Except SourceFlaw Statement := do
  let operands ← rest.mapM Operand.ofToken
  let some (spelling, mnemonic) := Mnemonic.ofToken? head
    | throw (.unknownMnemonic (String.ofList head))
  let some statement := ofOperands? mnemonic operands
    | throw (.operandMismatch spelling mnemonic.expected)
  return statement

/-- The statement of the tokens of a line; a line without tokens has none. -/
def ofTokens? : List (List Char) → Except SourceFlaw (Option Statement)
  | [] => .ok none
  | head :: rest => do
    let statement ←
      if head.head? = some '$' then ofBareNumber (head :: rest) else ofMnemonic head rest
    return some statement

/-- The statement of a line. -/
def ofLine? (line : List Char) : Except SourceFlaw (Option Statement) := do
  ofTokens? (← tokens line)

end Statement

end BitMachine.Source
