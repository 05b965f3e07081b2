import BitMachine.Config
import BitMachine.Json.Record
import BitMachine.Program
import BitMachine.Instruction
import BitMachine.Registers
import BitMachine.Text.Decimal
import BitMachine.Text.Utf8

/-!
# The machine's values in JSON

For each kind of value a `toJson` and an `ofJson?`. Slots and register numbers are plain
numbers, a bit-string is a string, a word is the array of its tokens; memory cells are an object
whose keys are slots in increasing order. Reading checks every bit-string and every number, and
no more: words may be empty and a memory may contradict itself.
-/

namespace BitMachine

/-- The value for a 64-bit number. -/
def Json.ofUInt64 (n : UInt64) : Json :=
  Json.ofNat n.toNat

/-- The 64-bit number that a value stands for. -/
def Json.uint64? (j : Json) : Option UInt64 :=
  j.nat?.bind Text.narrow?

/-- What an optional field holds: nothing if it is missing or null. -/
def Json.optional? {α : Type} (read : Json → Option α) : Option Json → Option (Option α)
  | none => some none
  | some .null => some none
  | some j => (read j).map some

namespace Bits

/-- A bit-string as a JSON string. -/
def toJson (b : Bits) : Json :=
  Json.ofString b.text

/-- The bit-string of a JSON string. -/
def ofJson? (j : Json) : Option Bits := do
  (Bits.parse (← j.text?)).toOption

end Bits

namespace Word

/-- A word as the array of its tokens. -/
def toJson (w : Word) : Json :=
  .array (w.tokens.map Bits.toJson)

/-- The word of an array of tokens. -/
def ofJson? (j : Json) : Option Word := do
  return ⟨← (← j.items?).mapM Bits.ofJson?⟩

end Word

namespace Address

/-- An address as the number of its slot. -/
def toJson (a : Address) : Json :=
  Json.ofUInt64 a.slot

/-- The address of a slot number. -/
def ofJson? (j : Json) : Option Address :=
  j.uint64?.map Address.mk

end Address

namespace Cells

/-- Memory cells as an object. -/
def toJson (c : Cells) : Json :=
  .object (c.entries.map fun (a, w) => (Nat.toDigits 10 a.slot.toNat, w.toJson))

/-- The cells with a further member. A slot may be repeated; its last word counts. -/
def insertJson? (c : Cells) (member : List Char × Json) : Option Cells := do
  let slot ← (Json.plainNat? member.1).bind Text.narrow?
  let w ← Word.ofJson? member.2
  return c.insert ⟨slot⟩ w

/-- The memory cells of an object. -/
def ofJson? : Json → Option Cells
  | .object members => members.foldlM insertJson? Cells.empty
  | _ => none

end Cells

namespace Memory

/-- A memory as a record. -/
def toJson (m : Memory) : Json :=
  Json.ofMembers
    [("cells", m.cells.toJson), ("next_slot", Json.ofOption Address.toJson m.next),
     ("max_slots", Json.ofOption Json.ofUInt64 m.capacity)]

/-- The memory of a record. -/
def ofJson? (j : Json) : Option Memory := do
  match ← j.record? ["cells", "next_slot", "max_slots"] with
  | [some cells, next, capacity] =>
    return ⟨← Cells.ofJson? cells, ← Json.optional? Address.ofJson? next,
      ← Json.optional? Json.uint64? capacity⟩
  | _ => none

end Memory

namespace Registers

/-- Registers as a record. -/
def toJson (r : Registers) : Json :=
  Json.ofMembers [("slots", .array (r.slots.map (Json.ofOption Bits.toJson)))]

/-- The registers of a record. -/
def ofJson? (j : Json) : Option Registers := do
  match ← j.record? ["slots"] with
  | [some slots] =>
    return ⟨← (← slots.items?).mapM fun slot => Json.optional? Bits.ofJson? (some slot)⟩
  | _ => none

end Registers

namespace Opcode

/-- An operation as the string of its name. -/
def toJson (o : Opcode) : Json :=
  Json.ofString o.name

/-- The operation of a name, which stands alone or tags a null. -/
def ofJson? (j : Json) : Option Opcode :=
  match j.text?, j.tagged? with
  | some name, _ => ofName? name
  | none, some (name, .null) => ofName? name
  | none, _ => none

end Opcode

namespace MovSource

/-- The source of a MOV as a tagged value. -/
def toJson : MovSource → Json
  | .immediate value => Json.ofMembers [("Immediate", value.toJson)]
  | .address addr => Json.ofMembers [("Address", addr.toJson)]

/-- The source of a MOV of a tagged value. -/
def ofJson? (j : Json) : Option MovSource := do
  match ← j.tagged? with
  | ("Immediate", value) => return .immediate (← Bits.ofJson? value)
  | ("Address", addr) => return .address (← Address.ofJson? addr)
  | _ => none

end MovSource

namespace Instruction

/-- The operands of an instruction as a record. -/
def operandsToJson : Instruction → Json
  | .mov dst src => Json.ofMembers [("dst", Json.ofUInt64 dst), ("src", src.toJson)]
  | .arith _ lhs rhs dst =>
    Json.ofMembers
      [("lhs", Json.ofUInt64 lhs), ("rhs", Json.ofUInt64 rhs), ("dst", Json.ofUInt64 dst)]
  | .out src => Json.ofMembers [("src", Json.ofUInt64 src)]
  | .exit code => Json.ofMembers [("code", Json.ofUInt64 code)]

/-- An instruction as the record of its operands, tagged with its operation. -/
def toJson (i : Instruction) : Json :=
  Json.ofMembers [(i.opcode.name, i.operandsToJson)]

/-- The names of the operands of an operation. -/
def operandNames : Opcode → List String
  | .mov => ["dst", "src"]
  | .arith _ => ["lhs", "rhs", "dst"]
  | .out => ["src"]
  | .exit => ["code"]

/-- The instruction of a tagged record. -/
def ofJson? (j : Json) : Option Instruction := do
  let (name, content) ← j.tagged?
  let opcode ← Opcode.ofName? name
  match opcode, ← content.record? (operandNames opcode) with
  | .mov, [some dst, some src] => return .mov (← dst.uint64?) (← MovSource.ofJson? src)
  | .arith op, [some lhs, some rhs, some dst] =>
    return .arith op (← lhs.uint64?) (← rhs.uint64?) (← dst.uint64?)
  | .out, [some src] => return .out (← src.uint64?)
  | .exit, [some code] => return .exit (← code.uint64?)
  | _, _ => none

end Instruction

namespace Program

/-- A program as a record. -/
def toJson (p : Program) : Json :=
  Json.ofMembers [("words", .array (p.words.map fun (a, w) => .array [a.toJson, w.toJson]))]

/-- The word and the address of a pair. -/
def entryOfJson? : Json → Option (Address × Word)
  | .array [addr, w] => do return (← Address.ofJson? addr, ← Word.ofJson? w)
  | _ => none

/-- The program of a record. -/
def ofJson? (j : Json) : Option Program := do
  match ← j.record? ["words"] with
  | [some words] => return ⟨← (← words.items?).mapM entryOfJson?⟩
  | _ => none

end Program

namespace Config

/-- A configuration as a record. -/
def toJson (c : Config) : Json :=
  Json.ofMembers
    [("register_count", Json.ofUInt64 c.registerCount),
     ("token_width", Json.ofUInt64 c.tokenWidth),
     ("min_instruction_len", Json.ofUInt64 c.minInstructionLength),
     ("memory_max_slots", Json.ofOption Json.ofUInt64 c.memoryCapacity)]

/-- What a number field holds, or the default if it is missing. -/
def fieldOr (default : UInt64) : Option Json → Option UInt64
  | none => some default
  | some j => j.uint64?

/-- The configuration of a record. A missing field has its default; nothing else is checked. -/
def ofJson? (j : Json) : Option Config := do
  let canonical : Config := {}
  match ← j.settings? ["register_count", "token_width", "min_instruction_len",
      "memory_max_slots"] with
  | [registers, width, minLength, capacity] =>
    return {
      registerCount := ← fieldOr canonical.registerCount registers
      tokenWidth := ← fieldOr canonical.tokenWidth width
      minInstructionLength := ← fieldOr canonical.minInstructionLength minLength
      memoryCapacity := ← Json.optional? Json.uint64? capacity }
  | _ => none

/-- The configuration of a JSON text. -/
def parse (s : String) : Except ConfigError Config :=
  match (Json.parse? s).bind ofJson? with
  | some c => c.validate
  | none => .error .malformed

/-- The configuration of a JSON file. -/
def ofBytes (content : List UInt8) : Except ConfigError Config :=
  match Text.decodeUtf8? content with
  | some cs => parse (String.ofList cs)
  | none => .error (.file .invalidText)

end Config

end BitMachine
