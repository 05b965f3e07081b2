import BitMachine.CommandLine.Script
import BitMachine.Machine.Run
import BitMachine.Source.Assembly
import BitMachine.Text.Padding

/-!
# Overview and self-test

Two fixed reports that the program computes from its own operations: a demonstration of the
bit-strings, and a list of checks of every layer.
-/

namespace BitMachine

/-! ### Overview -/

/-- A rule across the report. -/
def ruleLine : String := "━━━━━━━━━━━━━━━━━━━━━━━━━━━━━━"

/-- A row that shows the bit-string of a number. -/
def encodingRow (value : UInt64) : String :=
  let shown := Text.padLeft 2 (toString value)
  s!"  {shown} → {(encodeUnsigned value 4).text}"

/-- The value of a literal, or zero if it has none. -/
def signedOrZero (b : Bits) : Int :=
  match b.signed with
  | .ok value => value
  | .error _ => 0

/-- A row that shows the sum and the difference of two literals. -/
def arithmeticRow (a b : String) : List String :=
  match addLiterals a b, subLiterals a b with
  | .ok sum, .ok difference =>
    let sumText := Text.padRight 6 sum.text
    let differenceText := Text.padRight 6 difference.text
    [s!"  {a} + {b} = {sumText} {a} - {b} = {differenceText} ({signedOrZero difference})"]
  | _, _ => []

/-- The overview. -/
def overviewLines : List String :=
  ["ZEV Virtual Machine v0.1.0", "A tiny register machine running on bit-strings", "",
   "Use --help for available commands", "", "━━━ Binary Codec Demo ━━━", "",
   "Fixed-width encoding (4 bits):"] ++
  [0, 7, 15, 42].map encodingRow ++
  ["", "Bit-string arithmetic:"] ++
  [("0111", "0011"), ("0011", "0111"), ("1111", "0001")].flatMap
    (fun (a, b) => arithmeticRow a b) ++
  ["", "✓ Core binary primitives working!"]

/-! ### Self-test -/

/-- What a source text emits on the canonical machine, and how it ends. -/
def runSource? (source : String) : Option (List (Option Int) × Except Fault Nat) := do
  let canonical : Config := {}
  let program ← (Source.assemble source canonical.tokenWidth.toNat).toOption
  let (m, loaded) := (Machine.create canonical).loadProgram program
  loaded.toOption
  let (m, result) := m.run
  return (m.serial.values, result.map (·.code))

/-- Whether a source text emits the given values and exits with 0. -/
def emits (source : String) (values : List (Option Int)) : Bool :=
  match runSource? source with
  | some (emitted, .ok 0) => emitted == values
  | _ => false

/-- Whether a source text ends in a fault of the given kind. -/
def faultsWith (source : String) (expected : Fault → Bool) : Bool :=
  match runSource? source with
  | some (_, .error fault) => expected fault
  | _ => false

/-- Whether a number is the value of its own literal. -/
def roundTrips (value : UInt64) : Bool :=
  match decodeUnsigned (encodeUnsigned value 4).text with
  | .ok decoded => decoded == value
  | .error _ => false

/-- Whether a result is the bit-string of a text. -/
def hasText (result : Except LiteralError Bits) (text : String) : Bool :=
  match result with
  | .ok b => b.text == text
  | .error _ => false

/-- Whether the literal -101 has the value -5. -/
def signedLiteralChecks : Bool :=
  match decodeSigned "-101" with
  | .ok value => value == -5
  | .error _ => false

/-- Whether a word that was stored is found again. -/
def memoryChecks : Bool :=
  match Word.parse "0101 0000" with
  | .ok w =>
    match (Memory.empty none).insert w with
    | (m, .ok addr) => m.cells.get? addr == some w
    | (_, .error _) => false
  | .error _ => false

/-- The checks of the self-test. -/
def selfChecks : List (String × Bool) :=
  [("Encode/decode roundtrip", [0, 1, 7, 15, 255, 1099511627776].all roundTrips),
   ("Signed decode", signedLiteralChecks),
   ("Bit-string addition", hasText (addLiterals "0111" "0011") "1010"),
   ("Bit-string subtraction", hasText (subLiterals "0011" "0111") "-100"),
   ("Memory insert/get", memoryChecks),
   ("CPU add program",
    emits "MOV reg0 $7\nMOV reg1 $3\nADD reg0 reg1 reg2\nOUT reg2\nEXIT $0" [some 10]),
   ("CPU negative subtraction",
    emits "MOV reg0 $3\nMOV reg1 $7\nSUB reg0 reg1 reg2\nOUT reg2\nEXIT $0" [some (-4)]),
   ("CPU division by zero fault",
    faultsWith "MOV reg0 $7\nMOV reg1 $0\nDIV reg0 reg1 reg2" fun fault =>
      fault == .divisionByZero 3),
   ("CPU invalid register fault",
    faultsWith "OUT reg8" fun
      | .invalidRegister 1 _ _ _ => true
      | _ => false)]

/-- The row of a check. -/
def checkRow (name : String) (ok : Bool) : String :=
  name ++ "... " ++ if ok then "✓" else "✗"

/-- The report of the self-test before its verdict. -/
def selfTestLines : List String :=
  let passed := (selfChecks.filter (·.2)).length
  let failed := selfChecks.length - passed
  ["━━━ ZEV Self-Test ━━━", ""] ++ selfChecks.map (fun (name, ok) => checkRow name ok) ++
    ["", ruleLine, s!"Results: {passed} passed, {failed} failed"]

/-- Writes lines to the standard output. -/
def Script.printLines (lines : List String) (next : Script) : Script :=
  lines.foldr Script.printLine next

/-- The script of the self-test. -/
def selfTestScript : Script :=
  .printLines selfTestLines <|
    if selfChecks.all (·.2) then .printLine "✓ All tests passed!" (.exit 0) else .exit 1

end BitMachine
