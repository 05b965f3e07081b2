import BitMachine.Disassembly
import BitMachine.Json.Model
import BitMachine.Machine.Run
import BitMachine.Source.Assembly

/-!
# Sessions

A canonical machine together with the program that was loaded into it last, for programs that
embed the machine. Sources are loaded as a whole or not at all, and a reset goes back to the
state right after the last load.
-/

namespace BitMachine

/-- Why a session refuses a source or a step. -/
inductive SessionError where
  /-- The source text has an error. -/
  | source (cause : SourceError)
  /-- The program does not fit into memory. -/
  | memory (cause : MemoryError)
  /-- The machine has stopped. -/
  | stopped
  /-- The step failed. -/
  | fault (cause : Fault)
deriving DecidableEq

/-- The message for a session error. -/
def SessionError.message : SessionError → String
  | .source cause => cause.message
  | .memory cause => cause.message
  | .stopped => "CPU is not running"
  | .fault cause => cause.message

/-- A machine and the program that it was loaded with. -/
structure Session where
  /-- The machine. -/
  machine : Machine := Machine.create {}
  /-- The program that was loaded last. -/
  program : Program := {}

namespace Session

/-- Resets the machine, forgets what was emitted and loads the program again. -/
def reload (s : Session) : Session × Except SessionError Unit :=
  let (machine, result) := s.machine.reset.clearSerial.loadProgram s.program
  ({ s with machine := machine }, result.mapError .memory)

/-- Loads a source text, and yields the number of its words. A text with an error changes
    nothing. -/
def load (s : Session) (source : String) : Session × Except SessionError Nat :=
  match Source.assemble source s.machine.config.tokenWidth.toNat with
  | .error cause => (s, .error (.source cause))
  | .ok program =>
    let (s, result) := { s with program := program }.reload
    (s, result.map fun _ => s.program.size)

/-- One cycle. It yields the text of the executed instruction, or of the skipped data word. -/
def step (s : Session) : Session × Except SessionError String :=
  if !s.machine.isRunning then (s, .error .stopped)
  else
    let addr := s.machine.nextAddress
    let minLength := s.machine.config.minInstructionLength.toNat
    match s.machine.step with
    | (machine, .ok (some i)) => ({ s with machine := machine }, .ok i.text)
    | (machine, .ok none) =>
      let text := (machine.memory.cells.get? addr).map (Word.disassemble · minLength)
      ({ s with machine := machine }, .ok (text.getD ""))
    | (machine, .error cause) => ({ s with machine := machine }, .error (.fault cause))

/-- Runs for at most `budget` cycles, and yields the cycle count. -/
def run (s : Session) (budget : UInt32) : Session × UInt64 :=
  let (machine, _) := s.machine.runLimited budget.toUInt64
  ({ s with machine := machine }, machine.cycle)

/-- Goes back to the state right after the last load. -/
def reset (s : Session) : Session × Except SessionError Unit :=
  s.reload

/-- What a register holds. A register that does not exist holds nothing. -/
def register? (s : Session) (index : UInt32) : Option Bits :=
  match s.machine.registers.get index.toUInt64 with
  | .ok value => value
  | .error _ => none

/-- What a register holds, as a record of its digits and its value, if that fits in 64 bits. -/
def registerToJson (value : Bits) : Json :=
  Json.ofMembers
    [("bits", value.toJson), ("value", Json.ofOption Json.ofInt value.signed.toOption)]

/-- The registers, the cycle count, the next address and the emitted values. -/
def registersToJson (s : Session) : Json :=
  Json.ofMembers
    [("cycle", Json.ofUInt64 s.machine.cycle),
     ("next", Json.ofString s.machine.nextAddress.text),
     ("output", .array (s.machine.serial.lines.map Json.ofString)),
     ("registers", .array (s.machine.registers.slots.map (Json.ofOption registerToJson)))]

/-- A stored word with its address and its disassembly. -/
def cellToJson (minLength : Nat) (addr : Address) (w : Word) : Json :=
  Json.ofMembers
    [("addr", Json.ofString addr.text), ("text", Json.ofString (w.disassemble minLength)),
     ("word", w.toJson)]

/-- The stored words in the order of their addresses. -/
def memoryToJson (s : Session) : Json :=
  let minLength := s.machine.config.minInstructionLength.toNat
  .array (s.machine.memory.entries.map fun (addr, w) => cellToJson minLength addr w)

end Session

/-- The number of words of a source text on the canonical machine. -/
def sourceSize (source : String) : Except SourceError Nat := do
  let canonical : Config := {}
  return (← Source.assemble source canonical.tokenWidth.toNat).size

/-- The disassembly of the text of a word on the canonical machine. -/
def disassembleText (text : String) : Except LiteralError String := do
  return (← Word.parse text).disassemble canonicalLength

end BitMachine
