import BitMachine.CommandLine.Invocation
import BitMachine.CommandLine.Path
import BitMachine.CommandLine.SelfTest
import BitMachine.Disassembly
import BitMachine.Image
import BitMachine.Json.Model

/-!
# Commands

Each command of the command line as a script.

* `Settings.withConfig` — the configuration that the settings describe.
* `withProgram` — a program file: a source text if its extension says so, else an image.
* `runScript`, `assembleScript`, `disassembleScript`, `debugScript` — the commands.
* `commandLine` — the script of the arguments. Wrong usage is reported with the exit code 2.
-/

namespace BitMachine

/-- The configuration with the settings that stand above it. -/
def Settings.override (s : Settings) (c : Config) : Config :=
  { c with
    registerCount := s.registers.getD c.registerCount
    memoryCapacity := s.memorySlots.or c.memoryCapacity }

/-- Goes on with the configuration that the settings describe. -/
def Settings.withConfig (s : Settings) (next : Config → Script) : Script :=
  match s.config with
  | none => checked {}
  | some path => .read path fun content =>
    match (content.mapError ConfigError.file).bind Config.ofBytes with
    | .ok config => checked config
    | .error e => .fail s!"Failed to load config {path}: {e.message}"
where
  /-- Goes on with a valid configuration. -/
  checked (config : Config) : Script :=
    match (s.override config).validate with
    | .ok config => next config
    | .error e => .fail e.message

/-- The text of a file. -/
def textOf (content : Except FileError (List UInt8)) : Except FileError String := do
  match Text.decodeUtf8? (← content) with
  | some cs => return String.ofList cs
  | none => throw .invalidText

/-- Goes on with the program of a source file. -/
def withSource (path : String) (config : Config) (next : Program → Script) : Script :=
  .read path fun content =>
    match textOf content with
    | .error e => .fail s!"Failed to read file: {e.message}"
    | .ok source =>
      match Source.assemble source config.tokenWidth.toNat with
      | .error e => .fail s!"Assembly error: {e.message}"
      | .ok program => next program

/-- Goes on with the program of an image file. -/
def withImage (path : String) (next : Program → Script) : Script :=
  .read path fun content =>
    match (content.mapError ImageError.file).bind Image.ofBytes with
    | .error e => .fail s!"Failed to load image: {e.message}"
    | .ok program => next program

/-- The extension of source files. -/
def sourceExtension : String := "zev"

/-- The extension of image files. -/
def imageExtension : String := "zimg"

/-- Goes on with the program of a file, which must not be empty. -/
def withProgram (path : String) (config : Config) (next : Program → Script) : Script :=
  if Path.extension? path = some sourceExtension then
    withSource path config fun program =>
      .reportLine s!"📝 Assembled {program.size} words" (nonEmpty program)
  else
    withImage path fun program =>
      .reportLine s!"📂 Loaded {program.size} words" (nonEmpty program)
where
  /-- Goes on with a program that has words. -/
  nonEmpty (program : Program) : Script :=
    if program.isEmpty then .fail "No words to execute" else next program

/-- The trace of a cycle: the address, what was executed there and the registers after it. -/
def traceLine (addr : Address) (executed : Option Instruction) (registers : Registers) :
    String :=
  let place := Text.padLeft 6 addr.text
  let shown := Text.padRight 24 ((executed.map Instruction.text).getD "(data)")
  s!"{place}: {shown} {registers.inspect}"

/-- The end of a run, from the machine as the run leaves it and the fault that ended it, if one
    did. -/
def runEnd (maxCycles : UInt64) (m : Machine) : Option Fault → Script
  | some fault => .fail s!"CPU fault: {fault.message}"
  | none =>
    match m.exitCode? with
    | some code =>
      .reportLine s!"✓ Exited with status {code} after {m.cycle} cycles" (.exit code)
    | none =>
      .reportLine
        s!"⚠️  Reached max cycles limit ({maxCycles}). Use --max-cycles to increase." (.exit 1)

/-- Cycles of a machine as long as it goes on and its cycle count is below a limit, and then the
    given end. Every emitted value is printed when it is emitted, and with a trace every cycle is
    reported. -/
def runCycles (trace : Bool) (limit : UInt64) (finish : Machine → Option Fault → Script)
    (m : Machine) : Script :=
  if _hgo : m.isRunning ∧ m.cycle < limit then
    match _h : m.step with
    | (after, .error fault) => finish after (some fault)
    | (after, .ok executed) =>
      let emitted := after.serial.lines.drop m.serial.values.length
      let next := runCycles trace limit finish after
      .printLines emitted <|
        if trace then .reportLine (traceLine m.nextAddress executed after.registers) next
        else next
  else finish m none
termination_by limit.toNat - m.cycle.toNat
decreasing_by exact Machine.room_step _hgo.2 _h

/-- Runs a program. -/
def runScript (path : String) (maxCycles : UInt64) (trace : Bool) (config : Config) : Script :=
  .reportLine s!"🔧 Running: {path}" <|
    withProgram path config fun program =>
      match (Machine.create config).loadProgram program with
      | (m, .ok ()) => runCycles trace maxCycles (runEnd maxCycles) m
      | (_, .error e) => .fail s!"Failed to load program: {e.message}"

/-- Opens a program in the debugger, which takes a terminal that a script does not have. -/
def debugScript (path : String) (config : Config) : Script :=
  .reportLine s!"🔍 Loading: {path}" <|
    withProgram path config fun _ =>
      .reportLine "🚀 Launching debugger..." <|
        .fail "Debugger error: No such device or address (os error 6)"

/-- Writes the image of a source file. -/
def assembleScript (source : String) (output : Option String) (config : Config) : Script :=
  let target := output.getD (Path.withExtension source imageExtension)
  .printLine s!"📝 Assembling: {source} → {target}" <|
    withSource source config fun program =>
      .printLine s!"✓ Assembled {program.size} words" <|
        .write target (Image.toBytes program) fun
          | .ok () => .printLine s!"✓ Saved to {target}" (.exit 0)
          | .error e => .fail s!"Failed to save image: {(ImageError.file e).message}"

/-- Prints the listing of an image file. -/
def disassembleScript (image : String) : Script :=
  .printLine s!"📖 Disassembling: {image}" <| .printLine "" <|
    withImage image fun program => .printLine program.listing (.exit 0)

/-- How the program is used. -/
def usageLines : List String :=
  ["A minimal binary virtual machine for the ZEV instruction set", "",
   "Usage: zev [OPTIONS] [COMMAND]", "",
   "Commands:",
   "  run FILE [-m N] [-t]   Run a program until it exits",
   "  debug FILE             Interactive debugger",
   "  asm FILE [-o OUT]      Assemble source to an image",
   "  disasm FILE            Disassemble an image to readable text",
   "  test                   Run the built-in self-test", "",
   "Options:",
   "  --config FILE          Machine configuration file (JSON)",
   "  --registers N          Override the number of registers",
   "  --memory-slots N       Override the memory capacity in slots",
   "  -v, --verbose          Report more",
   "  -h, --help             Print help",
   "  -V, --version          Print version"]

/-- The script of an invocation. -/
def Invocation.script (i : Invocation) : Script :=
  match i.command with
  | .overview => i.settings.withConfig fun _ => .printLines overviewLines (.exit 0)
  | .run program maxCycles trace => i.settings.withConfig (runScript program maxCycles trace)
  | .debug program => i.settings.withConfig (debugScript program)
  | .assemble source output => i.settings.withConfig (assembleScript source output)
  | .disassemble image => i.settings.withConfig fun _ => disassembleScript image
  | .selfTest => i.settings.withConfig fun _ => selfTestScript

/-- The script of an interruption. -/
def Arguments.Interruption.script : Arguments.Interruption → Script
  | .help => .printLines usageLines (.exit 0)
  | .version => .printLine "zev 0.1.0" (.exit 0)
  | .usage e => .reportLine e.message (.exit 2)

/-- The script of the arguments. -/
def commandLine (args : List String) : Script :=
  match Invocation.ofArguments args with
  | .ok invocation => invocation.script
  | .error interruption => interruption.script

end BitMachine
