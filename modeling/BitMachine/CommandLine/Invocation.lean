import BitMachine.CommandLine.Arguments

/-!
# Invocations

What the arguments of the command line ask for: a command and the settings of the machine. The
settings may stand before or after the name of the command; where both give one, the latter
counts.
-/

namespace BitMachine

open Arguments

/-- What the command line can do. -/
inductive Command where
  /-- Shows what the program is. -/
  | overview
  /-- Runs a program for a number of cycles. -/
  | run (program : String) (maxCycles : UInt64) (trace : Bool)
  /-- Opens a program in the debugger. -/
  | debug (program : String)
  /-- Writes the image of a source text. -/
  | assemble (source : String) (output : Option String)
  /-- Shows the listing of an image. -/
  | disassemble (image : String)
  /-- Checks the machine itself. -/
  | selfTest
deriving DecidableEq

/-- The settings that every command takes. -/
structure Settings where
  /-- The configuration file. -/
  config : Option String := none
  /-- The number of registers. -/
  registers : Option UInt64 := none
  /-- The memory capacity. -/
  memorySlots : Option UInt64 := none
  /-- Whether to report more. -/
  verbose : Bool := false
deriving DecidableEq

/-- The settings that were read. -/
def Settings.ofReading (r : Reading) : Settings where
  config := r.path? "config"
  registers := r.count? "registers"
  memorySlots := r.count? "memory-slots"
  verbose := r.isGiven "verbose"

/-- The settings that were read before and after the name of a command. -/
def Settings.ofReadings (before after : Reading) : Settings :=
  ofReading { options := after.options ++ before.options }

/-- What the arguments ask for. -/
structure Invocation where
  /-- The settings. -/
  settings : Settings
  /-- The command. -/
  command : Command
deriving DecidableEq

namespace Invocation

/-- The number of cycles that a run is limited to if nothing else is said. -/
def defaultMaxCycles : UInt64 := 10000

/-- The options that may stand on both sides of the name of a command. -/
def settingSpecs : List OptionSpec :=
  [{ long := "config", kind := .path },
   { long := "registers", kind := .count },
   { long := "memory-slots", kind := .count },
   { long := "verbose", short := some 'v', kind := .flag },
   { long := "help", short := some 'h', kind := .help }]

/-- What may stand before the name of a command. -/
def leadingGrammar : Grammar :=
  { options := { long := "version", short := some 'V', kind := .version } :: settingSpecs }

/-- What may stand after the name of a command, for each command. -/
def commandGrammars : List (String × Grammar) :=
  [("run",
    { options :=
        { long := "max-cycles", short := some 'm', kind := .count } ::
        { long := "trace", short := some 't', kind := .flag } :: settingSpecs
      operand := some "PROGRAM" }),
   ("debug", { options := settingSpecs, operand := some "PROGRAM" }),
   ("asm",
    { options := { long := "output", short := some 'o', kind := .path } :: settingSpecs
      operand := some "SOURCE" }),
   ("disasm", { options := settingSpecs, operand := some "IMAGE" }),
   ("test", { options := settingSpecs })]

/-- The command of a name and of what was read after it. -/
def command? (name : String) (r : Reading) : Option Command :=
  match name, r.operand with
  | "run", some program =>
    some (.run program ((r.count? "max-cycles").getD defaultMaxCycles) (r.isGiven "trace"))
  | "debug", some program => some (.debug program)
  | "asm", some source => some (.assemble source (r.path? "output"))
  | "disasm", some image => some (.disassemble image)
  | "test", none => some .selfTest
  | _, _ => none

/-- What follows from the command for help and the names after it. One command may be named. -/
def helpOn : List String → Interruption
  | [] => .help
  | name :: rest =>
    if name = "help" || (commandGrammars.lookup name).isSome then
      match rest with
      | [] => .help
      | extra :: _ => .usage (.unknownCommand extra)
    else .usage (.unknownCommand name)

/-- The invocation of a command by its name, after the options that were read before it. -/
def ofCommand (before : Reading) (name : String) (args : List String) :
    Except Interruption Invocation := do
  if name = "help" then throw (helpOn args)
  let some grammar := commandGrammars.lookup name | throw (.usage (.unknownCommand name))
  let after ← readAll grammar args
  let before ← before.settle
  let some command := command? name after | throw (.usage (.unknownCommand name))
  return ⟨.ofReadings before after, command⟩

/-- The invocation that arguments ask for. -/
def ofArguments (args : List String) : Except Interruption Invocation := do
  let (before, left) ← readLeading leadingGrammar {} args
  match left with
  | [] => return ⟨.ofReading (← before.settle), .overview⟩
  | name :: rest =>
    if before.ended then throw (.usage (.unexpectedArgument name))
    else ofCommand before name rest

end Invocation

end BitMachine
