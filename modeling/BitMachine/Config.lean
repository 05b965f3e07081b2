import BitMachine.FileError

/-!
# Machine configuration

What varies between machines: the number of registers, the width of the numbers in assembled
words, the length from which a word counts as an instruction, and the memory capacity.
-/

namespace BitMachine

/-- A machine configuration. The defaults describe the canonical machine. -/
structure Config where
  /-- The number of registers. -/
  registerCount : UInt64 := 8
  /-- The width to which the assembler pads numbers, in digits. -/
  tokenWidth : UInt64 := 4
  /-- A fetched word with fewer tokens is data and is skipped. -/
  minInstructionLength : UInt64 := 2
  /-- The number of words that memory holds; none is unlimited. -/
  memoryCapacity : Option UInt64 := none
deriving DecidableEq

/-- What can be wrong with a configuration. -/
inductive ConfigError where
  /-- The file cannot be read. -/
  | file (cause : FileError)
  /-- The text describes no configuration. -/
  | malformed
  /-- A field that must be at least 1 is 0. -/
  | zeroField (field : String)
deriving DecidableEq

/-- The message for a configuration error. -/
def ConfigError.message : ConfigError → String
  | .file cause => s!"I/O error: {cause.message}"
  | .malformed => "parse error: not a machine configuration"
  | .zeroField field => s!"invalid configuration: {field} must be at least 1"

/-- Refuses a configuration with a zero where a machine needs at least 1. -/
def Config.validate (c : Config) : Except ConfigError Config :=
  if c.registerCount = 0 then .error (.zeroField "register_count")
  else if c.tokenWidth = 0 then .error (.zeroField "token_width")
  else if c.minInstructionLength = 0 then .error (.zeroField "min_instruction_len")
  else .ok c

end BitMachine
