/-!
# The serial line

Every OUT emits one value: a signed 64-bit integer, or nothing when the register was never
written. The log keeps what was emitted, oldest first.
-/

namespace BitMachine

/-- The text of an emitted value. -/
def emissionText : Option Int → String
  | some value => toString value
  | none => "null"

/-- Everything that was emitted. -/
structure SerialLog where
  /-- The emitted values, oldest first. -/
  values : List (Option Int) := []
deriving DecidableEq

namespace SerialLog

/-- Adds a value to the log. -/
def emit (log : SerialLog) (value : Option Int) : SerialLog :=
  ⟨log.values ++ [value]⟩

/-- The emitted values as texts. -/
def lines (log : SerialLog) : List String :=
  log.values.map emissionText

end SerialLog

end BitMachine
