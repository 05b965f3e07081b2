import BitMachine.Bits.Basic
import BitMachine.Text.Inspect

/-!
# Registers

A fixed number of registers, numbered from 0. A register holds a bit-string, or nothing until
the first write.
-/

namespace BitMachine

/-- A register number that is not below the number of registers. -/
structure RegisterError where
  /-- The number that was asked for. -/
  index : UInt64
  /-- How many registers there are. -/
  count : Nat
deriving DecidableEq

/-- The message for a register error. -/
def RegisterError.message (e : RegisterError) : String :=
  s!"register index {e.index} out of range (0-{e.count - 1})"

/-- The register file. -/
structure Registers where
  /-- The contents of the registers in the order of their numbers. -/
  slots : List (Option Bits)
deriving DecidableEq

namespace Registers

/-- Registers that hold nothing. -/
def blank (count : Nat) : Registers :=
  ⟨List.replicate count none⟩

/-- The number of registers. -/
def count (r : Registers) : Nat :=
  r.slots.length

/-- The position of a register, if there is a register of that number. -/
def validate (r : Registers) (index : UInt64) : Except RegisterError Nat :=
  if index.toNat < r.count then .ok index.toNat else .error ⟨index, r.count⟩

/-- What a register holds. -/
def get (r : Registers) (index : UInt64) : Except RegisterError (Option Bits) := do
  let i ← r.validate index
  return r.slots[i]?.join

/-- Writes a register, if there is one of that number. -/
def set (r : Registers) (index : UInt64) (value : Bits) : Registers × Except RegisterError Unit :=
  match r.validate index with
  | .error e => (r, .error e)
  | .ok i => (⟨r.slots.set i (some value)⟩, .ok ())

/-- Empties every register. -/
def reset (r : Registers) : Registers :=
  blank r.count

/-- The inspection text of the registers. -/
def inspect (r : Registers) : String :=
  Text.inspectMap (r.slots.zipIdx.map fun (value, i) =>
    (s!"reg{i}", (value.map Bits.text).getD "-"))

end Registers

end BitMachine
