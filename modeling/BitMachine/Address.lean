import BitMachine.Text.Decimal
import BitMachine.Text.Inspect
import BitMachine.Text.Quoted

/-!
# Addresses

A memory slot is a 64-bit number, and its address is written `0x` followed by that number in
decimal. Sequential placement starts at slot 1; slot 0 exists but is never fetched.
-/

namespace BitMachine

/-- The address of a memory slot. -/
structure Address where
  /-- The number of the slot. -/
  slot : UInt64
deriving DecidableEq

/-- A text that is not the address of a slot. -/
structure MalformedAddress where
  /-- The text as it was given. -/
  text : String
deriving DecidableEq

/-- The message for a malformed address. -/
def MalformedAddress.message (e : MalformedAddress) : String :=
  s!"malformed address {Text.quoteString e.text} (expected 0xN)"

namespace Address

/-- Addresses are ordered by their slots. -/
instance : LT Address := ⟨fun a b => a.slot < b.slot⟩

instance (a b : Address) : Decidable (a < b) :=
  inferInstanceAs (Decidable (a.slot < b.slot))

/-- The first address that sequential placement uses. -/
def first : Address := ⟨1⟩

/-- The last address there is. -/
def last : Address := ⟨UInt64.ofNat (UInt64.size - 1)⟩

/-- Numbers are counted up to the last slot. -/
theorem toNat_add_one {n : UInt64} (h : n ≠ last.slot) : (n + 1).toNat = n.toNat + 1 := by
  have hlt := n.toNat_lt
  have hlast : last.slot.toNat = 18446744073709551615 := by decide
  have hne : n.toNat ≠ last.slot.toNat := fun he => h (UInt64.toNat_inj.mp he)
  rw [UInt64.toNat_add, UInt64.toNat_one]
  omega

/-- The address one slot further, unless this is the last one. -/
def next? (a : Address) : Option Address :=
  if a = last then none else some ⟨a.slot + 1⟩

/-- The text of an address, such as `0x12`. -/
def text (a : Address) : String :=
  s!"0x{a.slot}"

/-- The inspection text of an address. -/
def inspect (a : Address) : String :=
  Text.inspectTagged "Address" a.text

/-- Reads an address: `0x` and one or more decimal digits below 2^64. -/
def ofChars? : List Char → Option Address
  | '0' :: 'x' :: digits => (Text.readUInt64? digits).map Address.mk
  | _ => none

/-- Reads an address, or reports the text. -/
def parse (s : String) : Except MalformedAddress Address :=
  match ofChars? s.toList with
  | some a => .ok a
  | none => .error ⟨s⟩

end Address

end BitMachine
