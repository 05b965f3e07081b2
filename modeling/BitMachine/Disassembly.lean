import BitMachine.Instruction
import BitMachine.Program
import BitMachine.Text.Padding

/-!
# Disassembly

The text of instructions, words and whole programs in the notation of source texts.

* `Instruction.text` — the text of an instruction.
* `Word.disassemble` — the text of a word on a machine that skips words below a given length.
* `Program.listing` — one row per word: its address, its text and its tokens.
-/

namespace BitMachine

/-- The text of a number operand: `$` and the signed value, or `%` and the bit-string when the
    value does not fit in 64 bits. -/
def Bits.immediateText (b : Bits) : String :=
  match b.signed with
  | .ok value => s!"${value}"
  | .error _ => s!"%{b.text}"

/-- The text of an instruction. -/
def Instruction.text (i : Instruction) : String :=
  let mnemonic := i.opcode.mnemonic
  match i with
  | .mov dst (.immediate value) => s!"{mnemonic} reg{dst} {value.immediateText}"
  | .mov dst (.address addr) => s!"{mnemonic} reg{dst} {addr.text}"
  | .arith _ lhs rhs dst => s!"{mnemonic} reg{lhs} reg{rhs} reg{dst}"
  | .out src => s!"{mnemonic} reg{src}"
  | .exit code => s!"{mnemonic} ${code}"

/-- The length from which the canonical machine takes a word for an instruction. -/
def canonicalLength : Nat := 2

/-- The text for a word that cannot be shown otherwise. -/
def unknownText : String := "???"

/-- The text of a word on a machine that skips words with fewer than `minLength` tokens as
    data. -/
def Word.disassemble (w : Word) (minLength : Nat) : String :=
  if w.size < minLength then
    match w.first? with
    | some token => s!"DAT {token.immediateText}"
    | none => unknownText
  else
    match Instruction.decode w with
    | .ok i => i.text
    | .error _ => unknownText

/-- A row of the listing. -/
def listingRow (addr : Address) (w : Word) : String :=
  let place := Text.padLeft 6 addr.text
  let shown := Text.padRight 20 (w.disassemble canonicalLength)
  s!"{place}: {shown} ; {w.text}\n"

/-- The listing of a program. -/
def Program.listing (p : Program) : String :=
  "; ZEV Disassembly\n; ---------------\n\n" ++
    String.join (p.words.map fun (addr, w) => listingRow addr w)

end BitMachine
