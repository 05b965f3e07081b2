import BitMachine.Disassembly
import BitMachine.Proofs.DigitValue
import BitMachine.Proofs.Literals

namespace BitMachine

/-!
# The texts of words

How instructions and words are written, token by token:

* `Instruction.toList_text` — the text of an instruction is its mnemonic and its operands with
  single spaces between them;
* `Bits.toList_immediateText_of_lt`, `Bits.toList_immediateText_of_le` — a number is written in
  decimal below 2^63 and in binary from there on;
* `Word.disassemble_of_short`, `Word.disassemble_of_decode`, `Word.disassemble_of_error` — what
  a word is shown as;
* `Word.Shown` and `Word.shown_disassemble` — the three forms in which a word is shown.
-/

/-! ### Numbers -/

theorem toString_text (s : String) : toString s = s := rfl

theorem toList_toString_uint64 (n : UInt64) : (toString n).toList = Nat.toDigits 10 n.toNat :=
  Nat.toList_repr

/-- The characters of a register. -/
def registerChars (index : UInt64) : List Char :=
  'r' :: 'e' :: 'g' :: Nat.toDigits 10 index.toNat

/-- The characters of a number operand. -/
def numberChars (value : Nat) : List Char :=
  '$' :: Nat.toDigits 10 value

namespace Bits

/-- A number below 2^63 is written in decimal. -/
theorem toList_immediateText_of_lt {b : Bits} (hpos : b.negative = false)
    (hlt : b.magnitude < signedLimit) : b.immediateText.toList = numberChars b.magnitude := by
  have hvalue : b.value = b.magnitude := value_of_unsigned hpos
  have hfits : FitsSigned b.value := by
    unfold FitsSigned
    omega
  unfold immediateText
  rw [signed_of_fits hfits, hvalue]
  show ("$" ++ Nat.repr b.magnitude).toList = _
  rw [String.toList_append, Nat.toList_repr]
  rfl

/-- A number from 2^63 on is written as its bit-string. -/
theorem toList_immediateText_of_le {b : Bits} (hpos : b.negative = false)
    (hle : signedLimit ≤ b.magnitude) : b.immediateText.toList = '%' :: b.chars := by
  have hvalue : b.value = b.magnitude := value_of_unsigned hpos
  have hfits : ¬ FitsSigned b.value := by
    unfold FitsSigned
    omega
  unfold immediateText
  rw [signed_of_not_fits hfits]
  show ("%" ++ b.text).toList = _
  rw [String.toList_append]
  show '%' :: (String.ofList b.chars).toList = _
  rw [String.toList_ofList]

end Bits

/-! ### Instructions -/

namespace Instruction

/-- The operands of an instruction as they are written. -/
def writtenOperands : Instruction → List (List Char)
  | .mov dst (.immediate value) => [registerChars dst, value.immediateText.toList]
  | .mov dst (.address addr) => [registerChars dst, addr.text.toList]
  | .arith _ lhs rhs dst => [registerChars lhs, registerChars rhs, registerChars dst]
  | .out src => [registerChars src]
  | .exit code => [numberChars code.toNat]

/-- **The text of an instruction** is its mnemonic and its operands. -/
theorem toList_text (i : Instruction) :
    i.text.toList = [' '].intercalate (i.opcode.mnemonic.toList :: i.writtenOperands) := by
  -- Only MOV is written in more than one way.
  cases i with
  | mov dst src =>
    cases src <;>
      simp [text, writtenOperands, registerChars, List.intercalate_cons_cons, toString_text,
        toList_toString_uint64]
  | _ =>
    simp [text, writtenOperands, registerChars, numberChars, List.intercalate_cons_cons,
      toString_text, toList_toString_uint64]

/-- There is a space behind the mnemonic, since no operation does without operands. -/
theorem exists_toList_text (i : Instruction) :
    ∃ rest, i.text.toList = i.opcode.mnemonic.toList ++ ' ' :: rest := by
  have hoperands : i.writtenOperands ≠ [] := by
    cases i with
    | mov dst src => cases src <;> simp [writtenOperands]
    | _ => simp [writtenOperands]
  obtain ⟨first, others, hcons⟩ := List.exists_cons_of_ne_nil hoperands
  refine ⟨[' '].intercalate (first :: others), ?_⟩
  rw [toList_text, hcons, List.intercalate_cons_cons, List.append_assoc]
  rfl

end Instruction

/-! ### Words -/

/-- Whether a text is the form in which data is shown. -/
def IsDataText (t : String) : Prop :=
  ∃ value : String, t = "DAT " ++ value

namespace Word

variable {w : Word} {minLength : Nat}

theorem disassemble_of_short {token : Bits} (hshort : w.size < minLength)
    (hfirst : w.first? = some token) :
    w.disassemble minLength = "DAT " ++ token.immediateText := by
  unfold disassemble
  rw [if_pos hshort, hfirst]
  rfl

theorem disassemble_of_decode {i : Instruction} (hlong : minLength ≤ w.size)
    (hdecode : Instruction.decode w = .ok i) : w.disassemble minLength = i.text := by
  unfold disassemble
  rw [if_neg (Nat.not_lt.mpr hlong), hdecode]

theorem disassemble_of_error {e : DecodeError} (hlong : minLength ≤ w.size)
    (hdecode : Instruction.decode w = .error e) : w.disassemble minLength = unknownText := by
  unfold disassemble
  rw [if_neg (Nat.not_lt.mpr hlong), hdecode]

/-- **The three forms in which a word is shown.** -/
inductive Shown (w : Word) (minLength : Nat) : String → Prop
  /-- A word that is too short to be an instruction is shown as data. -/
  | data {token : Bits} (hshort : w.size < minLength) (hfirst : w.first? = some token) :
      Shown w minLength ("DAT " ++ token.immediateText)
  /-- A word that decodes is shown as its instruction. -/
  | instruction {i : Instruction} (hlong : minLength ≤ w.size)
      (hdecode : Instruction.decode w = .ok i) : Shown w minLength i.text
  /-- A word that does not decode is shown as unknown. -/
  | unknown {e : DecodeError} (hlong : minLength ≤ w.size)
      (hdecode : Instruction.decode w = .error e) : Shown w minLength unknownText

theorem shown_disassemble (hne : w.isEmpty = false) (minLength : Nat) :
    w.Shown minLength (w.disassemble minLength) := by
  by_cases hshort : w.size < minLength
  · -- Only an empty word has no token to show.
    obtain ⟨token, hfirst⟩ : ∃ token, w.first? = some token := by
      obtain ⟨tokens⟩ := w
      cases tokens with
      | nil => cases hne
      | cons token rest => exact ⟨token, rfl⟩
    rw [disassemble_of_short hshort hfirst]
    exact .data hshort hfirst
  · have hlong := Nat.le_of_not_lt hshort
    cases hdecode : Instruction.decode w with
    | ok i =>
      rw [disassemble_of_decode hlong hdecode]
      exact .instruction hlong hdecode
    | error e =>
      rw [disassemble_of_error hlong hdecode]
      exact .unknown hlong hdecode

end Word

/-- No instruction is written like data: the mnemonics have other letters. -/
theorem Instruction.not_isDataText (i : Instruction) : ¬ IsDataText i.text := by
  rintro ⟨value, hvalue⟩
  obtain ⟨rest, hrest⟩ := i.exists_toList_text
  rw [hvalue, String.toList_append] at hrest
  -- DIV has the first letter of DAT, so every mnemonic is compared as a whole.
  cases hop : i.opcode with
  | arith op => cases op <;> simp [hop, Opcode.mnemonic] at hrest
  | _ => simp [hop, Opcode.mnemonic] at hrest

/-- A text that starts with no mnemonic is the text of no instruction. -/
theorem Instruction.text_ne {t : String}
    (h : ∀ op ∈ Opcode.all, ¬ op.mnemonic.toList <+: t.toList) (i : Instruction) : i.text ≠ t := by
  rintro rfl
  have hop : i.opcode ∈ Opcode.all := by
    cases i.opcode with
    | arith op => cases op <;> decide
    | _ => decide
  obtain ⟨rest, hrest⟩ := i.exists_toList_text
  refine h i.opcode hop ?_
  rw [hrest]
  exact List.prefix_append _ _

/-- No instruction is written like an unknown word. -/
theorem Instruction.text_ne_unknownText (i : Instruction) : i.text ≠ unknownText :=
  text_ne (by decide) i

theorem not_isDataText_unknownText : ¬ IsDataText unknownText := by
  rintro ⟨value, hvalue⟩
  have hchars := congrArg String.toList hvalue
  rw [String.toList_append] at hchars
  simp [unknownText] at hchars

end BitMachine
