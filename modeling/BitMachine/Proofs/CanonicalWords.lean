import BitMachine.Proofs.Encoding

namespace BitMachine

/-!
# Canonical words

Encoding an instruction loses nothing, and decoding loses only how wide the numbers in a word are
and what stands in the token that a MOV of a value does not look at:

* `Word.numbers` — the tokens of a word that are read as numbers, and `Bits.HasWidth` — a token that
  is its number at a width;
* `Instruction.operands_encode_eq_iff` — encoded operands, a case for each shape of operand rows;
* `Instruction.encode_eq_iff` — the words that decode to an instruction and are its encoding;
* `Instruction.encoding_lossless` — **encoding is lossless and unambiguous**.
-/

/-! ### Canonical tokens -/

/-- The tokens of a word that are read as numbers: the opcode, and the operands other than the
    value of a MOV and the token before it. -/
def Word.numbers (w : Word) (op : Opcode) : List Bits :=
  w.first?.toList ++ op.numbers w.operands

/-- A token is its number at a width. -/
def Bits.HasWidth (width : Nat) (token : Bits) : Prop :=
  ∃ v, token.unsigned = .ok v ∧ token = encodeUnsigned v width

theorem Bits.hasWidth_iff {width : Nat} {token : Bits} {v : UInt64} (h : token.unsigned = .ok v) :
    token.HasWidth width ↔ encodeUnsigned v width = token := by
  constructor
  · rintro ⟨v', hv', htoken⟩
    cases h.symm.trans hv'
    exact htoken.symm
  · intro htoken
    exact ⟨v, h, htoken.symm⟩

namespace Instruction

/-- **Encoded operands.** The operands of an instruction are the encoded ones if those that are
    read as numbers have the width, and the one that is not looked at is a zero of that width. -/
theorem operands_encode_eq_iff {operands : List Bits} {i : Instruction} (h : Reads operands i)
    (width : Nat) :
    (i.encode width).operands = operands ↔
      (∀ token ∈ i.opcode.numbers operands, token.HasWidth width) ∧
        ∀ dst value, i = .mov dst (.immediate value) →
          operands[1]? = some (encodeUnsigned 0 width) := by
  cases h with
  | movValue hdst =>
    simp [encode, Word.operands, opcode, Opcode.numbers, Bits.hasWidth_iff hdst, eq_comm]
  | movAddress hdst hslot =>
    simp [encode, Word.operands, opcode, Opcode.numbers, Bits.hasWidth_iff hdst,
      Bits.hasWidth_iff hslot]
  | arith hlhs hrhs hdst =>
    simp [encode, Word.operands, opcode, Opcode.numbers, Bits.hasWidth_iff hlhs,
      Bits.hasWidth_iff hrhs, Bits.hasWidth_iff hdst]
  | out hsrc => simp [encode, Word.operands, opcode, Opcode.numbers, Bits.hasWidth_iff hsrc]
  | exit hcode => simp [encode, Word.operands, opcode, Opcode.numbers, Bits.hasWidth_iff hcode]

/-- **Canonical words.** A word that decodes to an instruction is what the instruction is encoded
    as at a width iff its numbers have that width, and the token that a MOV of a value does not look
    at is a zero of that width. -/
theorem encode_eq_iff {w : Word} {i : Instruction} (h : decode w = .ok i) (width : Nat) :
    i.encode width = w ↔
      (∀ token ∈ w.numbers i.opcode, token.HasWidth width) ∧
        ∀ dst value, i = .mov dst (.immediate value) →
          w.operands[1]? = some (encodeUnsigned 0 width) := by
  obtain ⟨token, hfirst, htoken, hreads⟩ := decode_eq_ok_iff.mp h
  obtain ⟨operands, hw⟩ : ∃ operands, w = ⟨token :: operands⟩ := by
    obtain ⟨tokens⟩ := w
    obtain ⟨operands, rfl⟩ := List.head?_eq_some_iff.mp hfirst
    exact ⟨operands, rfl⟩
  subst hw
  change Reads operands i at hreads
  calc i.encode width = ⟨token :: operands⟩
      ↔ encodeUnsigned i.opcode.value width = token ∧ (i.encode width).operands = operands := by
        simp [encode, Word.operands]
    _ ↔ token.HasWidth width ∧ (∀ token ∈ i.opcode.numbers operands, token.HasWidth width) ∧
          ∀ dst value, i = .mov dst (.immediate value) →
            operands[1]? = some (encodeUnsigned 0 width) := by
        rw [Bits.hasWidth_iff htoken, operands_encode_eq_iff hreads]
    _ ↔ _ := by
        simp [Word.numbers, Word.first?, Word.operands, and_assoc]

/-- **Encoding is lossless and unambiguous.** An encoded instruction is decoded again, so words that
    are the same encode the same instruction, whatever their widths. A word that is decoded is
    encoded again as it was iff every number in it has the width, and the token that a MOV of a
    value does not look at is a zero of that width. -/
theorem encoding_lossless :
    (∀ (i : Instruction) (width : Nat), decode (i.encode width) = .ok i) ∧
    (∀ (i j : Instruction) (width width' : Nat), i.encode width = j.encode width' → i = j) ∧
    (∀ (w : Word) (i : Instruction) (width : Nat), decode w = .ok i →
      (i.encode width = w ↔
        (∀ token ∈ w.numbers i.opcode, token.HasWidth width) ∧
          ∀ dst value, i = .mov dst (.immediate value) →
            w.operands[1]? = some (encodeUnsigned 0 width))) := by
  refine ⟨decode_encode, ?_, fun w i width h => encode_eq_iff h width⟩
  intro i j width width' h
  have hdecode := decode_encode i width
  rw [h, decode_encode] at hdecode
  exact (Except.ok.inj hdecode).symm

/-- A MOV of five with a seven before its value is decoded, and encoded with a zero there. -/
theorem encoding_lossless_ignored :
    decode ⟨[encodeUnsigned 0 4, encodeUnsigned 1 4, encodeUnsigned 7 4, encodeUnsigned 5 3]⟩
        = .ok (.mov 1 (.immediate (encodeUnsigned 5 3))) ∧
      encode (.mov 1 (.immediate (encodeUnsigned 5 3))) 4
        ≠ ⟨[encodeUnsigned 0 4, encodeUnsigned 1 4, encodeUnsigned 7 4, encodeUnsigned 5 3]⟩ := by
  have hdecode :
      decode ⟨[encodeUnsigned 0 4, encodeUnsigned 1 4, encodeUnsigned 7 4, encodeUnsigned 5 3]⟩
        = .ok (.mov 1 (.immediate (encodeUnsigned 5 3))) :=
    decode_eq_ok_iff.mpr
      ⟨_, rfl, unsigned_encodeUnsigned 0 4, .movValue (unsigned_encodeUnsigned 1 4)⟩
  refine ⟨hdecode, fun heq => ?_⟩
  obtain ⟨-, -, hcanonical⟩ := encoding_lossless
  obtain ⟨-, hzero⟩ := (hcanonical _ _ 4 hdecode).mp heq
  -- The ignored token would have to be zero.
  have hmagnitude := congrArg Bits.magnitude (Option.some.inj (hzero _ _ rfl))
  rw [magnitude_encodeUnsigned, magnitude_encodeUnsigned] at hmagnitude
  exact absurd hmagnitude (by decide)

end Instruction

end BitMachine
