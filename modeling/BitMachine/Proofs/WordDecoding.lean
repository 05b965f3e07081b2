import BitMachine.Proofs.Encoding

namespace BitMachine

/-!
# Words that decode

Decoding accepts exactly the instruction words, and names the first thing that is wrong with any
other word:

* `Bits.HasNumber`, `Bits.IsNumber` and `Bits.NoNumber` — the tokens that are read as numbers, and
  what is wrong with the others;
* `Word.IsInstruction` — what makes a word an instruction of an operation;
* `Word.FirstDefect` — what is wrong with a word, a constructor for each of the checks in their
  order;
* `Instruction.decode_eq_error_iff` — a word is refused for its first defect;
* `Instruction.decode_exact` — **decoding is exact**.
-/

/-! ### Tokens that are numbers -/

namespace Bits

/-- A token without a sign mark that has the value of a 64-bit number. -/
def HasNumber (token : Bits) (value : UInt64) : Prop :=
  token.negative = false ∧ token.magnitude = value.toNat

/-- A token that is read as a number: it has no sign mark, and its value is below 2^64. -/
def IsNumber (token : Bits) : Prop :=
  token.negative = false ∧ token.magnitude < 2 ^ 64

/-- What is wrong with a token that is no number. -/
inductive NoNumber (token : Bits) : LiteralError → Prop
  /-- It has a sign mark. -/
  | signed (hsign : token.negative = true) : NoNumber token (.signed token.text)
  /-- It has no sign mark, and its value is too large. -/
  | overflow (hsign : token.negative = false) (hlarge : 2 ^ 64 ≤ token.magnitude) :
      NoNumber token (.overflow token.text)

theorem exists_unsigned_iff {token : Bits} : (∃ v, token.unsigned = .ok v) ↔ token.IsNumber := by
  simp only [unsigned_eq_ok_iff, exists_and_left]
  refine and_congr_right fun _ => ⟨?_, fun hlt => ?_⟩
  · rintro ⟨v, hv⟩
    rw [hv]
    exact v.toNat_lt
  · exact ⟨UInt64.ofNat token.magnitude, (UInt64.toNat_ofNat_of_lt hlt).symm⟩

theorem unsigned_eq_error_iff {token : Bits} {e : LiteralError} :
    token.unsigned = .error e ↔ token.NoNumber e := by
  unfold unsigned
  constructor
  · intro h
    split at h
    next hsign =>
      cases h
      exact .signed hsign
    next hsign =>
      split at h
      next => cases h
      next hlarge =>
        cases h
        exact .overflow (by simpa using hsign) (Nat.le_of_not_lt hlarge)
  · intro h
    cases h with
    | signed hsign => rw [if_pos hsign]
    | overflow hsign hlarge =>
      have hfits : ¬ token.magnitude < UInt64.size := Nat.not_lt.mpr hlarge
      rw [if_neg (by simp [hsign]), dif_neg hfits]

end Bits

/-- The numbers of the operations. -/
theorem Opcode.exists_value_iff {n : UInt64} :
    (∃ op : Opcode, op.value = n) ↔ n ∈ [0, 1, 2, 3, 4, 5, 15] := by
  constructor
  · rintro ⟨op, rfl⟩
    cases op with
    | arith op => cases op <;> decide
    | _ => decide
  · intro h
    simp only [List.mem_cons, List.not_mem_nil, or_false] at h
    rcases h with rfl | rfl | rfl | rfl | rfl | rfl | rfl
    · exact ⟨.mov, rfl⟩
    · exact ⟨.arith .add, rfl⟩
    · exact ⟨.arith .sub, rfl⟩
    · exact ⟨.arith .mul, rfl⟩
    · exact ⟨.arith .div, rfl⟩
    · exact ⟨.out, rfl⟩
    · exact ⟨.exit, rfl⟩

/-! ### Instruction words -/

namespace Word

/-- **An instruction word.** It starts with the number of its operation, it has as many operands as
    the operation takes, and those of them that are read as numbers are numbers. -/
structure IsInstruction (w : Word) (op : Opcode) : Prop where
  /-- The first token is the number of the operation. -/
  opcode : ∃ token, w.first? = some token ∧ token.HasNumber op.value
  /-- The operation takes this number of operands. -/
  arity : w.operands.length ∈ op.arity
  /-- The operands that are read as numbers are numbers. -/
  numbers : ∀ token ∈ op.numbers w.operands, token.IsNumber

/-- **The first defect** of a word that is no instruction. The checks are made in the order of the
    constructors, each of which says that the checks before it have passed. -/
inductive FirstDefect : Word → DecodeError → Prop
  /-- There are no tokens. -/
  | empty : FirstDefect ⟨[]⟩ .emptyWord
  /-- The first token is no number. -/
  | opcode {token : Bits} {operands : List Bits} {e : LiteralError} (htoken : token.NoNumber e) :
      FirstDefect ⟨token :: operands⟩ (.operand e)
  /-- The first token is a number, but that of no operation. -/
  | unknown {token : Bits} {operands : List Bits} {value : UInt64} (htoken : token.HasNumber value)
      (hunknown : value ∉ [0, 1, 2, 3, 4, 5, 15]) :
      FirstDefect ⟨token :: operands⟩ (.invalidOpcode value)
  /-- The operation does not take this number of operands. -/
  | arity {token : Bits} {operands : List Bits} {op : Opcode} (htoken : token.HasNumber op.value)
      (harity : operands.length ∉ op.arity) :
      FirstDefect ⟨token :: operands⟩ (.arityMismatch op operands.length)
  /-- An operand that is read as a number is none, and those before it are numbers. -/
  | operand {token bad : Bits} {operands front rear : List Bits} {op : Opcode} {e : LiteralError}
      (htoken : token.HasNumber op.value) (harity : operands.length ∈ op.arity)
      (hsplit : op.numbers operands = front ++ bad :: rear) (hfront : ∀ t ∈ front, t.IsNumber)
      (hbad : bad.NoNumber e) : FirstDefect ⟨token :: operands⟩ (.operand e)

variable {token : Bits} {operands : List Bits}

/-- The first token names the operation whose number it is. -/
theorem opcode_cons_eq_ok_iff {op : Opcode} :
    opcode ⟨token :: operands⟩ = .ok op ↔ token.HasNumber op.value := by
  rw [opcode_eq_ok_iff]
  simp only [first?, List.head?_cons, Option.some.injEq, exists_eq_left', Bits.unsigned_eq_ok_iff]
  rfl

/-- The first token names no operation if it is no number, or the number of none. -/
theorem opcode_cons_eq_error_iff {e : DecodeError} :
    opcode ⟨token :: operands⟩ = .error e ↔
      (∃ cause, token.NoNumber cause ∧ .operand cause = e) ∨
        ∃ value, token.HasNumber value ∧ value ∉ [0, 1, 2, 3, 4, 5, 15] ∧
          .invalidOpcode value = e := by
  simp only [opcode, first?, List.head?_cons, bind_eq_error, mapError_eq_error, mapError_eq_ok,
    Bits.unsigned_eq_error_iff, Bits.unsigned_eq_ok_iff, ← Opcode.exists_value_iff]
  -- Both sides have the same value; what is left is that no operation has it.
  refine or_congr_right (exists_congr fun value => and_congr_right fun _ => ?_)
  cases hop : Opcode.ofValue? value with
  | none =>
    have hunknown := Opcode.ofValue?_eq_none_iff.mp hop
    simp [hunknown]
  | some op =>
    obtain rfl := Opcode.ofValue?_eq_some_iff.mp hop
    simp [pure, Except.pure]

end Word

namespace Instruction

/-- **A word is refused for its first defect.** -/
theorem decode_eq_error_iff {w : Word} {e : DecodeError} :
    decode w = .error e ↔ w.FirstDefect e := by
  obtain ⟨tokens⟩ := w
  cases tokens with
  | nil =>
    constructor
    · intro h
      cases h
      exact .empty
    · intro h
      cases h
      rfl
  | cons token operands =>
    rw [decode, bind_eq_error]
    constructor
    · -- Either the first token names no operation, or the operands do not fit the one it names.
      rintro (hop | ⟨op, hop, hoperands⟩)
      · rcases Word.opcode_cons_eq_error_iff.mp hop with
          ⟨cause, htoken, rfl⟩ | ⟨value, htoken, hunknown, rfl⟩
        · exact .opcode htoken
        · exact .unknown htoken hunknown
      · have htoken := Word.opcode_cons_eq_ok_iff.mp hop
        by_cases harity : operands.length ∈ op.arity
        · obtain ⟨front, bad, rear, cause, hsplit, hfront, hbad, rfl⟩ :=
            mapM_field_eq_error_iff.mp ((ofOperands_eq_error_iff harity).mp hoperands)
          exact .operand htoken harity hsplit
            (fun t ht => Bits.exists_unsigned_iff.mp (hfront t ht))
            (Bits.unsigned_eq_error_iff.mp hbad)
        · cases (ofOperands_of_not_mem_arity harity).symm.trans hoperands
          exact .arity htoken harity
    · intro h
      cases h with
      | opcode htoken => exact .inl (Word.opcode_cons_eq_error_iff.mpr (.inl ⟨_, htoken, rfl⟩))
      | unknown htoken hunknown =>
        exact .inl (Word.opcode_cons_eq_error_iff.mpr (.inr ⟨_, htoken, hunknown, rfl⟩))
      | arity htoken harity =>
        exact .inr ⟨_, Word.opcode_cons_eq_ok_iff.mpr htoken, ofOperands_of_not_mem_arity harity⟩
      | operand htoken harity hsplit hfront hbad =>
        refine .inr ⟨_, Word.opcode_cons_eq_ok_iff.mpr htoken, ?_⟩
        refine (ofOperands_eq_error_iff harity).mpr (mapM_field_eq_error_iff.mpr ?_)
        exact ⟨_, _, _, _, hsplit, fun t ht => Bits.exists_unsigned_iff.mpr (hfront t ht),
          Bits.unsigned_eq_error_iff.mpr hbad, rfl⟩

/-- The operands of an instruction are as many as its operation takes, and those that are read as
    numbers are numbers. -/
theorem Reads.isNumber {operands : List Bits} {i : Instruction} (h : Reads operands i) :
    operands.length ∈ i.opcode.arity ∧ ∀ token ∈ i.opcode.numbers operands, token.IsNumber := by
  simp only [← Bits.exists_unsigned_iff]
  cases h <;> simp_all [opcode, Opcode.arity, Opcode.numbers]

/-- What a word decodes to: an instruction of its operation, with its operands. -/
theorem decode_eq_ok_iff_isInstruction {w : Word} {i : Instruction} :
    decode w = .ok i ↔ w.IsInstruction i.opcode ∧ Reads w.operands i := by
  rw [decode_eq_ok_iff]
  simp only [Bits.unsigned_eq_ok_iff]
  constructor
  · rintro ⟨token, hfirst, htoken, hreads⟩
    obtain ⟨harity, hnumbers⟩ := hreads.isNumber
    exact ⟨⟨⟨token, hfirst, htoken⟩, harity, hnumbers⟩, hreads⟩
  · -- How the operands are read says more than that they can be.
    rintro ⟨⟨⟨token, hfirst, htoken⟩, -, -⟩, hreads⟩
    exact ⟨token, hfirst, htoken, hreads⟩

/-- Every instruction word decodes. -/
theorem exists_decode_of_isInstruction {w : Word} {op : Opcode} (h : w.IsInstruction op) :
    ∃ i, decode w = .ok i := by
  obtain ⟨⟨token, hfirst, htoken⟩, harity, hnumbers⟩ := h
  have hop : w.opcode = .ok op :=
    Word.opcode_eq_ok_iff.mpr ⟨token, hfirst, Bits.unsigned_eq_ok_iff.mpr htoken⟩
  cases hoperands : ofOperands op w.operands with
  | ok i => exact ⟨i, bind_eq_ok.mpr ⟨op, hop, hoperands⟩⟩
  | error e =>
    -- The operand that would be at fault is a number.
    obtain ⟨front, bad, rear, cause, hsplit, -, hbad, -⟩ :=
      mapM_field_eq_error_iff.mp ((ofOperands_eq_error_iff harity).mp hoperands)
    obtain ⟨v, hv⟩ := Bits.exists_unsigned_iff.mpr (hnumbers bad (by simp [hsplit]))
    cases hv.symm.trans hbad

/-- **Decoding is exact.** The words that decode are the instruction words, each of them to an
    instruction of its operation with its operands: the numbers that are read, and the last operand
    of a MOV of a value as it stands, whatever the operand before it is. Every other word is refused
    for its first defect. The operations have the numbers 0 to 5 and 15. -/
theorem decode_exact (w : Word) :
    ((∃ i, decode w = .ok i) ↔ ∃ op, w.IsInstruction op) ∧
    (∀ i, decode w = .ok i ↔ w.IsInstruction i.opcode ∧ Reads w.operands i) ∧
    (∀ e, decode w = .error e ↔ w.FirstDefect e) ∧
    ∀ n, (∃ op : Opcode, op.value = n) ↔ n ∈ [0, 1, 2, 3, 4, 5, 15] := by
  refine ⟨⟨?_, ?_⟩, fun _ => decode_eq_ok_iff_isInstruction, fun _ => decode_eq_error_iff,
    fun _ => Opcode.exists_value_iff⟩
  · rintro ⟨i, hi⟩
    exact ⟨i.opcode, (decode_eq_ok_iff_isInstruction.mp hi).1⟩
  · rintro ⟨op, hop⟩
    exact exists_decode_of_isInstruction hop

/-- An ADD of a marked and of a large operand: that there are only two comes first. -/
example :
    let marked : Bits := ⟨true, [true], List.cons_ne_nil _ _⟩
    let large : Bits := ⟨false, List.replicate 65 true, by decide⟩
    let one : Bits := ⟨false, [false, true], List.cons_ne_nil _ _⟩
    decode ⟨[one, marked, large]⟩ = .error (.arityMismatch (.arith .add) 2) ∧
      decode ⟨[one, one, large, marked]⟩ = .error (.operand (.overflow large.text)) := by
  decide +kernel

end Instruction

end BitMachine
