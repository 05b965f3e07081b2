import BitMachine.Proofs.DigitValue
import BitMachine.Proofs.Results
import BitMachine.Source.Assembly
import Mathlib.Data.List.Basic

namespace BitMachine

/-!
# Encoded instructions

What the words of instructions and of source items decode to, and which words do not decode:

* `Opcode.ofValue?_eq_some_iff` — the table of opcodes is a bijection with its numbers;
* `Instruction.Reads` and `Instruction.decode_eq_ok_iff` — what decodes to an instruction, by the
  shapes of operand rows;
* `Instruction.decode_encode` — an encoded instruction is decoded again, at every width;
* `Instruction.ofOperands_eq_error_iff` — operands of the right number are refused at the first one
  that should be a number and is none;
* `Word.Undecodable` and `Word.undecodable_of_decode` — what a decode error says about its word;
* `Source.Item.decode_word` — the instruction of the word of an item that is no data, and
  `Source.Item.first_word`, its first token.
-/

/-! ### Opcodes -/

namespace Opcode

@[simp] theorem ofValue?_value (op : Opcode) : ofValue? op.value = some op := by
  cases op with
  | arith op => cases op <;> rfl
  | _ => rfl

/-- A number names the operation whose number it is. -/
theorem ofValue?_eq_some_iff {n : UInt64} {op : Opcode} : ofValue? n = some op ↔ op.value = n := by
  constructor
  · intro h
    simpa using List.find?_some h
  · rintro rfl
    exact ofValue?_value op

/-- A number that names no operation is none of the seven numbers. -/
theorem ofValue?_eq_none_iff {n : UInt64} : ofValue? n = none ↔ ∀ op : Opcode, op.value ≠ n := by
  constructor
  · rintro h op rfl
    simp at h
  · intro h
    cases hn : ofValue? n with
    | none => rfl
    | some op => exact absurd (ofValue?_eq_some_iff.mp hn) (h op)

end Opcode

/-! ### Words that decode -/

/-- The number in the first token names the operation. -/
theorem Word.opcode_eq_ok_iff {w : Word} {op : Opcode} :
    w.opcode = .ok op ↔ ∃ token, w.first? = some token ∧ token.unsigned = .ok op.value := by
  unfold Word.opcode
  cases w.first? with
  | none => simp
  | some token =>
    simp only [bind_eq_ok, mapError_eq_ok, Option.some.injEq, exists_eq_left']
    constructor
    · rintro ⟨value, hvalue, hop⟩
      cases hfound : Opcode.ofValue? value with
      | none => simp [hfound] at hop
      | some found =>
        simp only [hfound, pure, Except.pure, Except.ok.injEq] at hop
        rw [hvalue, ← hop, Opcode.ofValue?_eq_some_iff.mp hfound]
    · intro hvalue
      refine ⟨_, hvalue, ?_⟩
      rw [Opcode.ofValue?_value]
      rfl

namespace Instruction

/-- **The operands of an instruction**: tokens with the numbers that they stand for. In a MOV of a
    value the token before the value may be any. -/
inductive Reads : List Bits → Instruction → Prop
  /-- A destination, a token that is not looked at, and a value. -/
  | movValue {first ignored value : Bits} {dst : UInt64} (hdst : first.unsigned = .ok dst) :
      Reads [first, ignored, value] (.mov dst (.immediate value))
  /-- A destination and a slot. -/
  | movAddress {first second : Bits} {dst slot : UInt64} (hdst : first.unsigned = .ok dst)
      (hslot : second.unsigned = .ok slot) : Reads [first, second] (.mov dst (.address ⟨slot⟩))
  /-- Two sources and a destination. -/
  | arith {first second third : Bits} {op : ArithOp} {lhs rhs dst : UInt64}
      (hlhs : first.unsigned = .ok lhs) (hrhs : second.unsigned = .ok rhs)
      (hdst : third.unsigned = .ok dst) : Reads [first, second, third] (.arith op lhs rhs dst)
  /-- A source. -/
  | out {first : Bits} {src : UInt64} (hsrc : first.unsigned = .ok src) : Reads [first] (.out src)
  /-- A code. -/
  | exit {first : Bits} {code : UInt64} (hcode : first.unsigned = .ok code) :
      Reads [first] (.exit code)

/-- A sequence that starts with a number succeeds if the number is read and the rest succeeds. -/
theorem field_bind_eq_ok {α : Type} {token : Bits} {f : UInt64 → Except DecodeError α} {a : α} :
    (field token >>= f) = .ok a ↔ ∃ value, token.unsigned = .ok value ∧ f value = .ok a := by
  rw [bind_eq_ok]
  simp only [field, mapError_eq_ok]

/-- What the operands of an operation are read as. The cases follow the shapes of operand rows. -/
theorem ofOperands_eq_ok_iff {op : Opcode} {operands : List Bits} {i : Instruction} :
    ofOperands op operands = .ok i ↔ i.opcode = op ∧ Reads operands i := by
  constructor
  · intro h
    unfold ofOperands at h
    split at h
    · obtain ⟨dst, hdst, hrest⟩ := field_bind_eq_ok.mp h
      obtain ⟨slot, hslot, hi⟩ := field_bind_eq_ok.mp hrest
      cases hi
      exact ⟨rfl, .movAddress hdst hslot⟩
    · obtain ⟨dst, hdst, hi⟩ := field_bind_eq_ok.mp h
      cases hi
      exact ⟨rfl, .movValue hdst⟩
    · obtain ⟨lhs, hlhs, hrest⟩ := field_bind_eq_ok.mp h
      obtain ⟨rhs, hrhs, hlast⟩ := field_bind_eq_ok.mp hrest
      obtain ⟨dst, hdst, hi⟩ := field_bind_eq_ok.mp hlast
      cases hi
      exact ⟨rfl, .arith hlhs hrhs hdst⟩
    · obtain ⟨src, hsrc, hi⟩ := field_bind_eq_ok.mp h
      cases hi
      exact ⟨rfl, .out hsrc⟩
    · obtain ⟨code, hcode, hi⟩ := field_bind_eq_ok.mp h
      cases hi
      exact ⟨rfl, .exit hcode⟩
    · cases h
  · rintro ⟨rfl, h⟩
    cases h with
    | movValue hdst => exact field_bind_eq_ok.mpr ⟨_, hdst, rfl⟩
    | movAddress hdst hslot =>
      exact field_bind_eq_ok.mpr ⟨_, hdst, field_bind_eq_ok.mpr ⟨_, hslot, rfl⟩⟩
    | arith hlhs hrhs hdst =>
      exact field_bind_eq_ok.mpr ⟨_, hlhs, field_bind_eq_ok.mpr ⟨_, hrhs,
        field_bind_eq_ok.mpr ⟨_, hdst, rfl⟩⟩⟩
    | out hsrc => exact field_bind_eq_ok.mpr ⟨_, hsrc, rfl⟩
    | exit hcode => exact field_bind_eq_ok.mpr ⟨_, hcode, rfl⟩

/-- **What decodes to an instruction**: the number of its operation, and its operands. -/
theorem decode_eq_ok_iff {w : Word} {i : Instruction} :
    decode w = .ok i ↔
      ∃ token, w.first? = some token ∧ token.unsigned = .ok i.opcode.value ∧
        Reads w.operands i := by
  unfold decode
  simp only [bind_eq_ok, ofOperands_eq_ok_iff, Word.opcode_eq_ok_iff]
  constructor
  · rintro ⟨op, ⟨token, hfirst, htoken⟩, rfl, hreads⟩
    exact ⟨token, hfirst, htoken, hreads⟩
  · rintro ⟨token, hfirst, htoken, hreads⟩
    exact ⟨i.opcode, ⟨token, hfirst, htoken⟩, rfl, hreads⟩

/-- The operands of an encoded instruction. -/
theorem reads_encode (i : Instruction) (width : Nat) : Reads (i.encode width).operands i := by
  cases i with
  | mov dst src =>
    cases src with
    | immediate value => exact .movValue (unsigned_encodeUnsigned dst width)
    | address addr =>
      exact .movAddress (unsigned_encodeUnsigned dst width)
        (unsigned_encodeUnsigned addr.slot width)
  | arith op lhs rhs dst =>
    exact .arith (unsigned_encodeUnsigned lhs width) (unsigned_encodeUnsigned rhs width)
      (unsigned_encodeUnsigned dst width)
  | out src => exact .out (unsigned_encodeUnsigned src width)
  | exit code => exact .exit (unsigned_encodeUnsigned code width)

/-- **Encoding is lossless**, whatever the width that the numbers are padded to. -/
theorem decode_encode (i : Instruction) (width : Nat) : decode (i.encode width) = .ok i :=
  decode_eq_ok_iff.mpr
    ⟨_, rfl, unsigned_encodeUnsigned i.opcode.value width, i.reads_encode width⟩

/-- An encoded instruction has an opcode and operands. -/
theorem two_le_size_encode (i : Instruction) (width : Nat) : 2 ≤ (i.encode width).size := by
  cases i with
  | mov dst src => cases src <;> simp [encode, Word.size]
  | _ => simp [encode, Word.size]

end Instruction

/-! ### Words that do not decode -/

/-- The operands that are read as numbers. A MOV of a value reads its destination only. -/
def Opcode.numbers : Opcode → List Bits → List Bits
  | .mov, [dst, _, _] => [dst]
  | _, operands => operands

/-- What is read as a number is an operand. -/
theorem Opcode.mem_of_mem_numbers {op : Opcode} {operands : List Bits} {token : Bits}
    (h : token ∈ op.numbers operands) : token ∈ operands := by
  unfold numbers at h
  split at h
  · rw [List.mem_singleton.mp h]
    exact List.mem_cons_self
  · exact h

namespace Word

/-- What is wrong with a word that does not decode. -/
inductive Undecodable (w : Word) : DecodeError → Prop
  /-- It has no tokens. -/
  | emptyWord (hempty : w.first? = none) : Undecodable w .emptyWord
  /-- Its first token is no number. -/
  | opcode {token : Bits} {e : LiteralError} (hfirst : w.first? = some token)
      (htoken : token.unsigned = .error e) : Undecodable w (.operand e)
  /-- The number in its first token is that of no operation. -/
  | unknown {token : Bits} {value : UInt64} (hfirst : w.first? = some token)
      (htoken : token.unsigned = .ok value) (hunknown : ∀ op : Opcode, op.value ≠ value) :
      Undecodable w (.invalidOpcode value)
  /-- It has too many or too few operands. -/
  | arity {op : Opcode} (hop : w.opcode = .ok op) (harity : w.operands.length ∉ op.arity) :
      Undecodable w (.arityMismatch op w.operands.length)
  /-- An operand that is read as a number is none. -/
  | operand {op : Opcode} {token : Bits} {e : LiteralError} (hop : w.opcode = .ok op)
      (harity : w.operands.length ∈ op.arity) (htoken : token ∈ op.numbers w.operands)
      (he : token.unsigned = .error e) : Undecodable w (.operand e)

theorem undecodable_of_opcode {w : Word} {e : DecodeError} (h : w.opcode = .error e) :
    w.Undecodable e := by
  unfold opcode at h
  cases hfirst : w.first? with
  | none =>
    rw [hfirst] at h
    cases h
    exact .emptyWord hfirst
  | some token =>
    rw [hfirst] at h
    simp only [bind_eq_error, mapError_eq_error, mapError_eq_ok] at h
    rcases h with ⟨cause, htoken, rfl⟩ | ⟨value, htoken, hvalue⟩
    · exact .opcode hfirst htoken
    · cases hop : Opcode.ofValue? value with
      | some op => simp [hop, pure, Except.pure] at hvalue
      | none =>
        simp only [hop, Except.error.injEq] at hvalue
        subst hvalue
        exact .unknown hfirst htoken (Opcode.ofValue?_eq_none_iff.mp hop)

end Word

namespace Instruction

/-- Operands of the wrong number are refused before any of them is read. -/
theorem ofOperands_of_not_mem_arity {op : Opcode} {operands : List Bits}
    (h : operands.length ∉ op.arity) :
    ofOperands op operands = .error (.arityMismatch op operands.length) := by
  unfold ofOperands
  -- In every case but the last, the operands have a length that the operation takes.
  split
  · exact absurd List.mem_cons_self h
  · exact absurd (List.mem_cons_of_mem _ List.mem_cons_self) h
  · exact absurd List.mem_cons_self h
  · exact absurd List.mem_cons_self h
  · exact absurd List.mem_cons_self h
  · rfl

/-- **Operands of the right number** are refused where one after the other is read as a number. -/
theorem ofOperands_eq_error_iff {op : Opcode} {operands : List Bits} {e : DecodeError}
    (h : operands.length ∈ op.arity) :
    ofOperands op operands = .error e ↔ (op.numbers operands).mapM field = .error e := by
  cases op with
  | mov =>
    simp only [Opcode.arity, List.mem_cons, List.not_mem_nil, or_false] at h
    rcases h with hlen | hlen
    · obtain ⟨dst, addr, rfl⟩ := List.length_eq_two.mp hlen
      simp [ofOperands, Opcode.numbers, bind_eq_error, pure, Except.pure]
    · obtain ⟨dst, ignored, value, rfl⟩ := List.length_eq_three.mp hlen
      simp [ofOperands, Opcode.numbers, bind_eq_error, pure, Except.pure]
  | arith op =>
    obtain ⟨lhs, rhs, dst, rfl⟩ := List.length_eq_three.mp (List.mem_singleton.mp h)
    simp [ofOperands, Opcode.numbers, bind_eq_error, pure, Except.pure]
  | out =>
    obtain ⟨src, rfl⟩ := List.length_eq_one_iff.mp (List.mem_singleton.mp h)
    simp [ofOperands, Opcode.numbers, bind_eq_error, pure, Except.pure]
  | exit =>
    obtain ⟨code, rfl⟩ := List.length_eq_one_iff.mp (List.mem_singleton.mp h)
    simp [ofOperands, Opcode.numbers, bind_eq_error, pure, Except.pure]

/-- The first operand that should be a number and is none. -/
theorem mapM_field_eq_error_iff {tokens : List Bits} {e : DecodeError} :
    tokens.mapM field = .error e ↔
      ∃ front token rear cause, tokens = front ++ token :: rear ∧
        (∀ t ∈ front, ∃ v, t.unsigned = .ok v) ∧ token.unsigned = .error cause ∧
        .operand cause = e := by
  rw [mapM_eq_error]
  simp only [field, mapError_eq_ok, mapError_eq_error, exists_and_left]

end Instruction

/-- **A decode error is about its word.** -/
theorem Word.undecodable_of_decode {w : Word} {e : DecodeError}
    (h : Instruction.decode w = .error e) : w.Undecodable e := by
  unfold Instruction.decode at h
  rw [bind_eq_error] at h
  rcases h with hop | ⟨op, hop, hoperands⟩
  · exact undecodable_of_opcode hop
  · by_cases harity : w.operands.length ∈ op.arity
    · rw [Instruction.ofOperands_eq_error_iff harity, Instruction.mapM_field_eq_error_iff] at hoperands
      obtain ⟨front, token, rear, cause, hsplit, -, hcause, rfl⟩ := hoperands
      exact .operand hop harity (by simp [hsplit]) hcause
    · rw [Instruction.ofOperands_of_not_mem_arity harity] at hoperands
      cases hoperands
      exact .arity hop harity

/-! ### Items of a source text -/

namespace Source

namespace Item

/-- The instruction that an item stands for at a width; data is none. -/
def instruction? (width : Nat) : Item → Option Instruction
  | .data _ => none
  | .loadValue dst value => some (.mov dst (.immediate (encodeUnsigned value width)))
  | .loadFrom dst slot => some (.mov dst (.address ⟨slot⟩))
  | .arith op lhs rhs dst => some (.arith op lhs rhs dst)
  | .out src => some (.out src)
  | .exit code => some (.exit code)

/-- The number that the first token of an item stands for: the data, or the opcode. -/
def head : Item → UInt64
  | .data value => value
  | .loadValue .. => Opcode.value .mov
  | .loadFrom .. => Opcode.value .mov
  | .arith op .. => Opcode.value (.arith op)
  | .out _ => Opcode.value .out
  | .exit _ => Opcode.value .exit

theorem word_eq_encode {width : Nat} {item : Item} {i : Instruction}
    (h : item.instruction? width = some i) : item.word width = i.encode width := by
  cases item <;> cases h <;> rfl

/-- **Assembled lines are decoded again.** -/
theorem decode_word {width : Nat} {item : Item} {i : Instruction}
    (h : item.instruction? width = some i) : Instruction.decode (item.word width) = .ok i := by
  rw [word_eq_encode h]
  exact i.decode_encode width

/-- The first token of an item, with its number. -/
theorem first_word (width : Nat) (item : Item) :
    (item.word width).first? = some (encodeUnsigned item.head width) := by
  cases item <;> rfl

theorem two_le_size_word {width : Nat} {item : Item} {i : Instruction}
    (h : item.instruction? width = some i) : 2 ≤ (item.word width).size := by
  rw [word_eq_encode h]
  exact i.two_le_size_encode width

/-- Every item is a word with tokens. -/
theorem isEmpty_word (width : Nat) (item : Item) : (item.word width).isEmpty = false := by
  cases item <;> rfl

end Item

/-- The words of a program stand where its items stand. -/
theorem map_fst_programOf (items : List (Address × Item)) (width : Nat) :
    (programOf items width).words.map Prod.fst = items.map Prod.fst := by
  unfold programOf
  rw [List.map_map]
  rfl

/-- **No assembled word is empty.** -/
theorem isEmpty_of_mem_assemble {source : String} {width : Nat} {p : Program}
    (h : assemble source width = .ok p) : ∀ row ∈ p.words, row.2.isEmpty = false := by
  obtain ⟨items, -, hp⟩ := bind_eq_ok.mp h
  cases hp
  intro row hrow
  obtain ⟨entry, -, rfl⟩ := List.mem_map.mp hrow
  exact entry.2.isEmpty_word width

end Source

end BitMachine
