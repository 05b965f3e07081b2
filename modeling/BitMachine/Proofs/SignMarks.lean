import BitMachine.Proofs.Framing
import BitMachine.Proofs.MemoryMap

namespace BitMachine

/-!
# Where sign marks come from

A sign mark in a register is the work of a SUB, or of a MOV that has found it in memory. The words
of a source text are rows of numbers without sign marks, so that in the run of such a program it is
the work of a SUB:

* `Word.OfNumbers` — a word of numbers, and `Source.ofNumbers_of_mem_assemble`: every assembled
  word is one;
* `Machine.LastWrite` — the instruction that was the last one to write a register;
* `Machine.LeftBySub`, `Machine.LeftByMove` — a negative difference that a SUB has left in a
  register, and a token that a MOV has left there;
* `Machine.TracedMarks` — the invariant of the registers in any run, with
  `Machine.TracedMarks.succ` for a step and `Machine.tracedMarks` for a run;
* `Machine.OnlySubMarks` — what is left of it where memory holds words of numbers;
* `Machine.ReadingFault` — the misread bit-strings that can stop such a run;
* `Machine.signMarks_assembled` — **sign marks come from SUB only**.
-/

/-! ### Words of numbers -/

/-- **A word of numbers**: it has tokens, and each of them is a number below 2^64 without a sign
    mark. -/
structure Word.OfNumbers (w : Word) : Prop where
  /-- There is a token. -/
  isEmpty : w.isEmpty = false
  /-- Every token is a number. -/
  unsigned : ∀ token ∈ w.tokens, ∃ v, token.unsigned = .ok v

namespace Word.OfNumbers

variable {w : Word}

theorem negative_eq_false (h : w.OfNumbers) {token : Bits} (hmem : token ∈ w.tokens) :
    token.negative = false := by
  obtain ⟨v, hv⟩ := h.unsigned token hmem
  exact (Bits.unsigned_eq_ok_iff.mp hv).1

theorem first_ne_none (h : w.OfNumbers) : w.first? ≠ none := by
  intro hnone
  have hempty := h.isEmpty
  rw [Word.isEmpty, List.head?_eq_none_iff.mp hnone] at hempty
  cases hempty

/-- **Decoding a word of numbers** may fail because no operation has the number of the opcode, or
    because of the number of operands. It never fails because a token is malformed. -/
theorem ofDecodeError_ne_literal (h : w.OfNumbers) {e : DecodeError}
    (he : Instruction.decode w = .error e) (cycle cycle' : UInt64) (cause : LiteralError) :
    Fault.ofDecodeError cycle e ≠ .literal cycle' cause := by
  cases Word.undecodable_of_decode he with
  | emptyWord hempty => exact absurd hempty h.first_ne_none
  | opcode hfirst htoken =>
    obtain ⟨v, hv⟩ := h.unsigned _ (List.mem_of_head? hfirst)
    cases htoken.symm.trans hv
  | unknown | arity => exact Fault.noConfusion
  | operand _ _ htoken hcause =>
    have hmem := List.mem_of_mem_tail (Opcode.mem_of_mem_numbers htoken)
    obtain ⟨v, hv⟩ := h.unsigned _ hmem
    cases hcause.symm.trans hv

end Word.OfNumbers

/-- The value in a MOV is a token of its word. -/
theorem Instruction.mem_tokens_of_decode {w : Word} {dst : UInt64} {value : Bits}
    (h : decode w = .ok (.mov dst (.immediate value))) : value ∈ w.tokens := by
  obtain ⟨-, -, -, hreads⟩ := decode_eq_ok_iff.mp h
  apply List.mem_of_mem_tail
  show value ∈ w.operands
  -- Of the shapes of operand rows, one makes such a MOV.
  generalize w.operands = operands at hreads ⊢
  cases hreads with
  | movValue => simp

namespace Source

/-- The tokens of an item are encoded numbers. -/
theorem Item.exists_tokens_word (width : Nat) (item : Item) :
    ∃ numbers : List UInt64, (item.word width).tokens = numbers.map (encodeUnsigned · width) := by
  cases item with
  | data value => exact ⟨[value], rfl⟩
  | loadValue dst value => exact ⟨[Opcode.value .mov, dst, 0, value], rfl⟩
  | loadFrom dst slot => exact ⟨[Opcode.value .mov, dst, slot], rfl⟩
  | arith op lhs rhs dst => exact ⟨[Opcode.value (.arith op), lhs, rhs, dst], rfl⟩
  | out src => exact ⟨[Opcode.value .out, src], rfl⟩
  | exit code => exact ⟨[Opcode.value .exit, code], rfl⟩

/-- **Assembled words are words of numbers.** -/
theorem ofNumbers_of_mem_assemble {source : String} {width : Nat} {p : Program}
    (h : assemble source width = .ok p) : ∀ row ∈ p.words, row.2.OfNumbers := by
  intro row hrow
  refine ⟨isEmpty_of_mem_assemble h row hrow, ?_⟩
  obtain ⟨items, -, hp⟩ := bind_eq_ok.mp h
  cases hp
  obtain ⟨⟨addr, item⟩, -, rfl⟩ := List.mem_map.mp hrow
  obtain ⟨numbers, hnumbers⟩ := item.exists_tokens_word width
  intro token htoken
  rw [hnumbers] at htoken
  obtain ⟨v, -, rfl⟩ := List.mem_map.mp htoken
  exact ⟨v, unsigned_encodeUnsigned v width⟩

end Source

namespace Machine

variable {m m' : Machine} {i : Instruction} {r : UInt64} {b : Bits} {j k : Nat}

/-! ### Machines that hold numbers -/

/-- Every word in memory is a word of numbers. -/
def HoldsNumbers (m : Machine) : Prop :=
  ∀ addr w, m.memory.cells.get? addr = some w → w.OfNumbers

theorem HoldsNumbers.after (h : m.HoldsNumbers) (k : Nat) : (m.after k).HoldsNumbers := by
  unfold HoldsNumbers
  rw [(m.keeps_after k).memory]
  exact h

theorem HoldsNumbers.holdsWords (h : m.HoldsNumbers) : m.HoldsWords := by
  rintro ⟨addr, w⟩ hmem
  exact (h addr w (Cells.mem_entries_iff.mp hmem)).isEmpty

/-! ### Writes -/

/-- **The last write to a register** in the first `k` steps: the step after `j` of them executes an
    instruction that writes the register, and none of the steps after that one does. -/
structure LastWrite (m : Machine) (k : Nat) (r : UInt64) (j : Nat) (i : Instruction) : Prop where
  /-- The step is one of them. -/
  lt : j < k
  /-- It executes the instruction. -/
  executed : (m.after j).step.2 = .ok (some i)
  /-- The instruction writes the register. -/
  writes : i.destination? = some r
  /-- Later instructions do not. -/
  kept : ∀ l, j < l → l < k → ∀ i', (m.after l).step.2 = .ok (some i') → i'.destination? ≠ some r

/-- A step that does not write the register. -/
theorem LastWrite.succ (h : m.LastWrite k r j i)
    (hkept : ∀ i', (m.after k).step.2 = .ok (some i') → i'.destination? ≠ some r) :
    m.LastWrite (k + 1) r j i := by
  refine ⟨Nat.lt_succ_of_lt h.lt, h.executed, h.writes, ?_⟩
  intro l hjl hlk
  rcases Nat.lt_succ_iff_lt_or_eq.mp hlk with hlt | rfl
  · exact h.kept l hjl hlt
  · exact hkept

/-- A step that does. -/
theorem lastWrite_succ (hexecuted : (m.after k).step.2 = .ok (some i))
    (hwrites : i.destination? = some r) : m.LastWrite (k + 1) r k i := by
  refine ⟨Nat.lt_succ_self k, hexecuted, hwrites, ?_⟩
  intro l hkl hlk
  omega

/-- A register that a step does not write holds what it held. -/
theorem Executed.held_eq (h : m.Executed i m') (hr : i.destination? ≠ some r) :
    m'.registers.held r = m.registers.held r := by
  have hslot : m'.registers.slots[r.toNat]? = m.registers.slots[r.toNat]? := by
    apply h.registers
    intro dst hdst heq
    obtain rfl : dst = r := UInt64.toNat_inj.mp heq
    exact hr hdst
  unfold Registers.held
  rw [hslot]

/-- **What a step does to a register**: it leaves it alone and executes no instruction that writes
    it, or it executes one that does. -/
theorem step_register_cases (m : Machine) (r : UInt64) :
    (m.step.1.registers.held r = m.registers.held r ∧
        ∀ i, m.step.2 = .ok (some i) → i.destination? ≠ some r) ∨
      ∃ i m', m.advance.Decodes i ∧ m.advance.Effect i m' ∧ i.destination? = some r ∧
        m.step = ({ m' with lastInstruction := some i }, .ok (some i)) := by
  by_cases hgo : m.GoesOn
  · rcases step_cases hgo with ⟨f, -, hstep⟩ | ⟨m', executed, hcycle, hstep⟩
    · left
      rw [hstep]
      exact ⟨rfl, nofun⟩
    · cases hcycle with
      | data =>
        left
        rw [hstep]
        exact ⟨rfl, nofun⟩
      | @executed w i m' hslot hlong hdecode heffect =>
        by_cases hr : i.destination? = some r
        · exact .inr ⟨i, m', ⟨w, ⟨hslot, hlong⟩, hdecode⟩, heffect, hr, hstep⟩
        · left
          rw [hstep]
          refine ⟨heffect.executed.held_eq hr, ?_⟩
          intro i' hi'
          cases hi'
          exact hr
  · left
    rw [step_of_not_goesOn hgo]
    exact ⟨rfl, nofun⟩

theorem held_write {dst : UInt64} (hdst : dst.toNat < m.registers.count) (value : Bits) :
    (m.write dst value).registers.held dst = some value := by
  show (m.registers.slots.set dst.toNat (some value))[dst.toNat]?.join = some value
  rw [List.getElem?_set_self hdst]
  rfl

/-! ### Negative differences -/

/-- An operation reads bit-strings without sign marks. -/
theorem negative_of_operand {op : ArithOp} {x : Nat} (h : op.operand b = .ok x) :
    b.negative = false ∧ b.magnitude = x := by
  unfold ArithOp.operand at h
  split at h
  · cases h
  next hneg =>
    split at h
    · cases h
    · cases h
      exact ⟨by simpa using hneg, rfl⟩

/-- Of the four operations only SUB has negative results. -/
theorem eq_sub_of_combine_neg {op : ArithOp} {cycle : UInt64} {x y : Nat} {v : Int}
    (h : op.combine cycle x y = .ok v) (hneg : v < 0) :
    op = .sub ∧ x < y ∧ v = (x : Int) - y := by
  cases op with
  | sub =>
    cases h
    refine ⟨rfl, ?_, rfl⟩
    omega
  | add =>
    cases h
    omega
  | mul =>
    rw [ArithOp.combine] at h
    split at h
    · cases h
      omega
    · cases h
  | div =>
    rw [ArithOp.combine] at h
    split at h
    · cases h
    · cases h
      exact absurd hneg (Int.not_lt.mpr (Int.natCast_nonneg _))

/-- **What a SUB has left in a register**, the last one that wrote it: the difference of two numbers
    of which the first one was smaller. -/
inductive LeftBySub (m : Machine) (k : Nat) (r : UInt64) : Bits → Prop
  /-- The difference was written after `j` steps, and not overwritten since. -/
  | intro {j : Nat} {lhs rhs : UInt64} {x y : Bits}
      (last : m.LastWrite k r j (.arith .sub lhs rhs r))
      (hx : (m.after j).registers.held lhs = some x) (hxn : x.negative = false)
      (hy : (m.after j).registers.held rhs = some y) (hyn : y.negative = false)
      (hlt : x.magnitude < y.magnitude) :
      LeftBySub m k r (Bits.ofInt (x.magnitude - y.magnitude))

/-- A step that does not write the register leaves the difference where it is. -/
theorem LeftBySub.succ (h : m.LeftBySub k r b)
    (hkept : ∀ i', (m.after k).step.2 = .ok (some i') → i'.destination? ≠ some r) :
    m.LeftBySub (k + 1) r b := by
  cases h with
  | intro last hx hxn hy hyn hlt => exact .intro (last.succ hkept) hx hxn hy hyn hlt

/-- **Neither a minus zero nor zeros in front.** After the sign mark comes a one. -/
theorem LeftBySub.isPrefix (h : m.LeftBySub k r b) : ['-', '1'] <+: b.text.toList := by
  cases h with
  | @intro j lhs rhs x y last hx hxn hy hyn hlt =>
    have hneg : (x.magnitude : Int) - y.magnitude < 0 := by omega
    obtain ⟨rest, hrest⟩ :=
      binaryDigits_eq_true_cons (n := ((x.magnitude : Int) - y.magnitude).natAbs) (by omega)
    refine ⟨rest.map digitChar, ?_⟩
    simp [Bits.text, Bits.chars, Bits.digitChars, Bits.ofInt, hneg, hrest, signMark, digitChar]

/-! ### Moved tokens -/

/-- **What a MOV has left in a register**, the last instruction that wrote it: a token of a word in
    memory. -/
inductive LeftByMove (m : Machine) (k : Nat) (r : UInt64) : Bits → Prop
  /-- The value is a token of the word of the MOV. -/
  | value {j : Nat} {b : Bits} {w : Word} (last : m.LastWrite k r j (.mov r (.immediate b)))
      (hw : m.memory.cells.get? (m.after j).nextAddress = some w) (hmem : b ∈ w.tokens) :
      LeftByMove m k r b
  /-- The value is the first token of the word at the address of the MOV. -/
  | token {j : Nat} {b : Bits} {addr : Address} {w : Word}
      (last : m.LastWrite k r j (.mov r (.address addr)))
      (hw : m.memory.cells.get? addr = some w) (hfirst : w.first? = some b) : LeftByMove m k r b

theorem LeftByMove.exists_token (h : m.LeftByMove k r b) :
    ∃ addr w, m.memory.cells.get? addr = some w ∧ b ∈ w.tokens := by
  cases h with
  | value _ hw hmem => exact ⟨_, _, hw, hmem⟩
  | token _ hw hfirst => exact ⟨_, _, hw, List.mem_of_head? hfirst⟩

/-- A step that does not write the register leaves the token where it is. -/
theorem LeftByMove.succ (h : m.LeftByMove k r b)
    (hkept : ∀ i', (m.after k).step.2 = .ok (some i') → i'.destination? ≠ some r) :
    m.LeftByMove (k + 1) r b := by
  cases h with
  | value last hw hmem => exact .value (last.succ hkept) hw hmem
  | token last hw hfirst => exact .token (last.succ hkept) hw hfirst

/-- A MOV writes a token of a word in memory, which may be any token of its own word or the first
    one of another word. -/
theorem leftByMove_of_movValue {dst : UInt64} {src : MovSource} {value : Bits}
    (hexecuted : (m.after k).step.2 = .ok (some (.mov dst src)))
    (hi : (m.after k).advance.Decodes (.mov dst src))
    (hvalue : (m.after k).advance.movValue src = .ok value) : m.LeftByMove (k + 1) dst value := by
  have hmemory : (m.after k).advance.memory = m.memory := (m.keeps_after k).memory
  cases src with
  | immediate v =>
    cases hvalue
    obtain ⟨w, ⟨hslot, -⟩, hdecode⟩ := hi
    rw [hmemory] at hslot
    exact .value (lastWrite_succ hexecuted rfl) hslot (Instruction.mem_tokens_of_decode hdecode)
  | address addr =>
    rw [movValue, hmemory] at hvalue
    split at hvalue
    next token htoken =>
      cases hvalue
      obtain ⟨w, hw, hfirst⟩ := Option.bind_eq_some_iff.mp htoken
      exact .token (lastWrite_succ hexecuted rfl) hw hfirst
    next => cases hvalue

/-! ### Registers -/

/-- **The invariant of the registers**: whatever carries a sign mark was left by a SUB or by a
    MOV. -/
def TracedMarks (m : Machine) (k : Nat) : Prop :=
  ∀ r b, (m.after k).registers.held r = some b →
    b.negative = false ∨ m.LeftBySub k r b ∨ m.LeftByMove k r b

/-- **One step.** A register that is written gets a token from memory or the result of an operation
    on bit-strings without sign marks. -/
theorem TracedMarks.succ (h : m.TracedMarks k) : m.TracedMarks (k + 1) := by
  intro r b hb
  rw [after_succ_eq_step] at hb
  rcases (m.after k).step_register_cases r with ⟨hheld, hkept⟩ | ⟨i, m', hi, heffect, hr, hstep⟩
  · rw [hheld] at hb
    rcases h r b hb with hneg | hleft | hleft
    · exact .inl hneg
    · exact .inr (.inl (hleft.succ hkept))
    · exact .inr (.inr (hleft.succ hkept))
  · rw [hstep] at hb
    have hexecuted : (m.after k).step.2 = .ok (some i) := congrArg Prod.snd hstep
    -- Only a MOV and an arithmetic operation write a register.
    cases heffect with
    | @mov dst src value hdst hvalue =>
      cases hr
      obtain rfl : value = b := Option.some.inj ((held_write hdst value).symm.trans hb)
      exact .inr (.inr (leftByMove_of_movValue hexecuted hi hvalue))
    | @arith op lhs rhs dst x y u v w hlhs hrhs hdst hx hy hu hv hw =>
      cases hr
      obtain rfl : Bits.ofInt w = b := Option.some.inj ((held_write hdst _).symm.trans hb)
      obtain ⟨hxn, rfl⟩ := negative_of_operand hu
      obtain ⟨hyn, rfl⟩ := negative_of_operand hv
      by_cases hneg : w < 0
      · obtain ⟨rfl, hlt, rfl⟩ := eq_sub_of_combine_neg hw hneg
        exact .inr (.inl (.intro (lastWrite_succ hexecuted rfl) hx hxn hy hyn hlt))
      · left
        simpa using hneg
    | outEmpty | outValue | exit => cases hr

theorem tracedMarks (hfresh : ∀ r, m.registers.held r = none) (k : Nat) : m.TracedMarks k := by
  induction k with
  | zero =>
    intro r b hb
    cases (hfresh r).symm.trans hb
  | succ k ih => exact ih.succ

/-- **The invariant where memory holds words of numbers**: whatever carries a sign mark was left by
    a SUB. -/
def OnlySubMarks (m : Machine) (k : Nat) : Prop :=
  ∀ r b, (m.after k).registers.held r = some b → b.negative = false ∨ m.LeftBySub k r b

theorem HoldsNumbers.onlySubMarks (hnumbers : m.HoldsNumbers)
    (hfresh : ∀ r, m.registers.held r = none) (k : Nat) : m.OnlySubMarks k := by
  intro r b hb
  rcases m.tracedMarks hfresh k r b hb with hneg | hleft | hleft
  · exact .inl hneg
  · exact .inr hleft
  · -- The token that a MOV has found is the token of a word of numbers.
    obtain ⟨addr, w, hw, hmem⟩ := hleft.exists_token
    exact .inl ((hnumbers addr w hw).negative_eq_false hmem)

/-! ### Faults -/

/-- **The bit-strings that the machine cannot read** after `k` steps, in the run of a program
    without sign marks. -/
inductive ReadingFault (m : Machine) (k : Nat) : LiteralError → Prop
  /-- A source of an ADD, SUB, MUL or DIV carries the sign mark of a SUB. -/
  | signed {op : ArithOp} {lhs rhs dst r : UInt64} {b : Bits}
      (hi : (m.after k).Decodes (.arith op lhs rhs dst)) (hr : r = lhs ∨ r = rhs)
      (hb : (m.after k).registers.held r = some b) (hleft : m.LeftBySub k r b) :
      ReadingFault m k (.signed b.text)
  /-- A source of a MUL or DIV is 2^64 or more. -/
  | wide {op : ArithOp} {lhs rhs dst r : UInt64} {b : Bits} (hop : op = .mul ∨ op = .div)
      (hi : (m.after k).Decodes (.arith op lhs rhs dst)) (hr : r = lhs ∨ r = rhs)
      (hb : (m.after k).registers.held r = some b) (hneg : b.negative = false)
      (hlarge : 2 ^ 64 ≤ b.magnitude) : ReadingFault m k (.overflow b.text)
  /-- The register of an OUT holds a value below -2^63 or above 2^63 - 1. -/
  | out {src : UInt64} {b : Bits} (hi : (m.after k).Decodes (.out src))
      (hb : (m.after k).registers.held src = some b)
      (hvalue : b.value < -2 ^ 63 ∨ 2 ^ 63 ≤ b.value) :
      ReadingFault m k (.overflow (if b.magnitude < 2 ^ 64 then b.text else b.digitText))

/-- Why an operation refuses a bit-string. -/
theorem operand_eq_error {op : ArithOp} {e : LiteralError} (h : op.operand b = .error e) :
    (b.negative = true ∧ e = .signed b.text) ∨
      (b.negative = false ∧ (op = .mul ∨ op = .div) ∧ 2 ^ 64 ≤ b.magnitude ∧
        e = .overflow b.text) := by
  unfold ArithOp.operand at h
  split at h
  next hneg =>
    cases h
    exact .inl ⟨hneg, rfl⟩
  next hneg =>
    split at h
    next hwide =>
      obtain ⟨hop, hlarge⟩ := hwide
      cases h
      refine .inr ⟨by simpa using hneg, ?_, hlarge, rfl⟩
      cases op with
      | mul => exact .inl rfl
      | div => exact .inr rfl
      | add | sub => cases hop
    · cases h

/-- **Misread bit-strings.** The tokens of fetched words are read without fail, which leaves the
    sources of arithmetic operations and the register of an OUT. -/
theorem readingFault_of_misreads (hnumbers : m.HoldsNumbers) (hmarks : m.OnlySubMarks k)
    {e : LiteralError} (h : (m.after k).Misreads e) : m.ReadingFault k e := by
  rcases h with ⟨w, token, ⟨hslot, -⟩, htoken, he⟩ | ⟨op, lhs, rhs, dst, b, hi, hb, he⟩ |
    ⟨src, b, hi, hb, he⟩
  · -- The word has been assembled, and its tokens are numbers.
    have hw : w.OfNumbers := hnumbers.after k _ w hslot
    have hmem : token ∈ w.tokens := by
      rcases htoken with hfirst | ⟨op, -, hoperand⟩
      · exact List.mem_of_head? hfirst
      · exact List.mem_of_mem_tail (Opcode.mem_of_mem_numbers hoperand)
    obtain ⟨v, hv⟩ := hw.unsigned token hmem
    cases he.symm.trans hv
  · obtain ⟨r, hr, hb⟩ : ∃ r, (r = lhs ∨ r = rhs) ∧ (m.after k).registers.held r = some b := by
      rcases hb with hb | hb
      · exact ⟨lhs, .inl rfl, hb⟩
      · exact ⟨rhs, .inr rfl, hb⟩
    rcases operand_eq_error he with ⟨hneg, rfl⟩ | ⟨hneg, hop, hlarge, rfl⟩
    · -- Only a SUB can have set the sign mark.
      rcases hmarks r b hb with hneg' | hleft
      · rw [hneg] at hneg'
        cases hneg'
      · exact .signed hi hr hb hleft
    · exact .wide hop hi hr hb hneg hlarge
  · by_cases hfits : Bits.FitsSigned b.value
    · rw [Bits.signed_of_fits hfits] at he
      cases he
    · rw [Bits.signed_of_not_fits hfits] at he
      cases he
      refine .out hi hb ?_
      unfold Bits.FitsSigned signedLimit at hfits
      omega

/-! ### Source texts -/

/-- A machine into which an assembled program has been loaded holds its words and no others. -/
theorem holdsNumbers_load (config : Config) {source : String} {width : Nat} {p : Program}
    (hasm : Source.assemble source width = .ok p) :
    ((create config).loadProgram p).1.HoldsNumbers := by
  apply Memory.forall_get?_load
  · intro addr w hw
    cases hw
  · exact Source.ofNumbers_of_mem_assemble hasm

/-- **Sign marks come from SUB only.** Let a machine of any configuration run a program that has
    been assembled from any source text at any width, as far as it fits into memory. After any
    number of steps each register holds nothing, or a bit-string without a sign mark, or what a SUB
    of a smaller and a larger number has left in it, which starts with `-1`. When a bit-string that
    cannot be read has stopped the machine, it is a source with the sign mark of a SUB, a source of
    a MUL or DIV that is 2^64 or more, or the register of an OUT whose value does not fit in 64 bits
    with a sign. No fetched word is ever refused because of a malformed token. -/
theorem signMarks_assembled {source : String} {width : Nat} {p : Program}
    (hasm : Source.assemble source width = .ok p) (config : Config) (k : Nat) :
    let m := ((create config).loadProgram p).1
    (∀ r b, (m.after k).registers.held r = some b →
        b.negative = false ∨ (m.LeftBySub k r b ∧ ['-', '1'] <+: b.text.toList)) ∧
      (∀ cycle e, (m.after k).status = .faulted (.literal cycle e) → m.ReadingFault k e) ∧
      (∀ w e, (m.after k).Fetches w → Instruction.decode w = .error e →
        ∀ cycle cycle' cause, Fault.ofDecodeError cycle e ≠ .literal cycle' cause) := by
  intro m
  have hnumbers : m.HoldsNumbers := holdsNumbers_load config hasm
  have hmarks : m.OnlySubMarks k := hnumbers.onlySubMarks (Registers.held_blank _) k
  have htruthful : m.Truthful := ⟨hnumbers.holdsWords, nofun⟩
  refine ⟨?_, ?_, ?_⟩
  · intro r b hb
    rcases hmarks r b hb with hneg | hleft
    · exact .inl hneg
    · exact .inr ⟨hleft, hleft.isPrefix⟩
  · intro cycle e hstatus
    obtain ⟨-, hmisreads⟩ := (htruthful.after k).diagnosis _ hstatus
    exact readingFault_of_misreads hnumbers hmarks hmisreads
  · intro w e hw he
    exact (hnumbers.after k _ w hw.1).ofDecodeError_ne_literal he

/-- Three minus seven, and an ADD that refuses the difference. -/
theorem signMarks_assembled_refused :
    ∃ p b, Source.assemble "MOV reg0 $3\nMOV reg1 $7\nSUB reg0 reg1 reg2\nADD reg2 reg0 reg1" 4
        = .ok p ∧
      let m := ((create {}).loadProgram p).1
      (m.after 4).registers.held 2 = some b ∧ b.text = "-100" ∧ m.LeftBySub 4 2 b ∧
        (m.after 4).status = .faulted (.literal 4 (.signed "-100")) ∧
        m.ReadingFault 4 (.signed "-100") := by
  let source := "MOV reg0 $3\nMOV reg1 $7\nSUB reg0 reg1 reg2\nADD reg2 reg0 reg1"
  let items : List (Address × Source.Item) :=
    [(⟨1⟩, .loadValue 0 3), (⟨2⟩, .loadValue 1 7), (⟨3⟩, .arith .sub 0 1 2),
      (⟨4⟩, .arith .add 2 0 1)]
  let p := Source.programOf items 4
  have hlayout : Source.layout source = .ok items := by decide +kernel
  have hasm : Source.assemble source 4 = .ok p := by
    rw [Source.assemble, hlayout]
    rfl
  let b : Bits := ⟨true, [true, false, false], List.cons_ne_nil _ _⟩
  obtain ⟨hregisters, hfaults, -⟩ := signMarks_assembled hasm {} 4
  have hb : (((create {}).loadProgram p).1.after 4).registers.held 2 = some b := by
    decide +kernel
  have hstatus : (((create {}).loadProgram p).1.after 4).status
      = .faulted (.literal 4 (.signed "-100")) := by
    decide +kernel
  rcases hregisters 2 b hb with hneg | ⟨hleft, -⟩
  · cases hneg
  · exact ⟨p, b, hasm, hb, rfl, hleft, hstatus, hfaults _ _ hstatus⟩

end Machine

end BitMachine
