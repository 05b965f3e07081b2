import BitMachine.Proofs.Encoding
import BitMachine.Proofs.Loading
import BitMachine.Proofs.Steps

namespace BitMachine

/-!
# The width of tokens has no meaning

The width that an assembled program pads its numbers to only adds zeros in front. Registers keep
such tokens as they are, so two runs of one source text at two widths differ in these zeros all
the way; nothing that can be observed depends on them:

* `Bits.Alike` — bit-strings that differ in zeros in front only, and `Bits.Alike.unsigned`,
  `Bits.Alike.signed`: all readings agree, and so do all complaints up to zeros;
* `Machine.Alike` — machines whose bit-strings are alike place by place;
* `Machine.Alike.execute`, `Machine.Alike.step`, `Machine.Alike.after` — the relation is kept by
  instructions, by steps and by runs;
* `Source.assemble_same_meaning` — the programs of one source text at any two widths.
-/

/-! ### Texts without zeros in front -/

/-- The text of a bit-string without the zeros in front of its digits. -/
def withoutZeros (text : String) : String :=
  let (negative, body) := Bits.splitSign text.toList
  let digits := body.dropWhile (· = '0')
  String.ofList (if negative then signMark :: digits else digits)

/-- A literal error with its text without zeros in front. -/
def LiteralError.withoutZeros : LiteralError → LiteralError
  | .signed text => .signed (BitMachine.withoutZeros text)
  | .overflow text => .overflow (BitMachine.withoutZeros text)
  | e => e

/-- A decode error with the text in it without zeros in front. -/
def DecodeError.withoutZeros : DecodeError → DecodeError
  | .operand cause => .operand cause.withoutZeros
  | e => e

/-- A fault with the text in it without zeros in front. -/
def Fault.withoutZeros : Fault → Fault
  | .literal cycle cause => .literal cycle cause.withoutZeros
  | f => f

/-- A status with the text in it without zeros in front. -/
def Status.withoutZeros : Status → Status
  | .faulted fault => .faulted fault.withoutZeros
  | s => s

theorem dropWhile_map_digitChar (ds : List Bool) :
    (ds.map digitChar).dropWhile (· = '0') = (stripZeros ds).map digitChar := by
  induction ds with
  | nil => rfl
  | cons d ds ih =>
    cases d
    · simpa [digitChar] using ih
    · simp [digitChar]

theorem withoutZeros_digitText (b : Bits) :
    withoutZeros b.digitText = String.ofList ((stripZeros b.digits).map digitChar) := by
  -- No digit is mistaken for the sign mark.
  have hsplit : Bits.splitSign b.digitChars = (false, b.digitChars) := by
    unfold Bits.digitChars
    cases b.digits with
    | nil => rfl
    | cons d ds => cases d <;> rfl
  rw [withoutZeros, Bits.digitText, String.toList_ofList, hsplit]
  exact congrArg String.ofList (dropWhile_map_digitChar b.digits)

theorem withoutZeros_text (b : Bits) :
    withoutZeros b.text = String.ofList
      (if b.negative then signMark :: (stripZeros b.digits).map digitChar
        else (stripZeros b.digits).map digitChar) := by
  cases hn : b.negative
  · have hchars : b.text = b.digitText := by simp [Bits.text, Bits.chars, hn, Bits.digitText]
    rw [hchars, withoutZeros_digitText]
    rfl
  · have hsplit : Bits.splitSign b.chars = (true, b.digitChars) := by
      simp [Bits.chars, hn, Bits.splitSign]
    rw [withoutZeros, Bits.text, String.toList_ofList, hsplit]
    exact congrArg (fun ds => String.ofList (signMark :: ds)) (dropWhile_map_digitChar b.digits)

/-- A word that does not decode is complained about in the same text. -/
theorem Fault.withoutZeros_ofDecodeError (cycle : UInt64) (e : DecodeError) :
    (Fault.ofDecodeError cycle e).withoutZeros = .ofDecodeError cycle e.withoutZeros := by
  cases e <;> rfl

theorem Status.withoutZeros_eq_running_iff {s : Status} :
    s.withoutZeros = .running ↔ s = .running := by
  cases s <;> simp [Status.withoutZeros]

/-! ### Bit-strings -/

namespace Bits

/-- Bit-strings that differ in zeros in front only. -/
structure Alike (a b : Bits) : Prop where
  /-- The sign mark. -/
  negative : a.negative = b.negative
  /-- The number that the digits stand for. -/
  magnitude : a.magnitude = b.magnitude

theorem Alike.refl (a : Bits) : a.Alike a :=
  ⟨rfl, rfl⟩

/-- A number encoded at two widths. -/
theorem alike_encodeUnsigned (v : UInt64) (w₁ w₂ : Nat) :
    (encodeUnsigned v w₁).Alike (encodeUnsigned v w₂) :=
  ⟨rfl, by simp⟩

variable {a b : Bits}

theorem Alike.withoutZeros_text (h : a.Alike b) : withoutZeros a.text = withoutZeros b.text := by
  rw [BitMachine.withoutZeros_text, BitMachine.withoutZeros_text, h.negative,
    stripZeros_congr h.magnitude]

theorem Alike.withoutZeros_digitText (h : a.Alike b) :
    withoutZeros a.digitText = withoutZeros b.digitText := by
  rw [BitMachine.withoutZeros_digitText, BitMachine.withoutZeros_digitText,
    stripZeros_congr h.magnitude]

/-- Literal errors that differ in zeros in front only. -/
abbrev SameComplaint (e e' : LiteralError) : Prop :=
  e.withoutZeros = e'.withoutZeros

/-- **The reading without a sign** agrees on bit-strings that are alike. -/
theorem Alike.unsigned (h : a.Alike b) : Related SameComplaint Eq a.unsigned b.unsigned := by
  unfold Bits.unsigned
  simp only [h.negative, h.magnitude]
  split
  · exact .error (congrArg LiteralError.signed h.withoutZeros_text)
  split
  · exact .ok rfl
  · exact .error (congrArg LiteralError.overflow h.withoutZeros_text)

/-- **The signed reading** agrees on bit-strings that are alike. -/
theorem Alike.signed (h : a.Alike b) : Related SameComplaint Eq a.signed b.signed := by
  have htext := congrArg LiteralError.overflow h.withoutZeros_text
  unfold Bits.signed signedValue
  simp only [h.negative, h.magnitude]
  split
  · split
    · split
      · exact .ok rfl
      · exact .error htext
    · split
      · exact .ok rfl
      · exact .error htext
  · exact .error (congrArg LiteralError.overflow h.withoutZeros_digitText)

/-- The reading of an arithmetic operation agrees on bit-strings that are alike. -/
theorem Alike.operand (h : a.Alike b) (op : ArithOp) :
    Related SameComplaint Eq (op.operand a) (op.operand b) := by
  unfold ArithOp.operand
  simp only [h.negative, h.magnitude]
  split
  · exact .error (congrArg LiteralError.signed h.withoutZeros_text)
  split
  · exact .error (congrArg LiteralError.overflow h.withoutZeros_text)
  · exact .ok rfl

end Bits

/-! ### Words and instructions -/

/-- Words whose tokens are alike. -/
def Word.Alike (v w : Word) : Prop :=
  List.Forall₂ Bits.Alike v.tokens w.tokens

/-- Instructions that differ in the zeros of a value only. -/
inductive Instruction.Alike : Instruction → Instruction → Prop
  /-- A MOV of a value. -/
  | value (dst : UInt64) {a b : Bits} (h : a.Alike b) :
      Alike (.mov dst (.immediate a)) (.mov dst (.immediate b))
  /-- A MOV from an address. -/
  | address (dst : UInt64) (addr : Address) :
      Alike (.mov dst (.address addr)) (.mov dst (.address addr))
  /-- An arithmetic operation. -/
  | arith (op : ArithOp) (lhs rhs dst : UInt64) :
      Alike (.arith op lhs rhs dst) (.arith op lhs rhs dst)
  /-- An OUT. -/
  | out (src : UInt64) : Alike (.out src) (.out src)
  /-- An EXIT. -/
  | exit (code : UInt64) : Alike (.exit code) (.exit code)

/-- Decode errors that differ in zeros in front only. -/
abbrev DecodeError.Same (e e' : DecodeError) : Prop :=
  e.withoutZeros = e'.withoutZeros

theorem Instruction.field_alike {a b : Bits} (h : a.Alike b) :
    Related DecodeError.Same Eq (field a) (field b) :=
  h.unsigned.mapError fun _ _ he => congrArg DecodeError.operand he

namespace Word.Alike

variable {v w : Word}

theorem size_eq (h : v.Alike w) : v.size = w.size :=
  h.length_eq

theorem isEmpty_eq (h : v.Alike w) : v.isEmpty = w.isEmpty := by
  have hrow : List.Forall₂ Bits.Alike v.tokens w.tokens := h
  unfold Word.isEmpty
  generalize v.tokens = as at hrow ⊢
  generalize w.tokens = bs at hrow ⊢
  cases hrow <;> rfl

theorem first? (h : v.Alike w) : Option.Rel Bits.Alike v.first? w.first? := by
  have hrow : List.Forall₂ Bits.Alike v.tokens w.tokens := h
  unfold Word.first?
  generalize v.tokens = as at hrow ⊢
  generalize w.tokens = bs at hrow ⊢
  cases hrow with
  | nil => exact .none
  | cons hd _ => exact .some hd

theorem operands (h : v.Alike w) : List.Forall₂ Bits.Alike v.operands w.operands := by
  have hrow : List.Forall₂ Bits.Alike v.tokens w.tokens := h
  unfold Word.operands
  generalize v.tokens = as at hrow ⊢
  generalize w.tokens = bs at hrow ⊢
  cases hrow with
  | nil => exact .nil
  | cons _ hrest => exact hrest

theorem opcode (h : v.Alike w) : Related DecodeError.Same Eq v.opcode w.opcode := by
  unfold Word.opcode
  have hfirst := h.first?
  generalize v.first? = x at hfirst ⊢
  generalize w.first? = y at hfirst ⊢
  cases hfirst with
  | none => exact .error rfl
  | some hd =>
    refine (Instruction.field_alike hd).bind ?_
    rintro n _ rfl
    cases Opcode.ofValue? n with
    | none => exact .error rfl
    | some op => exact .ok rfl

end Word.Alike

namespace Instruction

/-- Operand rows that are alike have one length, so either both or none suit an operation. The
    cases follow the lengths that the operation accepts. -/
theorem ofOperands_alike (op : Opcode) {as bs : List Bits} (h : List.Forall₂ Bits.Alike as bs) :
    Related DecodeError.Same Alike (ofOperands op as) (ofOperands op bs) := by
  have harity : DecodeError.Same (.arityMismatch op as.length) (.arityMismatch op bs.length) := by
    rw [h.length_eq]
  cases op with
  | mov =>
    obtain _ | ⟨h₁, _ | ⟨h₂, _ | ⟨h₃, _ | ⟨_, _⟩⟩⟩⟩ := h
    · exact .error harity
    · exact .error harity
    · refine (field_alike h₁).bind ?_
      rintro dst _ rfl
      refine (field_alike h₂).bind ?_
      rintro addr _ rfl
      exact .ok (.address dst ⟨addr⟩)
    · refine (field_alike h₁).bind ?_
      rintro dst _ rfl
      exact .ok (.value dst h₃)
    · exact .error harity
  | arith op =>
    obtain _ | ⟨h₁, _ | ⟨h₂, _ | ⟨h₃, _ | ⟨_, _⟩⟩⟩⟩ := h
    · exact .error harity
    · exact .error harity
    · exact .error harity
    · refine (field_alike h₁).bind ?_
      rintro lhs _ rfl
      refine (field_alike h₂).bind ?_
      rintro rhs _ rfl
      refine (field_alike h₃).bind ?_
      rintro dst _ rfl
      exact .ok (.arith op lhs rhs dst)
    · exact .error harity
  | out =>
    obtain _ | ⟨h₁, _ | ⟨_, _⟩⟩ := h
    · exact .error harity
    · refine (field_alike h₁).bind ?_
      rintro src _ rfl
      exact .ok (.out src)
    · exact .error harity
  | exit =>
    obtain _ | ⟨h₁, _ | ⟨_, _⟩⟩ := h
    · exact .error harity
    · refine (field_alike h₁).bind ?_
      rintro code _ rfl
      exact .ok (.exit code)
    · exact .error harity

/-- **Words that are alike decode alike.** -/
theorem decode_alike {v w : Word} (h : v.Alike w) :
    Related DecodeError.Same Alike (decode v) (decode w) := by
  refine h.opcode.bind ?_
  rintro op _ rfl
  exact ofOperands_alike op h.operands

end Instruction

/-! ### Machines -/

/-- Faults that differ in zeros in front only. -/
abbrev Fault.Same (f f' : Fault) : Prop :=
  f.withoutZeros = f'.withoutZeros

/-- Machines whose registers and words are alike, and that are the same otherwise. The last
    instruction does not matter. -/
structure Machine.Alike (m n : Machine) : Prop where
  /-- The configuration. -/
  config : m.config = n.config
  /-- The registers. -/
  registers : List.Forall₂ (Option.Rel Bits.Alike) m.registers.slots n.registers.slots
  /-- The memory. -/
  memory : m.memory.Alike Word.Alike n.memory
  /-- The status, up to zeros in front. -/
  status : m.status.withoutZeros = n.status.withoutZeros
  /-- The cycle count. -/
  cycle : m.cycle = n.cycle
  /-- What was emitted. -/
  serial : m.serial = n.serial

theorem forall₂_set {R : Option Bits → Option Bits → Prop} {x y : Option Bits} (hxy : R x y)
    {xs ys : List (Option Bits)} (h : List.Forall₂ R xs ys) (i : Nat) :
    List.Forall₂ R (xs.set i x) (ys.set i y) := by
  induction h generalizing i with
  | nil => exact .nil
  | cons hhd hrest ih =>
    cases i with
    | zero => exact .cons hxy hrest
    | succ i => exact .cons hhd (ih i)

namespace Machine.Alike

variable {m n : Machine}

theorem count_eq (h : m.Alike n) : m.registers.count = n.registers.count :=
  h.registers.length_eq

theorem held (h : m.Alike n) (index : UInt64) :
    Option.Rel Bits.Alike (m.registers.held index) (n.registers.held index) := by
  have hslots := h.registers
  unfold Registers.held
  generalize m.registers.slots = xs at hslots ⊢
  generalize n.registers.slots = ys at hslots ⊢
  generalize index.toNat = i
  induction hslots generalizing i with
  | nil => exact .none
  | cons hxy _ ih =>
    cases i with
    | zero => exact hxy
    | succ i => exact ih i

/-- An operand that is not refused names a register. -/
theorem checkRegister (h : m.Alike n) (opcode : Opcode) (index : UInt64) :
    Related Fault.Same (fun _ _ => index.toNat < m.registers.count)
      (m.checkRegister opcode index) (n.checkRegister opcode index) := by
  rw [checkRegister_eq, checkRegister_eq, ← h.count_eq, h.cycle]
  by_cases hindex : index.toNat < m.registers.count
  · rw [if_pos hindex]
    exact .ok hindex
  · rw [if_neg hindex]
    exact .error rfl

theorem readSource (h : m.Alike n) (opcode : Opcode) (index : UInt64) :
    Related Fault.Same Bits.Alike (m.readSource opcode index) (n.readSource opcode index) := by
  have hheld := h.held index
  rw [readSource_eq, readSource_eq, h.cycle]
  generalize m.registers.held index = x at hheld ⊢
  generalize n.registers.held index = y at hheld ⊢
  cases hheld with
  | none => exact .error rfl
  | some hab => exact .ok hab

theorem needs (h : m.Alike n) {α : Type} {R : α → α → Prop} {x y : Except LiteralError α}
    (hxy : Related Bits.SameComplaint R x y) :
    Related Fault.Same R (m.needs x) (n.needs y) := by
  unfold Machine.needs
  rw [h.cycle]
  exact hxy.mapError fun _ _ he => congrArg (Fault.literal n.cycle) he

theorem write (h : m.Alike n) (index : UInt64) {a b : Bits} (hab : a.Alike b) :
    (m.write index a).Alike (n.write index b) := by
  exact ⟨h.config, forall₂_set (.some hab) h.registers index.toNat, h.memory, h.status, h.cycle,
    h.serial⟩

theorem store (h : m.Alike n) (opcode : Opcode) {index : UInt64} {a b : Bits}
    (hindex : index.toNat < m.registers.count) (hab : a.Alike b) :
    Related Fault.Same (fun p q => p.2.Alike q.2) (outcome ((Machine.store opcode index a).run m))
      (outcome ((Machine.store opcode index b).run n)) := by
  rw [run_store_of_lt a hindex, run_store_of_lt b (h.count_eq ▸ hindex)]
  exact .ok (h.write index hab)

theorem emit (h : m.Alike n) (value : Option Int) : (m.emit value).Alike (n.emit value) := by
  refine ⟨h.config, h.registers, h.memory, h.status, h.cycle, ?_⟩
  show m.serial.emit value = n.serial.emit value
  rw [h.serial]

/-- Arithmetic computes the same bit-string from bit-strings that are alike. -/
theorem compute (h : m.Alike n) (op : ArithOp) {a a' b b' : Bits} (ha : a.Alike a')
    (hb : b.Alike b') : Related Fault.Same Eq (m.compute op a b) (n.compute op a' b') := by
  rw [compute_eq, compute_eq, h.cycle]
  refine (h.needs (ha.operand op)).bind ?_
  rintro x _ rfl
  refine (h.needs (hb.operand op)).bind ?_
  rintro y _ rfl
  exact .refl _

theorem movValue (h : m.Alike n) (addr : Address) :
    Related Fault.Same Bits.Alike (m.movValue (.address addr)) (n.movValue (.address addr)) := by
  have hfirst : Option.Rel Bits.Alike ((m.memory.cells.get? addr).bind Word.first?)
      ((n.memory.cells.get? addr).bind Word.first?) := by
    have hget := h.memory.get? addr
    generalize m.memory.cells.get? addr = x at hget ⊢
    generalize n.memory.cells.get? addr = y at hget ⊢
    cases hget with
    | none => exact .none
    | some hvw => exact hvw.first?
  simp only [Machine.movValue, h.cycle]
  generalize (m.memory.cells.get? addr).bind Word.first? = x at hfirst ⊢
  generalize (n.memory.cells.get? addr).bind Word.first? = y at hfirst ⊢
  cases hfirst with
  | none => exact .error rfl
  | some hab => exact .ok hab

theorem outValue (h : m.Alike n) {src : UInt64} (hsrc : src.toNat < m.registers.count) :
    Related Fault.Same Eq (m.outValue src) (n.outValue src) := by
  have hheld := h.held src
  rw [outValue_eq m hsrc, outValue_eq n (h.count_eq ▸ hsrc)]
  generalize m.registers.held src = x at hheld ⊢
  generalize n.registers.held src = y at hheld ⊢
  cases hheld with
  | none => exact .ok rfl
  | some hab =>
    exact (h.needs hab.signed).map fun _ _ hv => congrArg some hv

/-- **Instructions that are alike** succeed or fail alike on machines that are alike. -/
theorem execute (h : m.Alike n) {i j : Instruction} (hij : i.Alike j) :
    Related Fault.Same (fun p q => p.2.Alike q.2) (outcome ((Machine.execute i).run m))
      (outcome ((Machine.execute j).run n)) := by
  cases hij with
  | value dst hab =>
    simp only [Machine.execute, outcome_reading_bind]
    refine (h.checkRegister .mov dst).bind fun _ _ hdst => ?_
    exact h.store .mov hdst hab
  | address dst addr =>
    simp only [Machine.execute, outcome_reading_bind]
    refine (h.checkRegister .mov dst).bind fun _ _ hdst => ?_
    refine (h.movValue addr).bind fun a b hab => ?_
    exact h.store .mov hdst hab
  | arith op lhs rhs dst =>
    simp only [Machine.execute, outcome_reading_bind, readSources, bind_assoc, pure_bind]
    refine (h.checkRegister (.arith op) lhs).bind fun _ _ _ => ?_
    refine (h.checkRegister (.arith op) rhs).bind fun _ _ _ => ?_
    refine (h.checkRegister (.arith op) dst).bind fun _ _ hdst => ?_
    refine (h.readSource (.arith op) lhs).bind fun a a' ha => ?_
    refine (h.readSource (.arith op) rhs).bind fun b b' hb => ?_
    refine (h.compute op ha hb).bind ?_
    rintro value _ rfl
    exact h.store (.arith op) hdst (.refl value)
  | out src =>
    simp only [Machine.execute, outcome_reading_bind]
    refine (h.checkRegister .out src).bind fun _ _ hsrc => ?_
    refine (h.outValue hsrc).bind ?_
    rintro value _ rfl
    exact .ok (h.emit value)
  | exit code =>
    have hcode : m.exitValue code = n.exitValue code := by simp only [exitValue, h.cycle]
    simp only [Machine.execute, outcome_reading_bind, hcode]
    cases n.exitValue code with
    | error f => exact .error rfl
    | ok status => exact .ok ⟨h.config, h.registers, h.memory, rfl, h.cycle, h.serial⟩

/-- A word decodes alike. -/
theorem decoded (h : m.Alike n) {v w : Word} (hvw : v.Alike w) :
    Related Fault.Same Instruction.Alike (m.decoded v) (n.decoded w) := by
  refine (Instruction.decode_alike hvw).mapError fun e e' he => ?_
  show (Fault.ofDecodeError m.cycle e).withoutZeros = (Fault.ofDecodeError n.cycle e').withoutZeros
  rw [h.cycle, Fault.withoutZeros_ofDecodeError, Fault.withoutZeros_ofDecodeError, he]

/-- A cycle goes alike. -/
theorem fetchAndExecute (h : m.Alike n) :
    Related Fault.Same (fun p q => p.2.Alike q.2) (outcome (Machine.fetchAndExecute.run m))
      (outcome (Machine.fetchAndExecute.run n)) := by
  have hget := h.memory.get? ⟨m.cycle⟩
  generalize hv : m.memory.cells.get? ⟨m.cycle⟩ = x at hget
  generalize hw : n.memory.cells.get? ⟨m.cycle⟩ = y at hget
  rw [h.cycle] at hw
  cases hget with
  | none =>
    rw [(Cycle.empty hv).run_eq, (Cycle.empty hw).run_eq, h.cycle]
    exact .error rfl
  | @some v w hvw =>
    by_cases hshort : w.size < n.config.minInstructionLength.toNat
    · have hshort' : v.size < m.config.minInstructionLength.toNat := by
        rw [hvw.size_eq, h.config]
        exact hshort
      rw [(Cycle.data hv hshort').run_eq, (Cycle.data hw hshort).run_eq]
      exact .ok h
    · have hlong := Nat.le_of_not_lt hshort
      have hlong' : m.config.minInstructionLength.toNat ≤ v.size := by
        rw [hvw.size_eq, h.config]
        exact hlong
      rw [run_fetchAndExecute_of_long hv hlong', run_fetchAndExecute_of_long hw hlong,
        outcome_reading_bind, outcome_reading_bind]
      refine (h.decoded hvw).bind fun i j hij => ?_
      rw [outcome_bind, outcome_bind]
      refine (h.execute hij).bind fun p q h' => ?_
      exact .ok ⟨h'.config, h'.registers, h'.memory, h'.status, h'.cycle, h'.serial⟩

theorem goesOn_iff (h : m.Alike n) : m.GoesOn ↔ n.GoesOn := by
  unfold GoesOn
  rw [← Status.withoutZeros_eq_running_iff, h.status, Status.withoutZeros_eq_running_iff,
    h.cycle]

theorem advance (h : m.Alike n) : m.advance.Alike n.advance := by
  refine ⟨h.config, h.registers, h.memory, h.status, ?_, h.serial⟩
  show m.cycle + 1 = n.cycle + 1
  rw [h.cycle]

theorem stopWith (h : m.Alike n) {f f' : Fault} (hf : f.withoutZeros = f'.withoutZeros) :
    (m.stopWith f).Alike (n.stopWith f') :=
  ⟨h.config, h.registers, h.memory, congrArg Status.faulted hf, h.cycle, h.serial⟩

/-- **A step keeps machines alike.** -/
theorem step (h : m.Alike n) : m.step.1.Alike n.step.1 := by
  by_cases hgo : n.GoesOn
  · rw [step_eq_of_outcome (h.goesOn_iff.mpr hgo), step_eq_of_outcome hgo]
    have hcycle := h.advance.fetchAndExecute
    generalize outcome (Machine.fetchAndExecute.run m.advance) = x at hcycle ⊢
    generalize outcome (Machine.fetchAndExecute.run n.advance) = y at hcycle ⊢
    cases hcycle with
    | ok h' => exact h'
    | error hf => exact h.advance.stopWith hf
  · rw [step_of_not_goesOn (fun hm => hgo (h.goesOn_iff.mp hm)), step_of_not_goesOn hgo]
    exact h

/-- **Any number of steps** keeps machines alike. -/
theorem after (h : m.Alike n) (k : Nat) : (m.after k).Alike (n.after k) := by
  induction k with
  | zero => exact h
  | succ k ih =>
    rw [after_succ_eq_step, after_succ_eq_step]
    exact ih.step

end Machine.Alike

/-! ### What can be observed -/

/-- Registers that hold nothing both, or that show the same signed value, or whose values are too
    large both. -/
abbrev SameReading : Option Bits → Option Bits → Prop :=
  Option.Rel fun a b => Related Bits.SameComplaint Eq a.signed b.signed

/-- Machines that cannot be told apart by what they show. -/
structure Machine.SameMeaning (m n : Machine) : Prop where
  /-- The cycle count. -/
  cycle : m.cycle = n.cycle
  /-- The emitted values. -/
  serial : m.serial.values = n.serial.values
  /-- The status with its exit code or its fault, up to zeros in front in a quoted bit-string. -/
  status : m.status.withoutZeros = n.status.withoutZeros
  /-- The registers, one by one. -/
  registers : List.Forall₂ SameReading m.registers.slots n.registers.slots

theorem Machine.Alike.sameMeaning {m n : Machine} (h : m.Alike n) : m.SameMeaning n := by
  refine ⟨h.cycle, congrArg SerialLog.values h.serial, h.status, ?_⟩
  refine h.registers.imp fun x y hxy => ?_
  cases hxy with
  | none => exact .none
  | some hab => exact .some hab.signed

theorem Machine.alike_create (config : Config) : (create config).Alike (create config) := by
  refine ⟨rfl, ?_, Memory.alike_empty _, rfl, rfl, rfl⟩
  -- All registers hold nothing.
  refine List.forall₂_same.mpr fun x hx => ?_
  rw [List.eq_of_mem_replicate hx]
  exact .none

/-- Programs that are alike are loaded alike, also after a failure. -/
theorem Machine.Alike.loadProgram {m n : Machine} (h : m.Alike n) {p q : Program}
    (hpq : List.Forall₂ (Memory.EntryRel Word.Alike) p.words q.words) :
    (m.loadProgram p).1.Alike (n.loadProgram q).1 ∧ (m.loadProgram p).2 = (n.loadProgram q).2 := by
  obtain ⟨hmem, hresult⟩ := h.memory.load (fun _ _ hvw => hvw.isEmpty_eq) hpq
  exact ⟨⟨h.config, h.registers, hmem, h.status, h.cycle, h.serial⟩, hresult⟩

namespace Source

/-- The words of an item at two widths. -/
theorem Item.alike_word (item : Item) (w₁ w₂ : Nat) : (item.word w₁).Alike (item.word w₂) := by
  have hnum (v : UInt64) := Bits.alike_encodeUnsigned v w₁ w₂
  cases item with
  | data v => exact .cons (hnum v) .nil
  | loadValue dst v => exact .cons (hnum _) (.cons (hnum _) (.cons (hnum _) (.cons (hnum _) .nil)))
  | loadFrom dst slot => exact .cons (hnum _) (.cons (hnum _) (.cons (hnum _) .nil))
  | arith op lhs rhs dst =>
    exact .cons (hnum _) (.cons (hnum _) (.cons (hnum _) (.cons (hnum _) .nil)))
  | out src => exact .cons (hnum _) (.cons (hnum _) .nil)
  | exit code => exact .cons (hnum _) (.cons (hnum _) .nil)

theorem programOf_alike (items : List (Address × Item)) (w₁ w₂ : Nat) :
    List.Forall₂ (Memory.EntryRel Word.Alike) (programOf items w₁).words
      (programOf items w₂).words := by
  unfold programOf
  rw [List.forall₂_map_left_iff, List.forall₂_map_right_iff]
  exact List.forall₂_same.mpr fun entry _ => ⟨rfl, entry.2.alike_word w₁ w₂⟩

/-- **The width of tokens has no meaning.** At any two widths a source text is refused for the
    same reason, or its programs stand at the same addresses; these are loaded with the same
    result into machines of any one configuration, which then cannot be told apart after any
    number of steps. -/
theorem assemble_same_meaning (source : String) (w₁ w₂ : Nat) :
    (∃ e, assemble source w₁ = .error e ∧ assemble source w₂ = .error e) ∨
      ∃ p₁ p₂, assemble source w₁ = .ok p₁ ∧ assemble source w₂ = .ok p₂ ∧
        p₁.words.map Prod.fst = p₂.words.map Prod.fst ∧
        ∀ config : Config,
          ((Machine.create config).loadProgram p₁).2 = ((Machine.create config).loadProgram p₂).2 ∧
            ∀ k, (((Machine.create config).loadProgram p₁).1.after k).SameMeaning
              (((Machine.create config).loadProgram p₂).1.after k) := by
  unfold assemble
  cases layout source with
  | error e => exact .inl ⟨e, rfl, rfl⟩
  | ok items =>
    refine .inr ⟨programOf items w₁, programOf items w₂, rfl, rfl, ?_, fun config => ?_⟩
    · rw [map_fst_programOf, map_fst_programOf]
    · obtain ⟨hm, hresult⟩ :=
        (Machine.alike_create config).loadProgram (programOf_alike items w₁ w₂)
      exact ⟨hresult, fun k => (hm.after k).sameMeaning⟩

end Source

end BitMachine
