import BitMachine.Proofs.Encoding
import BitMachine.Proofs.Loading
import BitMachine.Proofs.Steps

namespace BitMachine

/-!
# What a fault says about its machine

A stopped machine still shows why it has stopped. The fault names the cycle that the machine is
at, and its fields can be checked against memory and registers as they are now:

* `Machine.Explains` — what each kind of fault says about the machine that it stopped;
* `Machine.explains_of_cycle` — every failing cycle raises a fault that is true of the machine;
* `Machine.Truthful` — the invariant of stepping, running and rewinding;
* `Machine.fault_explains` — the fault of a machine is true of it, whatever was asked before.
-/

namespace Machine

/-! ### What faults say -/

/-- The word of the cycle, if it is long enough for an instruction. -/
def Fetches (m : Machine) (w : Word) : Prop :=
  m.memory.cells.get? ⟨m.cycle⟩ = some w ∧ m.config.minInstructionLength.toNat ≤ w.size

/-- The instruction of the cycle. -/
def Decodes (m : Machine) (i : Instruction) : Prop :=
  ∃ w, m.Fetches w ∧ Instruction.decode w = .ok i

/-- A bit-string that the cycle reads is not the number that it should be: a token of the fetched
    word, a source of an arithmetic operation, or the register of an OUT. -/
def Misreads (m : Machine) (e : LiteralError) : Prop :=
  (∃ w token, m.Fetches w ∧
    (w.first? = some token ∨ ∃ op, w.opcode = .ok op ∧ token ∈ op.numbers w.operands) ∧
    token.unsigned = .error e) ∨
  (∃ op lhs rhs dst b, m.Decodes (.arith op lhs rhs dst) ∧
    (m.registers.held lhs = some b ∨ m.registers.held rhs = some b) ∧ op.operand b = .error e) ∨
  (∃ src b, m.Decodes (.out src) ∧ m.registers.held src = some b ∧ b.signed = .error e)

/-- **What a fault says** about the machine that it stopped. The faults that are no faults of an
    execution say nothing that could be true. -/
def Explains (m : Machine) : Fault → Prop
  | .notRunning _ => False
  | .outOfInstructions _ addr => addr.slot = m.cycle ∧ m.memory.cells.get? addr = none
  | .invalidInstruction _ value =>
    ∃ w token, m.Fetches w ∧ w.first? = some token ∧ token.unsigned = .ok value ∧
      value ∉ ([0, 1, 2, 3, 4, 5, 15] : List UInt64)
  | .arityMismatch _ opcode found =>
    ∃ w, m.Fetches w ∧ w.opcode = .ok opcode ∧ w.operands.length = found ∧ found ∉ opcode.arity
  | .invalidRegister _ opcode index count =>
    ∃ i, m.Decodes i ∧ i.opcode = opcode ∧ index ∈ i.registers ∧ count = m.registers.count ∧
      count ≤ index.toNat
  | .emptyRegister _ opcode index =>
    ∃ op lhs rhs dst, m.Decodes (.arith op lhs rhs dst) ∧ opcode = .arith op ∧
      (index = lhs ∨ index = rhs) ∧ index.toNat < m.registers.count ∧
      m.registers.held index = none
  | .invalidAddress _ opcode addr =>
    ∃ dst, m.Decodes (.mov dst (.address addr)) ∧ opcode = .mov ∧
      m.memory.cells.get? addr = none
  | .divisionByZero _ =>
    ∃ lhs rhs dst b, m.Decodes (.arith .div lhs rhs dst) ∧ m.registers.held rhs = some b ∧
      b.unsigned = .ok 0
  | .overflow _ opcode =>
    ∃ lhs rhs dst a b x y, m.Decodes (.arith .mul lhs rhs dst) ∧ opcode = .arith .mul ∧
      m.registers.held lhs = some a ∧ m.registers.held rhs = some b ∧
      a.unsigned = .ok x ∧ b.unsigned = .ok y ∧ 2 ^ 64 ≤ x.toNat * y.toNat
  | .exitCodeOutOfRange _ code => m.Decodes (.exit code) ∧ 2 ^ 31 ≤ code.toNat
  | .literal _ e => m.Misreads e
  | .memory _ => False

/-- Memory refuses words without tokens, so it holds none. -/
def HoldsWords (m : Machine) : Prop :=
  ∀ entry ∈ m.memory.entries, entry.2.isEmpty = false

theorem HoldsWords.first_ne_none {m : Machine} {addr : Address} {w : Word} (h : m.HoldsWords)
    (hw : m.memory.cells.get? addr = some w) : w.first? ≠ none := by
  have hne : w.isEmpty = false := h (addr, w) (Cells.mem_of_get? hw)
  intro hnone
  rw [Word.first?, List.head?_eq_none_iff] at hnone
  rw [Word.isEmpty, hnone] at hne
  cases hne

/-! ### Faults are true when they are raised -/

/-- The number in a token of no operation is none of the seven. -/
theorem not_mem_of_unknown {value : UInt64} (h : ∀ op : Opcode, op.value ≠ value) :
    value ∉ ([0, 1, 2, 3, 4, 5, 15] : List UInt64) := by
  intro hmem
  simp only [List.mem_cons, List.not_mem_nil, or_false] at hmem
  rcases hmem with rfl | rfl | rfl | rfl | rfl | rfl | rfl
  · exact h .mov rfl
  · exact h (.arith .add) rfl
  · exact h (.arith .sub) rfl
  · exact h (.arith .mul) rfl
  · exact h (.arith .div) rfl
  · exact h .out rfl
  · exact h .exit rfl

/-- The fault of a word that does not decode. -/
theorem explains_of_undecodable {m : Machine} {w : Word} {e : DecodeError} (hw : m.Fetches w)
    (hne : w.first? ≠ none) (h : w.Undecodable e) : m.Explains (.ofDecodeError m.cycle e) := by
  cases h with
  | emptyWord hempty => exact absurd hempty hne
  | opcode hfirst htoken => exact .inl ⟨w, _, hw, .inl hfirst, htoken⟩
  | unknown hfirst htoken hunknown =>
    exact ⟨w, _, hw, hfirst, htoken, not_mem_of_unknown hunknown⟩
  | arity hop harity => exact ⟨w, hw, hop, rfl, harity⟩
  | operand hop _ htoken he => exact .inl ⟨w, _, hw, .inr ⟨_, hop, htoken⟩, he⟩

/-- An operand below 2^64 has been read as such. -/
theorem unsigned_of_operand {op : ArithOp} {b : Bits} {x : Nat} (hop : op.isBounded = true)
    (h : op.operand b = .ok x) : ∃ v : UInt64, b.unsigned = .ok v ∧ v.toNat = x := by
  rw [ArithOp.operand_eq_unsigned hop] at h
  cases hb : b.unsigned with
  | error e =>
    rw [hb] at h
    cases h
  | ok v =>
    rw [hb] at h
    cases h
    exact ⟨v, rfl, rfl⟩

/-- The fault of an arithmetic operation that has no result: a quotient by zero, or a product
    that is too large. -/
theorem explains_of_combine {m : Machine} {op : ArithOp} {lhs rhs dst : UInt64} {a b : Bits}
    {x y : Nat} {f : Fault} (hi : m.Decodes (.arith op lhs rhs dst))
    (ha : m.registers.held lhs = some a) (hb : m.registers.held rhs = some b)
    (hx : op.operand a = .ok x) (hy : op.operand b = .ok y)
    (hf : op.combine m.cycle x y = .error f) : f.cycle? = some m.cycle ∧ m.Explains f := by
  cases op with
  | add | sub => cases hf
  | mul =>
    obtain ⟨u, hu, rfl⟩ := unsigned_of_operand rfl hx
    obtain ⟨v, hv, rfl⟩ := unsigned_of_operand rfl hy
    rw [ArithOp.combine] at hf
    split at hf
    · cases hf
    next hge =>
      cases hf
      exact ⟨rfl, lhs, rhs, dst, a, b, u, v, hi, rfl, ha, hb, hu, hv, Nat.le_of_not_lt hge⟩
  | div =>
    obtain ⟨v, hv, rfl⟩ := unsigned_of_operand rfl hy
    rw [ArithOp.combine] at hf
    split at hf
    next hzero =>
      cases hf
      have hv0 : v = 0 := UInt64.toNat_inj.mp hzero
      exact ⟨rfl, lhs, rhs, dst, b, hi, hb, hv0 ▸ hv⟩
    · cases hf

/-- The fault of an instruction that is refused. -/
theorem explains_of_refusal {m : Machine} {i : Instruction} {f : Fault} (hwords : m.HoldsWords)
    (hi : m.Decodes i) (h : m.Refusal i f) : f.cycle? = some m.cycle ∧ m.Explains f := by
  cases h with
  | register front hsplit hfront hindex =>
    exact ⟨rfl, i, hi, rfl, by simp [hsplit], rfl, hindex⟩
  | @address dst addr hdst haddr =>
    refine ⟨rfl, dst, hi, rfl, ?_⟩
    -- A word at the address would have had a first token.
    cases hw : m.memory.cells.get? addr with
    | none => rfl
    | some w =>
      rw [hw] at haddr
      exact absurd haddr (hwords.first_ne_none hw)
  | emptyLhs hlhs _ _ ha => exact ⟨rfl, _, _, _, _, hi, rfl, .inl rfl, hlhs, ha⟩
  | emptyRhs _ hrhs _ _ hb => exact ⟨rfl, _, _, _, _, hi, rfl, .inr rfl, hrhs, hb⟩
  | badLhs _ _ _ ha _ hx => exact ⟨rfl, .inr (.inl ⟨_, _, _, _, _, hi, .inl ha, hx⟩)⟩
  | badRhs _ _ _ _ hb _ hy => exact ⟨rfl, .inr (.inl ⟨_, _, _, _, _, hi, .inr hb, hy⟩)⟩
  | noResult _ _ _ ha hb hx hy hf => exact explains_of_combine hi ha hb hx hy hf
  | outValue _ hb he => exact ⟨rfl, .inr (.inr ⟨_, _, hi, hb, he⟩)⟩
  | exitCode hcode => exact ⟨rfl, hi, hcode⟩

/-- **A failing cycle raises a fault that is true.** -/
theorem explains_of_cycle {m m' : Machine} {f : Fault} (hwords : m.HoldsWords)
    (h : m.Cycle (.error f m')) : f.cycle? = some m.cycle ∧ m.Explains f := by
  cases h with
  | empty hslot => exact ⟨rfl, rfl, hslot⟩
  | @undecodable w e hslot hlong hdecode =>
    refine ⟨by cases e <;> rfl, ?_⟩
    exact explains_of_undecodable ⟨hslot, hlong⟩ (hwords.first_ne_none hslot)
      (Word.undecodable_of_decode hdecode)
  | refused hslot hlong hdecode hrefusal =>
    exact explains_of_refusal hwords ⟨_, ⟨hslot, hlong⟩, hdecode⟩ hrefusal

/-! ### Faults stay true -/

/-- The words of a machine are none without tokens, and its fault, if it has one, names its cycle
    and is true of it. -/
structure Truthful (m : Machine) : Prop where
  /-- Memory holds no word without tokens. -/
  words : m.HoldsWords
  /-- The fault is true. -/
  diagnosis : ∀ f, m.status = .faulted f → f.cycle? = some m.cycle ∧ m.Explains f

/-- **A step keeps faults true.** A failing cycle stops the machine that its fault was found in:
    nothing that the fault speaks of changes after the check. -/
theorem Truthful.step {m : Machine} (h : m.Truthful) : m.step.1.Truthful := by
  -- Memory is the same after the step.
  have hwords : m.step.1.HoldsWords := by
    intro entry hentry
    rw [m.keeps_step.memory] at hentry
    exact h.words entry hentry
  refine ⟨hwords, ?_⟩
  intro f hf
  by_cases hgo : m.GoesOn
  · rcases step_cases hgo with ⟨f', hcycle, hstep⟩ | ⟨m', executed, hcycle, hstep⟩
    · -- The fault is the one that has just been raised.
      rw [hstep] at hf ⊢
      cases hf
      exact explains_of_cycle (m := m.advance) h.words hcycle
    · rw [hstep] at hf
      exact absurd hf (hcycle.status_ne_faulted hgo.1 f)
  · -- A refused step keeps the fault and all that it speaks of.
    rw [step_of_not_goesOn hgo] at hf ⊢
    exact h.diagnosis f hf

theorem Truthful.after {m : Machine} (h : m.Truthful) (n : Nat) : (m.after n).Truthful := by
  induction n with
  | zero => exact h
  | succ n ih =>
    rw [after_succ_eq_step]
    exact ih.step

/-- What can be asked of a machine. -/
inductive Request where
  /-- One step. -/
  | step
  /-- A run to the end. -/
  | run
  /-- A run with a budget. -/
  | runLimited (budget : UInt64)
  /-- A new start with the same memory. -/
  | rewind

/-- The machine after a request, whether it succeeds or not. -/
def perform (m : Machine) : Request → Machine
  | .step => m.step.1
  | .run => m.run.1
  | .runLimited budget => (m.runLimited budget).1
  | .rewind => m.rewind

/-- The machine after a sequence of requests. -/
def performAll (m : Machine) (requests : List Request) : Machine :=
  requests.foldl perform m

theorem Truthful.perform {m : Machine} (h : m.Truthful) (r : Request) :
    (m.perform r).Truthful := by
  cases r with
  | step => exact h.step
  | run =>
    obtain ⟨n, hn⟩ := m.run_eq_after
    show m.run.1.Truthful
    rw [hn]
    exact h.after n
  | runLimited budget =>
    show (m.runLimited budget).1.Truthful
    rw [runLimited_eq_after]
    exact h.after _
  | rewind =>
    -- The machine runs again, so there is no fault to speak of.
    refine ⟨h.words, ?_⟩
    intro f hf
    cases hf

theorem Truthful.performAll {m : Machine} (h : m.Truthful) (requests : List Request) :
    (m.performAll requests).Truthful := by
  induction requests generalizing m with
  | nil => exact h
  | cons r rest ih => exact ih (h.perform r)

theorem truthful_withMemory {config : Config} {memory : Memory}
    (h : ∀ entry ∈ memory.entries, entry.2.isEmpty = false) :
    (withMemory config memory).Truthful :=
  ⟨h, fun _ hf => by cases hf⟩

/-- **Faults are truthful.** Whatever was asked of a machine, when a fault has stopped it, then
    the fault names the cycle that the machine is at and is true of the machine as it stands. -/
theorem fault_explains (config : Config) (memory : Memory) (requests : List Request)
    (f : Fault) (hwords : ∀ entry ∈ memory.entries, entry.2.isEmpty = false)
    (hf : ((withMemory config memory).performAll requests).status = .faulted f) :
    f.cycle? = some ((withMemory config memory).performAll requests).cycle ∧
      ((withMemory config memory).performAll requests).Explains f :=
  ((truthful_withMemory hwords).performAll requests).diagnosis f hf

/-- An ADD of a register that was never written, run, rewound and run again. -/
theorem fault_explains_unwritten :
    ∃ memory : Memory, (∀ entry ∈ memory.entries, entry.2.isEmpty = false) ∧
      ((withMemory {} memory).performAll [.step, .rewind, .step]).Explains
        (.emptyRegister 1 (.arith .add) 0) := by
  let memory : Memory :=
    { Memory.empty none with
      cells := Cells.empty.insert ⟨1⟩
        ⟨[⟨false, [true], List.cons_ne_nil _ _⟩, ⟨false, [false], List.cons_ne_nil _ _⟩,
          ⟨false, [false], List.cons_ne_nil _ _⟩, ⟨false, [false], List.cons_ne_nil _ _⟩]⟩ }
  have hwords : ∀ entry ∈ memory.entries, entry.2.isEmpty = false := by decide
  exact ⟨memory, hwords, (fault_explains {} memory _ _ hwords (by decide)).2⟩

end Machine

end BitMachine
