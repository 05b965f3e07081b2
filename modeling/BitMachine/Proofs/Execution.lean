import BitMachine.Machine.Step
import BitMachine.Proofs.Results
import BitMachine.Proofs.Ripple

namespace BitMachine

/-!
# The effect of an instruction

What an instruction does, said once for all that follows:

* `ArithOp.operand`, `ArithOp.combine` and `Machine.compute_eq` — an arithmetic operation reads
  two numbers and has their exact sum, difference, product or quotient as its result;
* `Machine.Effect` — what an instruction that succeeds does to the machine;
* `Machine.Refusal` — why an instruction fails: the first check that does not pass, in the order
  of the checks;
* `Machine.execute_spec` — every instruction has an effect, or is refused before it has written
  anything;
* `Machine.execute_eq_ok_iff`, `Machine.execute_eq_error_iff` — these two decide its result and the
  machine that it leaves behind.
-/

/-! ### Operands -/

/-- The registers that an instruction names, in the order in which they are checked. -/
def Instruction.registers : Instruction → List UInt64
  | .mov dst _ => [dst]
  | .arith _ lhs rhs dst => [lhs, rhs, dst]
  | .out src => [src]
  | .exit _ => []

/-! ### Registers -/

namespace Registers

/-- What a register holds; a register that does not exist holds nothing. -/
def held (r : Registers) (index : UInt64) : Option Bits :=
  r.slots[index.toNat]?.join

theorem get_eq (r : Registers) (index : UInt64) :
    r.get index =
      if index.toNat < r.count then .ok (r.held index) else .error ⟨index, r.count⟩ := by
  unfold get validate
  split <;> rfl

theorem held_of_count_le {r : Registers} {index : UInt64} (h : r.count ≤ index.toNat) :
    r.held index = none := by
  unfold held
  rw [List.getElem?_eq_none h]
  rfl

theorem held_blank (count : Nat) (index : UInt64) : (blank count).held index = none := by
  unfold held blank
  rw [List.getElem?_replicate]
  split <;> rfl

/-- A write changes no number of registers, whether it succeeds or not. -/
theorem count_set (r : Registers) (index : UInt64) (value : Bits) :
    (r.set index value).1.count = r.count := by
  unfold set
  split
  · rfl
  · exact List.length_set

end Registers

/-! ### Arithmetic -/

namespace ArithOp

/-- Whether an operation takes operands below 2^64 only. -/
def isBounded : ArithOp → Bool
  | .add | .sub => false
  | .mul | .div => true

/-- The number that an operation reads from a bit-string, or what makes it refuse it. -/
def operand (op : ArithOp) (b : Bits) : Except LiteralError Nat :=
  if b.negative then .error (.signed b.text)
  else if op.isBounded ∧ UInt64.size ≤ b.magnitude then .error (.overflow b.text)
  else .ok b.magnitude

/-- The result of an operation on two numbers, or the fault that it ends in. -/
def combine (cycle : UInt64) (x y : Nat) : ArithOp → Except Fault Int
  | .add => .ok (x + y)
  | .sub => .ok (x - y)
  | .mul =>
    if x * y < UInt64.size then .ok (x * y : Nat) else .error (.overflow cycle (.arith .mul))
  | .div => if y = 0 then .error (.divisionByZero cycle) else .ok (x / y : Nat)

theorem operand_eq_unsigned {op : ArithOp} (h : op.isBounded = true) (b : Bits) :
    op.operand b = b.unsigned.map UInt64.toNat := by
  unfold operand Bits.unsigned
  by_cases hlt : b.magnitude < UInt64.size
  · have hge : ¬ UInt64.size ≤ b.magnitude := by omega
    cases b.negative <;> simp [h, hlt, hge, Except.map]
  · have hge : UInt64.size ≤ b.magnitude := by omega
    cases b.negative <;> simp [h, hlt, hge, Except.map]

theorem operand_eq_unsignedDigits {op : ArithOp} (h : op.isBounded = false) (b : Bits) :
    op.operand b = b.unsignedDigits.map digitsValue := by
  unfold operand Bits.unsignedDigits
  cases b.negative <;> simp [h, Except.map, Bits.magnitude]

end ArithOp

namespace Machine

/-- **Exact arithmetic.** An operation reads the left operand, then the right one, and its
    result is the bit-string of the exact integer. -/
theorem compute_eq (m : Machine) (op : ArithOp) (a b : Bits) :
    m.compute op a b = do
      let x ← m.needs (op.operand a)
      let y ← m.needs (op.operand b)
      return Bits.ofInt (← op.combine m.cycle x y) := by
  cases op with
  | add | sub =>
    -- Sums and differences work on the digits, products and quotients on 64-bit numbers.
    rw [ArithOp.operand_eq_unsignedDigits rfl, ArithOp.operand_eq_unsignedDigits rfl]
    unfold compute Bits.add Bits.sub
    cases a.unsignedDigits with
    | error e => rfl
    | ok x =>
      cases b.unsignedDigits with
      | error e => rfl
      | ok y =>
        simp [needs, mapError_ok, bind, Except.bind, pure, Except.pure, Except.map,
          ArithOp.combine, Bits.sumOf_eq_ofInt, Bits.differenceOf_eq_ofInt]
  | mul =>
    rw [ArithOp.operand_eq_unsigned rfl, ArithOp.operand_eq_unsigned rfl]
    unfold compute
    cases a.unsigned with
    | error e => rfl
    | ok x =>
      cases b.unsigned with
      | error e => rfl
      | ok y =>
        simp only [needs, mapError_ok, bind, Except.bind, pure, Except.pure, Except.map,
          ArithOp.combine, Bits.ofNat_eq_ofInt]
        split <;> rfl
  | div =>
    rw [ArithOp.operand_eq_unsigned rfl, ArithOp.operand_eq_unsigned rfl]
    unfold compute
    cases a.unsigned with
    | error e => rfl
    | ok x =>
      cases b.unsigned with
      | error e => rfl
      | ok y =>
        have hy : y = 0 ↔ y.toNat = 0 := by
          rw [← UInt64.toNat_inj]
          rfl
        simp only [needs, mapError_ok, bind, Except.bind, pure, Except.pure, Except.map,
          ArithOp.combine, Bits.ofNat_eq_ofInt, hy]
        split <;> rfl

/-! ### Checks and accesses -/

/-- The machine with a value written to a register. -/
def write (m : Machine) (index : UInt64) (value : Bits) : Machine :=
  { m with registers := ⟨m.registers.slots.set index.toNat (some value)⟩ }

/-- The machine with a value emitted. -/
def emit (m : Machine) (value : Option Int) : Machine :=
  { m with serial := m.serial.emit value }

@[simp] theorem needs_ok {α : Type} (m : Machine) (value : α) :
    m.needs (.ok value) = .ok value := rfl

@[simp] theorem needs_error {α : Type} (m : Machine) (e : LiteralError) :
    m.needs (.error e : Except LiteralError α) = .error (.literal m.cycle e) := rfl

theorem checkRegister_eq (m : Machine) (opcode : Opcode) (index : UInt64) :
    m.checkRegister opcode index
      = if index.toNat < m.registers.count then .ok ()
        else .error (.invalidRegister m.cycle opcode index m.registers.count) := by
  unfold checkRegister Registers.validate
  by_cases h : index.toNat < m.registers.count
  · rw [if_pos h, if_pos h]
  · rw [if_neg h, if_neg h]

theorem checkRegister_of_lt (m : Machine) (opcode : Opcode) {index : UInt64}
    (h : index.toNat < m.registers.count) : m.checkRegister opcode index = .ok () := by
  rw [checkRegister_eq, if_pos h]

theorem checkRegister_of_le (m : Machine) (opcode : Opcode) {index : UInt64}
    (h : m.registers.count ≤ index.toNat) : m.checkRegister opcode index
      = .error (.invalidRegister m.cycle opcode index m.registers.count) := by
  rw [checkRegister_eq, if_neg (Nat.not_lt.mpr h)]

theorem readSource_eq (m : Machine) (opcode : Opcode) (index : UInt64) :
    m.readSource opcode index
      = match m.registers.held index with
        | some value => .ok value
        | none => .error (.emptyRegister m.cycle opcode index) := by
  unfold readSource
  rw [Registers.get_eq]
  by_cases h : index.toNat < m.registers.count
  · rw [if_pos h]
    cases m.registers.held index <;> rfl
  · rw [if_neg h, Registers.held_of_count_le (by omega)]

theorem outValue_eq (m : Machine) {src : UInt64} (h : src.toNat < m.registers.count) :
    m.outValue src
      = match m.registers.held src with
        | some b => (m.needs b.signed).map some
        | none => .ok none := by
  unfold outValue
  rw [Registers.get_eq, if_pos h]
  cases m.registers.held src <;> rfl

theorem exitValue_of_lt (m : Machine) {code : UInt64} (h : code.toNat < exitCodeLimit) :
    m.exitValue code = .ok code.toNat :=
  if_pos h

theorem exitValue_of_le (m : Machine) {code : UInt64} (h : exitCodeLimit ≤ code.toNat) :
    m.exitValue code = .error (.exitCodeOutOfRange m.cycle code) :=
  if_neg (Nat.not_lt.mpr h)

/-! ### Actions -/

section Actions

variable {m : Machine} {α β : Type} {read : Machine → Except Fault α} {rest : α → Action β}

/-- What is read is passed on, and the machine stays. -/
theorem run_reading_bind_of_ok {a : α} (h : read m = .ok a) :
    (reading read >>= rest).run m = (rest a).run m := by
  show EStateM.run (ofExcept (read m) >>= rest) m = _
  rw [h]
  rfl

/-- A fault in reading ends the action, and the machine stays. -/
theorem run_reading_bind_of_error {f : Fault} (h : read m = .error f) :
    (reading read >>= rest).run m = .error f m := by
  show EStateM.run (ofExcept (read m) >>= rest) m = _
  rw [h]
  rfl

theorem outcome_reading_bind (m : Machine) (read : Machine → Except Fault α)
    (rest : α → Action β) : outcome ((reading read >>= rest).run m)
      = read m >>= fun a => outcome ((rest a).run m) := by
  cases h : read m with
  | ok a => rw [run_reading_bind_of_ok h, ok_bind]
  | error f => rw [run_reading_bind_of_error h, error_bind, outcome]

/-- A write to a register that exists. -/
theorem run_store_of_lt {opcode : Opcode} {index : UInt64} (value : Bits)
    (h : index.toNat < m.registers.count) :
    (store opcode index value).run m = .ok () (m.write index value) := by
  have hset : m.registers.set index value
      = (⟨m.registers.slots.set index.toNat (some value)⟩, .ok ()) := by
    rw [Registers.set, Registers.validate, if_pos h]
  simp only [store, EStateM.run_bind, EStateM.run_get, EStateM.run_set, hset]
  rfl

end Actions

/-! ### Instructions that succeed -/

/-- What a successful instruction does: all of its checks pass, and it writes one register, emits
    one value or halts the machine. -/
inductive Effect (m : Machine) : Instruction → Machine → Prop
  /-- A MOV writes its value. -/
  | mov {dst : UInt64} {src : MovSource} {value : Bits} (hdst : dst.toNat < m.registers.count)
      (hvalue : m.movValue src = .ok value) : Effect m (.mov dst src) (m.write dst value)
  /-- An arithmetic operation writes its result. -/
  | arith {op : ArithOp} {lhs rhs dst : UInt64} {a b : Bits} {x y : Nat} {v : Int}
      (hlhs : lhs.toNat < m.registers.count) (hrhs : rhs.toNat < m.registers.count)
      (hdst : dst.toNat < m.registers.count) (ha : m.registers.held lhs = some a)
      (hb : m.registers.held rhs = some b) (hx : op.operand a = .ok x)
      (hy : op.operand b = .ok y) (hv : op.combine m.cycle x y = .ok v) :
      Effect m (.arith op lhs rhs dst) (m.write dst (Bits.ofInt v))
  /-- An OUT of a register that was never written emits nothing. -/
  | outEmpty {src : UInt64} (hsrc : src.toNat < m.registers.count)
      (hb : m.registers.held src = none) : Effect m (.out src) (m.emit none)
  /-- An OUT emits the value of its register. -/
  | outValue {src : UInt64} {b : Bits} {v : Int} (hsrc : src.toNat < m.registers.count)
      (hb : m.registers.held src = some b) (hv : b.signed = .ok v) :
      Effect m (.out src) (m.emit (some v))
  /-- An EXIT halts the machine. -/
  | exit {code : UInt64} (hcode : code.toNat < exitCodeLimit) :
      Effect m (.exit code) { m with status := .halted code.toNat }

/-- Why an instruction fails: the first check that does not pass, in the order of the checks. -/
inductive Refusal (m : Machine) : Instruction → Fault → Prop
  /-- A register operand names no register, and the operands before it do. -/
  | register {i : Instruction} (front : List UInt64) {rear : List UInt64} {index : UInt64}
      (hsplit : i.registers = front ++ index :: rear)
      (hfront : ∀ r ∈ front, r.toNat < m.registers.count)
      (hindex : m.registers.count ≤ index.toNat) :
      Refusal m i (.invalidRegister m.cycle i.opcode index m.registers.count)
  /-- A MOV reads from an address that holds nothing. -/
  | address {dst : UInt64} {addr : Address} (hdst : dst.toNat < m.registers.count)
      (haddr : (m.memory.cells.get? addr).bind Word.first? = none) :
      Refusal m (.mov dst (.address addr)) (.invalidAddress m.cycle .mov addr)
  /-- The left source of an arithmetic operation was never written. -/
  | emptyLhs {op : ArithOp} {lhs rhs dst : UInt64} (hlhs : lhs.toNat < m.registers.count)
      (hrhs : rhs.toNat < m.registers.count) (hdst : dst.toNat < m.registers.count)
      (ha : m.registers.held lhs = none) :
      Refusal m (.arith op lhs rhs dst) (.emptyRegister m.cycle (.arith op) lhs)
  /-- The right source of an arithmetic operation was never written. -/
  | emptyRhs {op : ArithOp} {lhs rhs dst : UInt64} {a : Bits}
      (hlhs : lhs.toNat < m.registers.count) (hrhs : rhs.toNat < m.registers.count)
      (hdst : dst.toNat < m.registers.count) (ha : m.registers.held lhs = some a)
      (hb : m.registers.held rhs = none) :
      Refusal m (.arith op lhs rhs dst) (.emptyRegister m.cycle (.arith op) rhs)
  /-- The left source of an arithmetic operation is not acceptable. -/
  | badLhs {op : ArithOp} {lhs rhs dst : UInt64} {a b : Bits} {e : LiteralError}
      (hlhs : lhs.toNat < m.registers.count) (hrhs : rhs.toNat < m.registers.count)
      (hdst : dst.toNat < m.registers.count) (ha : m.registers.held lhs = some a)
      (hb : m.registers.held rhs = some b) (hx : op.operand a = .error e) :
      Refusal m (.arith op lhs rhs dst) (.literal m.cycle e)
  /-- The right source of an arithmetic operation is not acceptable. -/
  | badRhs {op : ArithOp} {lhs rhs dst : UInt64} {a b : Bits} {x : Nat} {e : LiteralError}
      (hlhs : lhs.toNat < m.registers.count) (hrhs : rhs.toNat < m.registers.count)
      (hdst : dst.toNat < m.registers.count) (ha : m.registers.held lhs = some a)
      (hb : m.registers.held rhs = some b) (hx : op.operand a = .ok x)
      (hy : op.operand b = .error e) : Refusal m (.arith op lhs rhs dst) (.literal m.cycle e)
  /-- An arithmetic operation has no result. -/
  | noResult {op : ArithOp} {lhs rhs dst : UInt64} {a b : Bits} {x y : Nat} {f : Fault}
      (hlhs : lhs.toNat < m.registers.count) (hrhs : rhs.toNat < m.registers.count)
      (hdst : dst.toNat < m.registers.count) (ha : m.registers.held lhs = some a)
      (hb : m.registers.held rhs = some b) (hx : op.operand a = .ok x)
      (hy : op.operand b = .ok y) (hf : op.combine m.cycle x y = .error f) :
      Refusal m (.arith op lhs rhs dst) f
  /-- An OUT cannot emit the value of its register. -/
  | outValue {src : UInt64} {b : Bits} {e : LiteralError} (hsrc : src.toNat < m.registers.count)
      (hb : m.registers.held src = some b) (he : b.signed = .error e) :
      Refusal m (.out src) (.literal m.cycle e)
  /-- The code of an EXIT is too large. -/
  | exitCode {code : UInt64} (hcode : exitCodeLimit ≤ code.toNat) :
      Refusal m (.exit code) (.exitCodeOutOfRange m.cycle code)

/-! ### The two ways of an instruction -/

/-- The registers of a list all exist, or there is a first one that does not. -/
theorem all_or_first_missing (m : Machine) (indices : List UInt64) :
    (∀ r ∈ indices, r.toNat < m.registers.count) ∨
      ∃ front index rear, indices = front ++ index :: rear ∧
        (∀ r ∈ front, r.toNat < m.registers.count) ∧ m.registers.count ≤ index.toNat := by
  induction indices with
  | nil => exact .inl nofun
  | cons r rest ih =>
    by_cases hr : r.toNat < m.registers.count
    · rcases ih with hall | ⟨front, index, rear, rfl, hfront, hindex⟩
      · exact .inl (List.forall_mem_cons.mpr ⟨hr, hall⟩)
      · exact .inr ⟨r :: front, index, rear, rfl, List.forall_mem_cons.mpr ⟨hr, hfront⟩, hindex⟩
    · exact .inr ⟨[], r, rest, rfl, nofun, Nat.le_of_not_lt hr⟩

/-- An arithmetic operation whose operands all name registers. The cases follow the reads and the
    checks of the values, in their order. -/
theorem effect_or_refusal_arith {m : Machine} {op : ArithOp} {lhs rhs dst : UInt64}
    (hlhs : lhs.toNat < m.registers.count) (hrhs : rhs.toNat < m.registers.count)
    (hdst : dst.toNat < m.registers.count) :
    (∃ m', m.Effect (.arith op lhs rhs dst) m') ∨ ∃ f, m.Refusal (.arith op lhs rhs dst) f := by
  cases ha : m.registers.held lhs with
  | none => exact .inr ⟨_, .emptyLhs hlhs hrhs hdst ha⟩
  | some a =>
  cases hb : m.registers.held rhs with
  | none => exact .inr ⟨_, .emptyRhs hlhs hrhs hdst ha hb⟩
  | some b =>
  cases hx : op.operand a with
  | error e => exact .inr ⟨_, .badLhs hlhs hrhs hdst ha hb hx⟩
  | ok x =>
  cases hy : op.operand b with
  | error e => exact .inr ⟨_, .badRhs hlhs hrhs hdst ha hb hx hy⟩
  | ok y =>
  cases hv : op.combine m.cycle x y with
  | error f => exact .inr ⟨_, .noResult hlhs hrhs hdst ha hb hx hy hv⟩
  | ok v => exact .inl ⟨_, .arith hlhs hrhs hdst ha hb hx hy hv⟩

/-- **Every instruction has an effect or is refused.** -/
theorem effect_or_refusal (m : Machine) (i : Instruction) :
    (∃ m', m.Effect i m') ∨ ∃ f, m.Refusal i f := by
  rcases m.all_or_first_missing i.registers with hall | ⟨front, index, rear, hsplit, hfront, hindex⟩
  · cases i with
    | mov dst src =>
      have hdst := hall dst (by simp [Instruction.registers])
      cases src with
      | immediate value => exact .inl ⟨_, .mov hdst rfl⟩
      | address addr =>
        cases htoken : (m.memory.cells.get? addr).bind Word.first? with
        | none => exact .inr ⟨_, .address hdst htoken⟩
        | some value =>
          have hvalue : m.movValue (.address addr) = .ok value := by simp only [movValue, htoken]
          exact .inl ⟨_, .mov hdst hvalue⟩
    | arith op lhs rhs dst =>
      simp only [Instruction.registers, List.forall_mem_cons] at hall
      exact effect_or_refusal_arith hall.1 hall.2.1 hall.2.2.1
    | out src =>
      have hsrc := hall src (by simp [Instruction.registers])
      cases hb : m.registers.held src with
      | none => exact .inl ⟨_, .outEmpty hsrc hb⟩
      | some b =>
        cases hv : b.signed with
        | error e => exact .inr ⟨_, .outValue hsrc hb hv⟩
        | ok v => exact .inl ⟨_, .outValue hsrc hb hv⟩
    | exit code =>
      by_cases hcode : code.toNat < exitCodeLimit
      · exact .inl ⟨_, .exit hcode⟩
      · exact .inr ⟨_, .exitCode (Nat.le_of_not_lt hcode)⟩
  · exact .inr ⟨_, .register front hsplit hfront hindex⟩

/-! ### Instructions as relations -/

section

variable {m m' : Machine} {i : Instruction} {f : Fault}

/-- The sources of an operation whose operands all name registers. -/
theorem readSources_of_lt {opcode : Opcode} {lhs rhs dst : UInt64}
    (hlhs : lhs.toNat < m.registers.count) (hrhs : rhs.toNat < m.registers.count)
    (hdst : dst.toNat < m.registers.count) :
    m.readSources opcode lhs rhs dst = do
      let a ← m.readSource opcode lhs
      let b ← m.readSource opcode rhs
      return (a, b) := by
  simp only [readSources, checkRegister_eq, if_pos hlhs, if_pos hrhs, if_pos hdst, ok_bind]

/-- The sources of an operation that reads two values. -/
theorem readSources_of_held {opcode : Opcode} {lhs rhs dst : UInt64} {a b : Bits}
    (hlhs : lhs.toNat < m.registers.count) (hrhs : rhs.toNat < m.registers.count)
    (hdst : dst.toNat < m.registers.count) (ha : m.registers.held lhs = some a)
    (hb : m.registers.held rhs = some b) : m.readSources opcode lhs rhs dst = .ok (a, b) := by
  rw [readSources_of_lt hlhs hrhs hdst, readSource_eq, readSource_eq, ha, hb]
  rfl

/-- **An effect is what the instruction does.** -/
theorem Effect.execute_eq (h : m.Effect i m') : (execute i).run m = .ok () m' := by
  cases h with
  | @mov dst src value hdst hvalue =>
    rw [execute, run_reading_bind_of_ok (m.checkRegister_of_lt .mov hdst),
      run_reading_bind_of_ok hvalue, run_store_of_lt value hdst]
  | @arith op lhs rhs dst a b x y v hlhs hrhs hdst ha hb hx hy hv =>
    have hcompute : m.compute op a b = .ok (Bits.ofInt v) := by
      simp only [compute_eq, hx, hy, hv, needs_ok, ok_bind]
      rfl
    rw [execute, run_reading_bind_of_ok (readSources_of_held hlhs hrhs hdst ha hb),
      run_reading_bind_of_ok hcompute, run_store_of_lt _ hdst]
  | @outEmpty src hsrc hb =>
    have hvalue : m.outValue src = .ok none := by rw [outValue_eq m hsrc, hb]
    rw [execute, run_reading_bind_of_ok (m.checkRegister_of_lt .out hsrc),
      run_reading_bind_of_ok hvalue]
    rfl
  | @outValue src b v hsrc hb hv =>
    have hvalue : m.outValue src = .ok (some v) := by
      rw [outValue_eq m hsrc, hb]
      simp only [hv, needs_ok, Except.map]
    rw [execute, run_reading_bind_of_ok (m.checkRegister_of_lt .out hsrc),
      run_reading_bind_of_ok hvalue]
    rfl
  | exit hcode =>
    rw [execute, run_reading_bind_of_ok (m.exitValue_of_lt hcode)]
    rfl

/-- The registers of an instruction are checked one after the other, before anything else. -/
theorem execute_of_register {front rear : List UInt64} {index : UInt64}
    (hsplit : i.registers = front ++ index :: rear)
    (hfront : ∀ r ∈ front, r.toNat < m.registers.count)
    (hindex : m.registers.count ≤ index.toNat) :
    (execute i).run m = .error (.invalidRegister m.cycle i.opcode index m.registers.count) m := by
  have hbad (op : Opcode) := m.checkRegister_of_le op hindex
  have hgood (op : Opcode) (r : UInt64) (hr : r ∈ front) := m.checkRegister_of_lt op (hfront r hr)
  cases i with
  | mov dst src =>
    obtain ⟨rfl, h⟩ | ⟨front, rfl, h⟩ := List.cons_eq_append_iff.mp hsplit
    · cases h
      exact run_reading_bind_of_error (hbad .mov)
    · simp at h
  | arith op lhs rhs dst =>
    refine run_reading_bind_of_error ?_
    obtain ⟨rfl, hl⟩ | ⟨front₁, rfl, hl⟩ := List.cons_eq_append_iff.mp hsplit
    · cases hl
      simp only [readSources, hbad, error_bind]
      rfl
    obtain ⟨rfl, hr⟩ | ⟨front₂, rfl, hr⟩ := List.cons_eq_append_iff.mp hl
    · cases hr
      simp only [readSources, hgood _ lhs (by simp), hbad, ok_bind, error_bind]
      rfl
    obtain ⟨rfl, hd⟩ | ⟨front₃, rfl, hd⟩ := List.cons_eq_append_iff.mp hr
    · cases hd
      simp only [readSources, hgood _ lhs (by simp), hgood _ rhs (by simp), hbad, ok_bind,
        error_bind]
      rfl
    · simp at hd
  | out src =>
    obtain ⟨rfl, h⟩ | ⟨front, rfl, h⟩ := List.cons_eq_append_iff.mp hsplit
    · cases h
      exact run_reading_bind_of_error (hbad .out)
    · simp at h
  | exit code => simp [Instruction.registers] at hsplit

/-- A fault in the values of an arithmetic operation. -/
theorem execute_arith_of_compute {op : ArithOp} {lhs rhs dst : UInt64} {a b : Bits}
    (hlhs : lhs.toNat < m.registers.count) (hrhs : rhs.toNat < m.registers.count)
    (hdst : dst.toNat < m.registers.count) (ha : m.registers.held lhs = some a)
    (hb : m.registers.held rhs = some b) (hf : m.compute op a b = .error f) :
    (execute (.arith op lhs rhs dst)).run m = .error f m := by
  rw [execute, run_reading_bind_of_ok (readSources_of_held hlhs hrhs hdst ha hb),
    run_reading_bind_of_error hf]

/-- **A refusal ends the instruction before it has written anything.** All that comes before it are
    checks and reads. -/
theorem Refusal.execute_eq (h : m.Refusal i f) : (execute i).run m = .error f m := by
  cases h with
  | register front hsplit hfront hindex => exact execute_of_register hsplit hfront hindex
  | @address dst addr hdst haddr =>
    have hvalue : m.movValue (.address addr) = .error (.invalidAddress m.cycle .mov addr) := by
      simp only [movValue, haddr]
    rw [execute, run_reading_bind_of_ok (m.checkRegister_of_lt .mov hdst),
      run_reading_bind_of_error hvalue]
  | emptyLhs hlhs hrhs hdst ha =>
    refine run_reading_bind_of_error ?_
    rw [readSources_of_lt hlhs hrhs hdst, readSource_eq, ha]
    rfl
  | emptyRhs hlhs hrhs hdst ha hb =>
    refine run_reading_bind_of_error ?_
    rw [readSources_of_lt hlhs hrhs hdst, readSource_eq, readSource_eq, ha, hb]
    rfl
  | badLhs hlhs hrhs hdst ha hb hx =>
    refine execute_arith_of_compute hlhs hrhs hdst ha hb ?_
    simp only [compute_eq, hx, needs_error, error_bind]
  | badRhs hlhs hrhs hdst ha hb hx hy =>
    refine execute_arith_of_compute hlhs hrhs hdst ha hb ?_
    simp only [compute_eq, hx, hy, needs_ok, needs_error, ok_bind, error_bind]
  | noResult hlhs hrhs hdst ha hb hx hy hf =>
    refine execute_arith_of_compute hlhs hrhs hdst ha hb ?_
    simp only [compute_eq, hx, hy, hf, needs_ok, ok_bind, error_bind]
  | @outValue src b e hsrc hb he =>
    have hvalue : m.outValue src = .error (.literal m.cycle e) := by
      rw [outValue_eq m hsrc, hb]
      simp only [he, needs_error, Except.map]
    rw [execute, run_reading_bind_of_ok (m.checkRegister_of_lt .out hsrc),
      run_reading_bind_of_error hvalue]
  | exitCode hcode => exact run_reading_bind_of_error (m.exitValue_of_le hcode)

/-- How an instruction goes. -/
inductive Executes (m : Machine) (i : Instruction) : EStateM.Result Fault Machine Unit → Prop
  /-- It succeeds with an effect. -/
  | effect {m' : Machine} (h : m.Effect i m') : Executes m i (.ok () m')
  /-- It is refused, and leaves the machine as it was. -/
  | refusal {f : Fault} (h : m.Refusal i f) : Executes m i (.error f m)

/-- **An instruction goes in one of two ways.** -/
theorem execute_spec (m : Machine) (i : Instruction) : m.Executes i ((execute i).run m) := by
  rcases m.effect_or_refusal i with ⟨m', heffect⟩ | ⟨f, hrefusal⟩
  · rw [heffect.execute_eq]
    exact .effect heffect
  · rw [hrefusal.execute_eq]
    exact .refusal hrefusal

/-- **An instruction succeeds** exactly with an effect. -/
theorem execute_eq_ok_iff : (execute i).run m = .ok () m' ↔ m.Effect i m' := by
  refine ⟨fun h => ?_, Effect.execute_eq⟩
  have hspec := m.execute_spec i
  rw [h] at hspec
  cases hspec with
  | effect heffect => exact heffect

/-- **An instruction fails** exactly with a refusal, and has changed nothing by then. -/
theorem execute_eq_error_iff : (execute i).run m = .error f m' ↔ m.Refusal i f ∧ m' = m := by
  constructor
  · intro h
    have hspec := m.execute_spec i
    rw [h] at hspec
    cases hspec with
    | refusal hrefusal => exact ⟨hrefusal, rfl⟩
  · rintro ⟨hrefusal, rfl⟩
    exact hrefusal.execute_eq

end

end Machine

end BitMachine
