import BitMachine.Proofs.Steps

namespace BitMachine

/-!
# The order of the checks

An instruction goes through its checks in a fixed order, and the first one that objects decides the
fault. Here every check is made on its own, whatever the others say:

* `Machine.objections` — what each check of an instruction has to object, in the order of the
  checks: first the ranges of all registers, then what the instruction needs beyond that;
* `Machine.Refusal.first`, `Machine.Effect.objects_nothing` — an instruction that is refused is
  refused for the first objection, and there is none to an instruction that has an effect;
* `Machine.execute_eq_error_iff_first` — so the first objection decides how an instruction goes;
* `Machine.step_reports_first` — **a step reports the first objection**.
-/

namespace Machine

variable {m m' : Machine} {i : Instruction} {f : Fault}

/-! ### The checks -/

/-- The fault of an outcome, if it is one. -/
def faultOf? {α : Type} : Except Fault α → Option Fault
  | .ok _ => none
  | .error f => some f

/-- **Range.** The operand names a register of the machine. -/
def rangeObjection (m : Machine) (opcode : Opcode) (index : UInt64) : Option Fault :=
  if index.toNat < m.registers.count then none
  else some (.invalidRegister m.cycle opcode index m.registers.count)

/-- **Source.** The register has been written. -/
def unwrittenObjection (m : Machine) (opcode : Opcode) (index : UInt64) : Option Fault :=
  match m.registers.held index with
  | some _ => none
  | none => some (.emptyRegister m.cycle opcode index)

/-- **Operand.** What the register holds, if anything, is acceptable to the operation. -/
def operandObjection (m : Machine) (op : ArithOp) (index : UInt64) : Option Fault :=
  (m.registers.held index).bind fun b => faultOf? (m.needs (op.operand b))

/-- **Result.** If both operands are there and acceptable, they have a result. -/
def resultObjection (m : Machine) (op : ArithOp) (lhs rhs : UInt64) : Option Fault := do
  let a ← m.registers.held lhs
  let b ← m.registers.held rhs
  let x ← (op.operand a).toOption
  let y ← (op.operand b).toOption
  faultOf? (op.combine m.cycle x y)

/-- **Address.** A MOV from an address finds a token there. -/
def addressObjection (m : Machine) : MovSource → Option Fault
  | .immediate _ => none
  | .address addr =>
    match (m.memory.cells.get? addr).bind Word.first? with
    | some _ => none
    | none => some (.invalidAddress m.cycle .mov addr)

/-- **Value.** What the register holds, if anything, can be emitted. -/
def valueObjection (m : Machine) (src : UInt64) : Option Fault :=
  (m.registers.held src).bind fun b => faultOf? (m.needs b.signed)

/-- **Exit code.** The code is below its limit. -/
def codeObjection (m : Machine) (code : UInt64) : Option Fault :=
  if code.toNat < exitCodeLimit then none else some (.exitCodeOutOfRange m.cycle code)

/-- What the checks after those of the ranges have to object. -/
def laterObjections (m : Machine) : Instruction → List (Option Fault)
  | .mov _ src => [m.addressObjection src]
  | .arith op lhs rhs _ =>
    [m.unwrittenObjection (.arith op) lhs, m.unwrittenObjection (.arith op) rhs,
      m.operandObjection op lhs, m.operandObjection op rhs, m.resultObjection op lhs rhs]
  | .out src => [m.valueObjection src]
  | .exit code => [m.codeObjection code]

/-- **What the checks of an instruction have to object**, in the order of the checks. -/
def objections (m : Machine) (i : Instruction) : List (Option Fault) :=
  i.registers.map (m.rangeObjection i.opcode) ++ m.laterObjections i

/-- The first objection to an instruction. -/
def firstObjection (m : Machine) (i : Instruction) : Option Fault :=
  (m.objections i).findSome? id

/-- It is the first one: the checks before it have nothing to object. -/
theorem firstObjection_eq_some_iff : m.firstObjection i = some f ↔
    ∃ front rear, m.objections i = front ++ some f :: rear ∧ ∀ o ∈ front, o = none := by
  unfold firstObjection
  rw [List.findSome?_eq_some_iff]
  simp only [id_eq]
  constructor
  · rintro ⟨front, o, rear, hsplit, rfl, hfront⟩
    exact ⟨front, rear, hsplit, hfront⟩
  · rintro ⟨front, rear, hsplit, hfront⟩
    exact ⟨front, some f, rear, hsplit, rfl, hfront⟩

/-- There is none if no check has anything to object. -/
theorem firstObjection_eq_none_iff :
    m.firstObjection i = none ↔ ∀ o ∈ m.objections i, o = none :=
  List.findSome?_eq_none_iff

/-- There is one if any check has something to object. -/
theorem exists_objection_iff :
    (∃ f, m.firstObjection i = some f) ↔ ∃ f, some f ∈ m.objections i := by
  rw [← Option.isSome_iff_exists, ← Option.ne_none_iff_isSome, Ne, firstObjection_eq_none_iff]
  simp [Option.ne_none_iff_exists']

/-! ### Registers in range -/

theorem rangeObjection_of_lt {opcode : Opcode} {index : UInt64}
    (h : index.toNat < m.registers.count) : m.rangeObjection opcode index = none :=
  if_pos h

theorem rangeObjection_of_le {opcode : Opcode} {index : UInt64}
    (h : m.registers.count ≤ index.toNat) :
    m.rangeObjection opcode index
      = some (.invalidRegister m.cycle opcode index m.registers.count) :=
  if_neg (Nat.not_lt.mpr h)

/-- Where all registers are in range, the later checks decide. -/
theorem firstObjection_of_lt (h : ∀ r ∈ i.registers, r.toNat < m.registers.count) :
    m.firstObjection i = (m.laterObjections i).findSome? id := by
  have hrange : (i.registers.map (m.rangeObjection i.opcode)).findSome? id = none := by
    rw [List.findSome?_map, List.findSome?_eq_none_iff]
    intro r hr
    exact rangeObjection_of_lt (h r hr)
  rw [firstObjection, objections, List.findSome?_append, hrange]
  rfl

theorem firstObjection_arith {op : ArithOp} {lhs rhs dst : UInt64}
    (hlhs : lhs.toNat < m.registers.count) (hrhs : rhs.toNat < m.registers.count)
    (hdst : dst.toNat < m.registers.count) :
    m.firstObjection (.arith op lhs rhs dst)
      = (m.laterObjections (.arith op lhs rhs dst)).findSome? id :=
  firstObjection_of_lt (by simp [Instruction.registers, hlhs, hrhs, hdst])

/-! ### The first objection decides -/

/-- **An instruction is refused for the first objection.** -/
theorem Refusal.first (h : m.Refusal i f) : m.firstObjection i = some f := by
  cases h with
  | @register _ front rear index hsplit hfront hindex =>
    -- The registers before it are in range, so their checks have nothing to object.
    have hbefore : ∀ o ∈ front.map (m.rangeObjection i.opcode), o = none :=
      List.forall_mem_map.mpr fun r hr => rangeObjection_of_lt (hfront r hr)
    have hobjections : m.objections i = front.map (m.rangeObjection i.opcode) ++
        some (.invalidRegister m.cycle i.opcode index m.registers.count) ::
          (rear.map (m.rangeObjection i.opcode) ++ m.laterObjections i) := by
      rw [objections, hsplit, List.map_append, List.map_cons, rangeObjection_of_le hindex,
        List.append_assoc, List.cons_append]
    exact firstObjection_eq_some_iff.mpr ⟨_, _, hobjections, hbefore⟩
  | address hdst haddr =>
    rw [firstObjection_of_lt (by simpa [Instruction.registers] using hdst)]
    simp [laterObjections, addressObjection, haddr]
  | emptyLhs hlhs hrhs hdst ha =>
    rw [firstObjection_arith hlhs hrhs hdst]
    simp [laterObjections, unwrittenObjection, ha]
  | emptyRhs hlhs hrhs hdst ha hb =>
    rw [firstObjection_arith hlhs hrhs hdst]
    simp [laterObjections, unwrittenObjection, ha, hb]
  | badLhs hlhs hrhs hdst ha hb hx =>
    rw [firstObjection_arith hlhs hrhs hdst]
    simp [laterObjections, unwrittenObjection, operandObjection, ha, hb, hx, faultOf?]
  | badRhs hlhs hrhs hdst ha hb hx hy =>
    rw [firstObjection_arith hlhs hrhs hdst]
    simp [laterObjections, unwrittenObjection, operandObjection, ha, hb, hx, hy, faultOf?]
  | noResult hlhs hrhs hdst ha hb hx hy hf =>
    rw [firstObjection_arith hlhs hrhs hdst]
    simp [laterObjections, unwrittenObjection, operandObjection, resultObjection, ha, hb, hx, hy,
      hf, faultOf?, Except.toOption]
  | outValue hsrc hb he =>
    rw [firstObjection_of_lt (by simpa [Instruction.registers] using hsrc)]
    simp [laterObjections, valueObjection, hb, he, faultOf?]
  | exitCode hcode =>
    rw [firstObjection_of_lt (by simp [Instruction.registers])]
    simp [laterObjections, codeObjection, Nat.not_lt.mpr hcode]

/-- **Nothing is objected** to an instruction that has an effect. -/
theorem Effect.objects_nothing (h : m.Effect i m') : m.firstObjection i = none := by
  cases h with
  | @mov dst src value hdst hvalue =>
    rw [firstObjection_of_lt (by simpa [Instruction.registers] using hdst)]
    cases src with
    | immediate => rfl
    | address addr =>
      cases htoken : (m.memory.cells.get? addr).bind Word.first? with
      | some token => simp [laterObjections, addressObjection, htoken]
      | none =>
        -- The MOV would not have had a value to write.
        rw [movValue, htoken] at hvalue
        cases hvalue
  | arith hlhs hrhs hdst ha hb hx hy hv =>
    rw [firstObjection_arith hlhs hrhs hdst]
    simp [laterObjections, unwrittenObjection, operandObjection, resultObjection, ha, hb, hx, hy,
      hv, faultOf?, Except.toOption]
  | outEmpty hsrc hb =>
    -- There is no value that could not be emitted.
    rw [firstObjection_of_lt (by simpa [Instruction.registers] using hsrc)]
    simp [laterObjections, valueObjection, hb]
  | outValue hsrc hb hv =>
    rw [firstObjection_of_lt (by simpa [Instruction.registers] using hsrc)]
    simp [laterObjections, valueObjection, hb, hv, faultOf?]
  | exit hcode =>
    rw [firstObjection_of_lt (by simp [Instruction.registers])]
    simp [laterObjections, codeObjection, hcode]

/-- **The first objection decides** how an instruction fails. -/
theorem execute_eq_error_iff_first :
    (execute i).run m = .error f m ↔ m.firstObjection i = some f := by
  constructor
  · intro h
    exact (execute_eq_error_iff.mp h).1.first
  · -- The instruction goes one way or the other, and only one of them leaves an objection.
    intro h
    rcases m.effect_or_refusal i with ⟨m', heffect⟩ | ⟨g, hrefusal⟩
    · cases heffect.objects_nothing.symm.trans h
    · cases hrefusal.first.symm.trans h
      exact hrefusal.execute_eq

/-! ### Steps -/

/-- **A step reports the first objection.** Where the next word decodes to an instruction and is not
    too short to be one, the step fails exactly if one of the checks objects, and it fails with the
    first objection. A word that is too short is data: it is skipped, and nothing is checked. -/
theorem step_reports_first {w : Word} (hgo : m.GoesOn)
    (hword : m.memory.cells.get? m.nextAddress = some w) (hdecode : Instruction.decode w = .ok i) :
    (w.size < m.config.minInstructionLength.toNat → m.step = (m.advance, .ok none)) ∧
    (m.config.minInstructionLength.toNat ≤ w.size →
      ((∃ f, m.step.2 = .error f) ↔ ∃ f, some f ∈ m.advance.objections i) ∧
      ∀ f, m.step = (m.advance.stopWith f, .error f) ↔
        ∃ front rear, m.advance.objections i = front ++ some f :: rear ∧
          ∀ o ∈ front, o = none) := by
  -- The slot that is fetched is the one of the cycle, once it has been counted.
  have hslot : m.advance.memory.cells.get? ⟨m.advance.cycle⟩ = some w := hword
  refine ⟨fun hshort => (Cycle.data hslot hshort).step_eq_ok hgo, fun hlong => ?_⟩
  simp only [← firstObjection_eq_some_iff, ← exists_objection_iff]
  rcases m.advance.effect_or_refusal i with ⟨m', heffect⟩ | ⟨g, hrefusal⟩
  · rw [(Cycle.executed hslot hlong hdecode heffect).step_eq_ok hgo, heffect.objects_nothing]
    simp
  · rw [(Cycle.refused hslot hlong hdecode hrefusal).step_eq_error hgo, hrefusal.first]
    simp

/-- A DIV with a negative dividend in register 0. Register 1 is the divisor and the destination and
    was never written, which is objected first. -/
theorem step_reports_first_empty :
    let negative : Bits := ⟨true, [true], List.cons_ne_nil _ _⟩
    let zero : Bits := ⟨false, [false], List.cons_ne_nil _ _⟩
    let one : Bits := ⟨false, [true], List.cons_ne_nil _ _⟩
    let four : Bits := ⟨false, [true, false, false], List.cons_ne_nil _ _⟩
    let w : Word := ⟨[four, zero, one, one]⟩
    let m := { (create {}).write 0 negative with
      memory := { Memory.empty none with cells := Cells.empty.insert ⟨1⟩ w } }
    let f : Fault := .emptyRegister 1 (.arith .div) 1
    m.GoesOn ∧ m.memory.cells.get? m.nextAddress = some w ∧
      Instruction.decode w = .ok (.arith .div 0 1 1) ∧
      m.config.minInstructionLength.toNat ≤ w.size ∧
      some (.literal 1 (.signed "-1")) ∈ m.advance.objections (.arith .div 0 1 1) ∧
      m.step = (m.advance.stopWith f, .error f) := by
  intro negative zero one four w m f
  have hgo : m.GoesOn := ⟨rfl, by decide⟩
  have hword : m.memory.cells.get? m.nextAddress = some w := rfl
  have hdecode : Instruction.decode w = .ok (.arith .div 0 1 1) := by decide
  have hlong : m.config.minInstructionLength.toNat ≤ w.size := by decide
  obtain ⟨-, hlongest⟩ := step_reports_first hgo hword hdecode
  obtain ⟨-, hfirst⟩ := hlongest hlong
  refine ⟨hgo, hword, hdecode, hlong, by decide, (hfirst f).mpr ?_⟩
  exact ⟨[none, none, none, none], [some (.literal 1 (.signed "-1")), none, none], by decide,
    by decide⟩

/-- Where instructions have five tokens at least, an ADD of register 9 of 8 is data: it is skipped,
    although one of its checks would object. -/
theorem step_skips_objectionable :
    let zero : Bits := ⟨false, [false], List.cons_ne_nil _ _⟩
    let one : Bits := ⟨false, [true], List.cons_ne_nil _ _⟩
    let nine : Bits := ⟨false, [true, false, false, true], List.cons_ne_nil _ _⟩
    let w : Word := ⟨[one, nine, zero, zero]⟩
    let m := withMemory { minInstructionLength := 5 }
      { Memory.empty none with cells := Cells.empty.insert ⟨1⟩ w }
    m.status = .running ∧ m.memory.cells.get? m.nextAddress = some w ∧
      Instruction.decode w = .ok (.arith .add 9 0 0) ∧
      m.advance.firstObjection (.arith .add 9 0 0)
        = some (.invalidRegister 1 (.arith .add) 9 8) ∧
      m.step = (m.advance, .ok none) := by
  refine ⟨rfl, rfl, by decide, by decide, rfl⟩

end Machine

end BitMachine
