import BitMachine.Proofs.Stopping

namespace BitMachine

/-!
# Two cycles side by side

A cycle looks at little of its machine, and nothing else decides how it goes:

* `Machine.Reads` — the address whose word a cycle reads beside the fetched one;
* `Machine.SameView` — two machines in which a cycle looks at the same things;
* `Machine.SameChange` and `Machine.SameCycle` — two machines that are changed in the same way, and
  two cycles that go in the same way;
* `Machine.Effect.transfer`, `Machine.Refusal.transfer` — an instruction of one machine does the
  same in the other;
* `Machine.SameView.fetchAndExecute` — **cycles that look at the same things go in the same way**,
  unless the first machine lacks a register;
* `Machine.SameView.step` — what that means for a relation between two machines.
-/

/-- Whether a fault says that the machine does not have a register. -/
def Fault.isInvalidRegister : Fault → Bool
  | .invalidRegister .. => true
  | _ => false

/-- The first token of the word at an address. -/
def Memory.firstToken? (memory : Memory) (addr : Address) : Option Bits :=
  (memory.cells.get? addr).bind Word.first?

namespace Machine

/-- **The address that a cycle reads from** beside the slot that it fetches: that of a MOV whose
    destination exists. -/
def Reads (m : Machine) (addr : Address) : Prop :=
  ∃ dst, m.Decodes (.mov dst (.address addr)) ∧ dst.toNat < m.registers.count

/-- **Two machines in which a cycle looks at the same things.** The second one may have more
    registers. -/
structure SameView (m n : Machine) : Prop where
  /-- The cycle count. -/
  cycle : n.cycle = m.cycle
  /-- The length from which on a word is an instruction. -/
  minLength : n.config.minInstructionLength = m.config.minInstructionLength
  /-- The fetched word. -/
  word : n.memory.cells.get? ⟨m.cycle⟩ = m.memory.cells.get? ⟨m.cycle⟩
  /-- The registers that the instruction names. -/
  registers : ∀ i, m.Decodes i → ∀ r ∈ i.registers, r.toNat < m.registers.count →
    r.toNat < n.registers.count ∧ n.registers.held r = m.registers.held r
  /-- The token that a MOV reads. -/
  token : ∀ addr, m.Reads addr → n.memory.firstToken? addr = m.memory.firstToken? addr

/-- Two machines that are changed in the same way. -/
inductive SameChange (m n : Machine) : Machine → Machine → Prop
  /-- A register is written. -/
  | write (dst : UInt64) (value : Bits) (hdst : dst.toNat < m.registers.count) :
      SameChange m n (m.write dst value) (n.write dst value)
  /-- A value is emitted. -/
  | emit (value : Option Int) : SameChange m n (m.emit value) (n.emit value)
  /-- The machines halt. -/
  | halt (code : Nat) :
      SameChange m n { m with status := .halted code } { n with status := .halted code }

/-- Two cycles that go in the same way. -/
inductive SameCycle (m n : Machine) : EStateM.Result Fault Machine (Option Instruction) →
    EStateM.Result Fault Machine (Option Instruction) → Prop
  /-- Both fail with the same fault. -/
  | failed (f : Fault) : SameCycle m n (.error f m) (.error f n)
  /-- Both skip data. -/
  | skipped : SameCycle m n (.ok none m) (.ok none n)
  /-- Both execute the same instruction. -/
  | executed {m' n' : Machine} (i : Instruction) (hchange : SameChange m n m' n') :
      SameCycle m n (.ok (some i) { m' with lastInstruction := some i })
        (.ok (some i) { n' with lastInstruction := some i })

variable {m n m' : Machine} {i : Instruction} {f : Fault}

/-! ### One instruction in two machines -/

theorem SameView.fetches (h : m.SameView n) {w : Word} (hw : m.Fetches w) : n.Fetches w := by
  obtain ⟨hslot, hlong⟩ := hw
  refine ⟨?_, ?_⟩
  · rw [h.cycle, h.word]
    exact hslot
  · rw [h.minLength]
    exact hlong

/-- A MOV writes the same value, since it reads the same token. -/
theorem SameView.movValue (h : m.SameView n) {dst : UInt64} {src : MovSource} {value : Bits}
    (hi : m.Decodes (.mov dst src)) (hdst : dst.toNat < m.registers.count)
    (hvalue : m.movValue src = .ok value) : n.movValue src = .ok value := by
  cases src with
  | immediate v => exact hvalue
  | address addr =>
    have htoken := h.token addr ⟨dst, hi, hdst⟩
    unfold Memory.firstToken? at htoken
    rw [Machine.movValue] at hvalue ⊢
    rw [htoken, h.cycle]
    exact hvalue

/-- The operands of an arithmetic operation that exist in the first machine exist in the second
    one, and its sources hold the same. -/
theorem SameView.sources (h : m.SameView n) {op : ArithOp} {lhs rhs dst : UInt64}
    (hi : m.Decodes (.arith op lhs rhs dst)) (hlhs : lhs.toNat < m.registers.count)
    (hrhs : rhs.toNat < m.registers.count) (hdst : dst.toNat < m.registers.count) :
    lhs.toNat < n.registers.count ∧ n.registers.held lhs = m.registers.held lhs ∧
      rhs.toNat < n.registers.count ∧ n.registers.held rhs = m.registers.held rhs ∧
      dst.toNat < n.registers.count := by
  obtain ⟨hlhs', hheldl⟩ := h.registers _ hi lhs (by simp [Instruction.registers]) hlhs
  obtain ⟨hrhs', hheldr⟩ := h.registers _ hi rhs (by simp [Instruction.registers]) hrhs
  obtain ⟨hdst', -⟩ := h.registers _ hi dst (by simp [Instruction.registers]) hdst
  exact ⟨hlhs', hheldl, hrhs', hheldr, hdst'⟩

/-- **An effect in both machines.** Whatever the instruction looks at is the same, and so is the
    change that it makes. -/
theorem Effect.transfer (h : m.SameView n) (hi : m.Decodes i) (heffect : m.Effect i m') :
    ∃ n', n.Effect i n' ∧ m.SameChange n m' n' := by
  have hregs := h.registers i hi
  cases heffect with
  | @mov dst src value hdst hvalue =>
    obtain ⟨hdst', -⟩ := hregs dst (by simp [Instruction.registers]) hdst
    exact ⟨_, .mov hdst' (h.movValue hi hdst hvalue), .write dst value hdst⟩
  | @arith op lhs rhs dst a b x y v hlhs hrhs hdst ha hb hx hy hv =>
    obtain ⟨hlhs', hheldl, hrhs', hheldr, hdst'⟩ := h.sources hi hlhs hrhs hdst
    rw [← h.cycle] at hv
    exact ⟨_, .arith hlhs' hrhs' hdst' (hheldl.trans ha) (hheldr.trans hb) hx hy hv,
      .write dst (Bits.ofInt v) hdst⟩
  | @outEmpty src hsrc hb =>
    obtain ⟨hsrc', hheld⟩ := hregs src (by simp [Instruction.registers]) hsrc
    exact ⟨_, .outEmpty hsrc' (hheld.trans hb), .emit none⟩
  | @outValue src b v hsrc hb hv =>
    obtain ⟨hsrc', hheld⟩ := hregs src (by simp [Instruction.registers]) hsrc
    exact ⟨_, .outValue hsrc' (hheld.trans hb) hv, .emit (some v)⟩
  | @exit code hcode => exact ⟨_, .exit hcode, .halt code.toNat⟩

/-- **A refusal in both machines.** A register that the first machine lacks the second one may
    have, unless there are as many registers in both. -/
theorem Refusal.transfer (h : m.SameView n) (hi : m.Decodes i) (hrefusal : m.Refusal i f)
    (hf : f.isInvalidRegister = false ∨ n.registers.count = m.registers.count) :
    n.Refusal i f := by
  have hregs := h.registers i hi
  have hcycle := h.cycle
  cases hrefusal with
  | @register _ front rear index hsplit hfront hindex =>
    have hcount : n.registers.count = m.registers.count := by
      rcases hf with hf | hcount
      · cases hf
      · exact hcount
    rw [← hcycle, ← hcount]
    rw [← hcount] at hfront hindex
    exact .register front hsplit hfront hindex
  | @address dst addr hdst haddr =>
    obtain ⟨hdst', -⟩ := hregs dst (by simp [Instruction.registers]) hdst
    rw [← hcycle]
    exact .address hdst' ((h.token addr ⟨dst, hi, hdst⟩).trans haddr)
  | @emptyLhs op lhs rhs dst hlhs hrhs hdst ha =>
    obtain ⟨hlhs', hheldl, hrhs', -, hdst'⟩ := h.sources hi hlhs hrhs hdst
    rw [← hcycle]
    exact .emptyLhs hlhs' hrhs' hdst' (hheldl.trans ha)
  | @emptyRhs op lhs rhs dst a hlhs hrhs hdst ha hb =>
    obtain ⟨hlhs', hheldl, hrhs', hheldr, hdst'⟩ := h.sources hi hlhs hrhs hdst
    rw [← hcycle]
    exact .emptyRhs hlhs' hrhs' hdst' (hheldl.trans ha) (hheldr.trans hb)
  | @badLhs op lhs rhs dst a b e hlhs hrhs hdst ha hb hx =>
    obtain ⟨hlhs', hheldl, hrhs', hheldr, hdst'⟩ := h.sources hi hlhs hrhs hdst
    rw [← hcycle]
    exact .badLhs hlhs' hrhs' hdst' (hheldl.trans ha) (hheldr.trans hb) hx
  | @badRhs op lhs rhs dst a b x e hlhs hrhs hdst ha hb hx hy =>
    obtain ⟨hlhs', hheldl, hrhs', hheldr, hdst'⟩ := h.sources hi hlhs hrhs hdst
    rw [← hcycle]
    exact .badRhs hlhs' hrhs' hdst' (hheldl.trans ha) (hheldr.trans hb) hx hy
  | @noResult op lhs rhs dst a b x y f hlhs hrhs hdst ha hb hx hy hno =>
    obtain ⟨hlhs', hheldl, hrhs', hheldr, hdst'⟩ := h.sources hi hlhs hrhs hdst
    rw [← hcycle] at hno
    exact .noResult hlhs' hrhs' hdst' (hheldl.trans ha) (hheldr.trans hb) hx hy hno
  | @outValue src b e hsrc hb he =>
    obtain ⟨hsrc', hheld⟩ := hregs src (by simp [Instruction.registers]) hsrc
    rw [← hcycle]
    exact .outValue hsrc' (hheld.trans hb) he
  | exitCode hcode =>
    rw [← hcycle]
    exact .exitCode hcode

/-! ### One cycle in two machines -/

/-- **Cycles that look at the same things go in the same way.** The one exception is an instruction
    that names a register which the first machine does not have and the second one may have. -/
theorem SameView.fetchAndExecute (h : m.SameView n) :
    (n.registers.count ≠ m.registers.count ∧
        ∃ f, f.isInvalidRegister = true ∧ m.Cycle (.error f m)) ∨
      m.SameCycle n (Machine.fetchAndExecute.run m) (Machine.fetchAndExecute.run n) := by
  have hword := h.word
  rw [← h.cycle] at hword
  have hspec := m.cycle_spec
  generalize Machine.fetchAndExecute.run m = outcome at hspec ⊢
  -- The word that the second machine fetches is the one that the first has fetched.
  cases hspec with
  | empty hslot =>
    rw [h.cycle, hslot, ← h.cycle] at hword
    rw [(Cycle.empty hword).run_eq, h.cycle]
    exact .inr (.failed _)
  | @data w hslot hshort =>
    rw [h.cycle, hslot, ← h.cycle] at hword
    rw [← h.minLength] at hshort
    rw [(Cycle.data hword hshort).run_eq]
    exact .inr .skipped
  | @undecodable w e hslot hlong hdecode =>
    obtain ⟨hslot', hlong'⟩ := h.fetches ⟨hslot, hlong⟩
    rw [(Cycle.undecodable hslot' hlong' hdecode).run_eq, h.cycle]
    exact .inr (.failed _)
  | @refused w i f hslot hlong hdecode hrefusal =>
    by_cases hsame : f.isInvalidRegister = false ∨ n.registers.count = m.registers.count
    · obtain ⟨hslot', hlong'⟩ := h.fetches ⟨hslot, hlong⟩
      have hn := hrefusal.transfer h ⟨w, ⟨hslot, hlong⟩, hdecode⟩ hsame
      rw [(Cycle.refused hslot' hlong' hdecode hn).run_eq]
      exact .inr (.failed f)
    · rw [not_or, Bool.not_eq_false] at hsame
      exact .inl ⟨hsame.2, f, hsame.1, .refused hslot hlong hdecode hrefusal⟩
  | @executed w i m' hslot hlong hdecode heffect =>
    obtain ⟨hslot', hlong'⟩ := h.fetches ⟨hslot, hlong⟩
    obtain ⟨n', hn', hchange⟩ := heffect.transfer h ⟨w, ⟨hslot, hlong⟩, hdecode⟩
    rw [(Cycle.executed hslot' hlong' hdecode hn').run_eq]
    exact .inr (.executed i hchange)

/-- **A relation that survives every change survives the step**, when the two cycles look at the
    same things. -/
theorem SameView.step {R : Machine → Machine → Prop} (h : m.advance.SameView n.advance)
    (hm : m.GoesOn) (hn : n.GoesOn) (hskip : R m.advance n.advance)
    (hstop : ∀ f, R (m.advance.stopWith f) (n.advance.stopWith f))
    (hexecute : ∀ i m' n', m.advance.SameChange n.advance m' n' →
      R { m' with lastInstruction := some i } { n' with lastInstruction := some i }) :
    (n.registers.count ≠ m.registers.count ∧
        ∃ f, f.isInvalidRegister = true ∧ m.step.1.status = .faulted f) ∨
      R m.step.1 n.step.1 := by
  rcases h.fetchAndExecute with ⟨hcount, f, hf, hfail⟩ | hsame
  · left
    rw [hfail.step_eq_error hm]
    exact ⟨hcount, f, hf, rfl⟩
  · right
    rw [step_of_goesOn hm, step_of_goesOn hn]
    generalize Machine.fetchAndExecute.run m.advance = x at hsame ⊢
    generalize Machine.fetchAndExecute.run n.advance = y at hsame ⊢
    cases hsame with
    | failed f => exact hstop f
    | skipped => exact hskip
    | executed i hchange => exact hexecute i _ _ hchange

end Machine

end BitMachine
