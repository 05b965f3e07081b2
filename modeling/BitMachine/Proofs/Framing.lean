import BitMachine.Proofs.Diagnosis

namespace BitMachine

/-!
# What a step changes

A step is all or nothing, and what it may have changed can be read off its result:

* `Instruction.destination?` — the one register that an instruction may write;
* `Machine.Executed` — what a machine may differ in after it has executed an instruction;
* `Machine.Framed` — the three results of a step that is carried out, each with what it changed;
* `Machine.perform_of_stopped`, `Machine.performAll_of_stopped` — nothing but a new start changes
  a machine that has stopped;
* `Machine.step_framed` — all of it, for every machine.
-/

/-- The register that an instruction writes. -/
def Instruction.destination? : Instruction → Option UInt64
  | .mov dst _ => some dst
  | .arith _ _ _ dst => some dst
  | .out _ => none
  | .exit _ => none

namespace Machine

/-! ### Steps that succeed -/

/-- **What a machine may differ in** after a cycle in which it has executed an instruction. -/
structure Executed (m : Machine) (i : Instruction) (m' : Machine) : Prop where
  /-- The cycle is counted. -/
  cycle : m'.cycle = m.cycle + 1
  /-- There are as many registers as before. -/
  count : m'.registers.count = m.registers.count
  /-- A register that the instruction does not write holds what it held. -/
  registers : ∀ k, (∀ dst, i.destination? = some dst → dst.toNat ≠ k) →
    m'.registers.slots[k]? = m.registers.slots[k]?
  /-- An OUT emits one value. -/
  emits : i.opcode = .out → ∃ value, m'.serial.values = m.serial.values ++ [value]
  /-- Any other instruction emits nothing. -/
  silent : i.opcode ≠ .out → m'.serial = m.serial
  /-- An EXIT halts the machine with its code. -/
  halts : ∀ code, i = .exit code → m'.status = .halted code.toNat
  /-- After any other instruction the machine goes on. -/
  goesOn : i.opcode ≠ .exit → m'.status = m.status
  /-- The instruction is remembered. -/
  last : m'.lastInstruction = some i

/-- A write leaves every other register alone. -/
theorem slots_write_of_ne (m : Machine) {dst : UInt64} (value : Bits) {k : Nat}
    (hk : dst.toNat ≠ k) : (m.write dst value).registers.slots[k]? = m.registers.slots[k]? := by
  show (m.registers.slots.set dst.toNat (some value))[k]? = m.registers.slots[k]?
  exact List.getElem?_set_ne hk

/-- The effect of an instruction, once the cycle has been counted and with the instruction
    remembered, stays within what the instruction may change. -/
theorem Effect.executed {m m' : Machine} {i : Instruction} (h : m.advance.Effect i m') :
    m.Executed i { m' with lastInstruction := some i } := by
  have hcount := h.keeps.count
  cases h with
  | @mov dst src value hdst hvalue =>
    refine ⟨rfl, hcount, ?_, ?_, fun _ => rfl, ?_, fun _ => rfl, rfl⟩
    · intro k hk
      exact slots_write_of_ne m.advance value (hk dst rfl)
    · intro hop
      cases hop
    · intro code hi
      cases hi
  | @arith op lhs rhs dst a b x y v hlhs hrhs hdst ha hb hx hy hv =>
    refine ⟨rfl, hcount, ?_, ?_, fun _ => rfl, ?_, fun _ => rfl, rfl⟩
    · intro k hk
      exact slots_write_of_ne m.advance (Bits.ofInt v) (hk dst rfl)
    · intro hop
      cases hop
    · intro code hi
      cases hi
  | outEmpty hsrc hb =>
    refine ⟨rfl, hcount, fun _ _ => rfl, fun _ => ⟨none, rfl⟩, ?_, ?_, fun _ => rfl, rfl⟩
    · intro hop
      exact absurd rfl hop
    · intro code hi
      cases hi
  | @outValue src b v hsrc hb hv =>
    refine ⟨rfl, hcount, fun _ _ => rfl, fun _ => ⟨some v, rfl⟩, ?_, ?_, fun _ => rfl, rfl⟩
    · intro hop
      exact absurd rfl hop
    · intro code hi
      cases hi
  | @exit code hcode =>
    refine ⟨rfl, hcount, fun _ _ => rfl, ?_, fun _ => rfl, ?_, ?_, rfl⟩
    · intro hop
      cases hop
    · intro code' hi
      cases hi
      rfl
    · intro hop
      exact absurd rfl hop

/-! ### Steps that fail -/

/-- An operation has no result for one of two reasons: the product is too large, or the divisor is
    zero. -/
theorem eq_of_combine_eq_error {op : ArithOp} {count : UInt64} {x y : Nat} {f : Fault}
    (h : op.combine count x y = .error f) :
    f = .overflow count (.arith .mul) ∨ f = .divisionByZero count := by
  cases op with
  | add | sub => cases h
  | mul =>
    rw [ArithOp.combine] at h
    split at h
    · cases h
    · cases h
      exact .inl rfl
  | div =>
    rw [ArithOp.combine] at h
    split at h
    · cases h
      exact .inr rfl
    · cases h

theorem Refusal.ne_notRunning {m : Machine} {i : Instruction} {f : Fault} (h : m.Refusal i f)
    (c : UInt64) : f ≠ .notRunning c := by
  cases h with
  | noResult _ _ _ _ _ _ _ hf =>
    rcases eq_of_combine_eq_error hf with rfl | rfl <;> exact Fault.noConfusion
  | _ => exact Fault.noConfusion

/-- **A cycle fails for a reason of its own**, never because the machine has stopped. -/
theorem Cycle.ne_notRunning {m m' : Machine} {f : Fault} (h : m.Cycle (.error f m'))
    (c : UInt64) : f ≠ .notRunning c := by
  cases h with
  | empty => exact Fault.noConfusion
  | @undecodable w e _ _ _ => cases e <;> exact Fault.noConfusion
  | refused _ _ _ hrefusal => exact hrefusal.ne_notRunning c

/-! ### The results of a step -/

/-- **The results of a step that is carried out**, each with all that it changed. -/
inductive Framed (m : Machine) : Machine × Except Fault (Option Instruction) → Prop
  /-- The step fails. The cycle is counted and the machine stops with the fault; registers, serial
      line and last instruction are those from before. -/
  | failed {f : Fault} (hf : ∀ c, f ≠ .notRunning c) :
      Framed m ({ m with cycle := m.cycle + 1, status := .faulted f }, .error f)
  /-- The step skips data. Only the cycle is counted. -/
  | skipped : Framed m ({ m with cycle := m.cycle + 1 }, .ok none)
  /-- The step executes an instruction. -/
  | executed {i : Instruction} {m' : Machine} (h : m.Executed i m') :
      Framed m (m', .ok (some i))

/-- **A step that is carried out is framed.** -/
theorem framed_step {m : Machine} (hgo : m.GoesOn) : m.Framed m.step := by
  rcases step_cases hgo with ⟨f, hcycle, hstep⟩ | ⟨m', executed, hcycle, hstep⟩
  · rw [hstep]
    exact .failed hcycle.ne_notRunning
  · rw [hstep]
    cases hcycle with
    | data => exact .skipped
    | executed _ _ _ heffect => exact .executed heffect.executed

/-- A machine that runs and has not counted its last cycle goes on. -/
theorem goesOn_of_lt {m : Machine} (hrun : m.status = .running)
    (hcycle : m.cycle.toNat < 2 ^ 64 - 1) : m.GoesOn := by
  refine ⟨hrun, ?_⟩
  intro hlast
  rw [hlast, Address.toNat_last] at hcycle
  exact Nat.lt_irrefl _ hcycle

/-! ### Machines that have stopped -/

section Stopped

variable {m : Machine}

/-- A run of a machine that has stopped takes no step, or one that is refused. -/
theorem run_of_stopped (h : m.status ≠ .running) : m.run.1 = m := by
  cases hstatus : m.status with
  | running => exact absurd hstatus h
  | halted code => rw [run_of_halted hstatus]
  | faulted f =>
    have hnot : ∀ code, m.status ≠ .halted code := by
      intro code hcode
      rw [hstatus] at hcode
      cases hcode
    have hstep := step_of_not_goesOn (m := m) (fun hgo => h hgo.1)
    rw [run_of_step_error hnot hstep]

theorem runLimited_of_stopped (h : m.status ≠ .running) (budget : UInt64) :
    (m.runLimited budget).1 = m := by
  rw [runLimited_eq_after]
  exact after_of_not_goesOn (fun hgo => h hgo.1) _

/-- **Only a new start changes a machine that has stopped.** -/
theorem perform_of_stopped (h : m.status ≠ .running) {r : Request} (hr : r ≠ .rewind) :
    m.perform r = m := by
  cases r with
  | step =>
    show m.step.1 = m
    rw [step_of_not_goesOn (fun hgo => h hgo.1)]
  | run => exact run_of_stopped h
  | runLimited budget => exact runLimited_of_stopped h budget
  | rewind => exact absurd rfl hr

theorem performAll_of_stopped (h : m.status ≠ .running) {requests : List Request}
    (hr : .rewind ∉ requests) : m.performAll requests = m := by
  induction requests with
  | nil => rfl
  | cons r rest ih =>
    rw [List.mem_cons, not_or] at hr
    show (m.perform r).performAll rest = m
    rw [perform_of_stopped h (Ne.symm hr.1)]
    exact ih hr.2

end Stopped

/-! ### Every machine -/

/-- **A step is all or nothing.** Whatever the machine, a step changes neither memory nor
    configuration. On a machine that runs, and below the last value of the cycle count, the step is
    carried out and changes what its result says and nothing else. On a machine that has stopped it
    is refused and changes nothing, and so does every sequence of steps and runs. -/
theorem step_framed (m : Machine) :
    m.step.1.memory = m.memory ∧ m.step.1.config = m.config ∧
      (m.status = .running → m.cycle.toNat < 2 ^ 64 - 1 → m.Framed m.step) ∧
      (m.status ≠ .running →
        m.step = (m, .error (.notRunning m.cycle)) ∧
          ∀ requests : List Request, .rewind ∉ requests → m.performAll requests = m) := by
  have hkeeps := m.keeps_step
  refine ⟨hkeeps.memory, hkeeps.config, ?_, ?_⟩
  · intro hrun hcycle
    exact framed_step (goesOn_of_lt hrun hcycle)
  · intro hstop
    refine ⟨step_of_not_goesOn (fun hgo => hstop hgo.1), ?_⟩
    intro requests hr
    exact performAll_of_stopped hstop hr

/-- A DIV by zero fails with its destination unwritten, and nothing but a new start helps. -/
theorem step_framed_divisionByZero :
    ∃ m : Machine, m.status = .running ∧ m.cycle.toNat < 2 ^ 64 - 1 ∧ m.Framed m.step ∧
      m.step.2 = .error (.divisionByZero 1) ∧ m.step.1.registers = m.registers ∧
      m.step.1.status ≠ .running ∧
      m.step.1.performAll [.step, .run, .runLimited 3] = m.step.1 := by
  let zero : Bits := ⟨false, [false], List.cons_ne_nil _ _⟩
  let one : Bits := ⟨false, [true], List.cons_ne_nil _ _⟩
  let four : Bits := ⟨false, [true, false, false], List.cons_ne_nil _ _⟩
  let memory : Memory :=
    { Memory.empty none with cells := Cells.empty.insert ⟨1⟩ ⟨[four, zero, one, zero]⟩ }
  let m : Machine := { withMemory {} memory with registers := ⟨[some one, some zero]⟩ }
  have hrun : m.status = .running := rfl
  have hcycle : m.cycle.toNat < 2 ^ 64 - 1 := by decide
  obtain ⟨-, -, hframed, -⟩ := step_framed m
  obtain ⟨-, -, -, hstopped⟩ := step_framed m.step.1
  have hstop : m.step.1.status ≠ .running := by decide
  have hfault : m.step.2 = .error (.divisionByZero 1) := rfl
  exact ⟨m, hrun, hcycle, hframed hrun hcycle, hfault, rfl, hstop, (hstopped hstop).2 _ (by simp)⟩

end Machine

end BitMachine
