import BitMachine.Proofs.SideBySide

namespace BitMachine

/-!
# More registers

What a machine does with the registers that it has it also does with more of them:

* `Machine.Widened` — a machine beside one with further registers, which hold nothing;
* `Machine.Widened.step`, `Machine.Widened.after` — steps and runs keep two machines like that,
  until the smaller one lacks a register;
* `Machine.cycle?_of_faulted` — a fault names the cycle in which it has stopped the machine;
* `Machine.widened_after` — fresh machines with any two numbers of registers.
-/

namespace Machine

variable {m n m' n' : Machine} {extra : Nat}

/-! ### A machine beside a wider one -/

/-- **A machine beside one with further registers**, which hold nothing. All else is the same. -/
structure Widened (extra : Nat) (m n : Machine) : Prop where
  /-- The configurations differ in the number of registers only. -/
  config : n.config = { m.config with registerCount := n.config.registerCount }
  /-- The first registers hold the same, and the others nothing. -/
  registers : n.registers.slots = m.registers.slots ++ List.replicate extra none
  /-- The memory. -/
  memory : n.memory = m.memory
  /-- The status, with its exit code or its fault. -/
  status : n.status = m.status
  /-- The cycle count. -/
  cycle : n.cycle = m.cycle
  /-- What was emitted. -/
  serial : n.serial = m.serial
  /-- The instruction executed last. -/
  lastInstruction : n.lastInstruction = m.lastInstruction

namespace Widened

theorem count_eq (h : Widened extra m n) : n.registers.count = m.registers.count + extra := by
  unfold Registers.count
  rw [h.registers, List.length_append, List.length_replicate]

/-- The registers that both machines have hold the same. -/
theorem held_eq (h : Widened extra m n) {r : UInt64} (hr : r.toNat < m.registers.count) :
    n.registers.held r = m.registers.held r := by
  unfold Registers.held
  rw [h.registers, List.getElem?_append_left hr]

theorem goesOn_iff (h : Widened extra m n) : n.GoesOn ↔ m.GoesOn := by
  unfold GoesOn
  rw [h.status, h.cycle]

theorem advance (h : Widened extra m n) : Widened extra m.advance n.advance := by
  refine ⟨h.config, h.registers, h.memory, h.status, ?_, h.serial, h.lastInstruction⟩
  show n.cycle + 1 = m.cycle + 1
  rw [h.cycle]

theorem stopWith (h : Widened extra m n) (f : Fault) :
    Widened extra (m.stopWith f) (n.stopWith f) :=
  ⟨h.config, h.registers, h.memory, rfl, h.cycle, h.serial, h.lastInstruction⟩

/-- A cycle finds all that it looks at in the wider machine too. -/
theorem sameView (h : Widened extra m n) : m.SameView n := by
  constructor
  case cycle => exact h.cycle
  case minLength => rw [h.config]
  case word => rw [h.memory]
  case registers =>
    intro i _ r _ hr
    have hcount := h.count_eq
    exact ⟨by omega, h.held_eq hr⟩
  case token =>
    intro addr _
    rw [h.memory]

/-- A change that is made in both machines leaves the further registers alone: the register that
    is written is one of the first ones. -/
theorem change (h : Widened extra m n) (hchange : m.SameChange n m' n') (i : Instruction) :
    Widened extra { m' with lastInstruction := some i } { n' with lastInstruction := some i } := by
  cases hchange with
  | write dst value hdst =>
    refine ⟨h.config, ?_, h.memory, h.status, h.cycle, h.serial, rfl⟩
    show n.registers.slots.set dst.toNat (some value) = _
    rw [h.registers]
    exact List.set_append_left _ _ hdst
  | emit value =>
    refine ⟨h.config, h.registers, h.memory, h.status, h.cycle, ?_, rfl⟩
    show n.serial.emit value = m.serial.emit value
    rw [h.serial]
  | halt code => exact ⟨h.config, h.registers, h.memory, rfl, h.cycle, h.serial, rfl⟩

/-- **A step** keeps two machines side by side, unless the smaller one lacks a register. -/
theorem step (h : Widened extra m n) :
    (∃ f, f.isInvalidRegister = true ∧ m.step.1.status = .faulted f) ∨
      Widened extra m.step.1 n.step.1 := by
  by_cases hgo : m.GoesOn
  · have hgo' := h.goesOn_iff.mpr hgo
    rcases h.advance.sameView.step hgo hgo' h.advance h.advance.stopWith
      (fun i _ _ hchange => h.advance.change hchange i) with ⟨-, hlacks⟩ | hstep
    · exact .inl hlacks
    · exact .inr hstep
  · right
    rw [step_of_not_goesOn hgo, step_of_not_goesOn (fun hgo' => hgo (h.goesOn_iff.mp hgo'))]
    exact h

/-- **Any number of steps** after which the smaller machine has not lacked a register. -/
theorem after (h : Widened extra m n) {k : Nat}
    (hk : ∀ f, (m.after k).status = .faulted f → f.isInvalidRegister = false) :
    Widened extra (m.after k) (n.after k) := by
  induction k with
  | zero => exact h
  | succ k ih =>
    rw [after_succ_eq_step] at hk ⊢
    rw [after_succ_eq_step]
    have hk' : ∀ f, (m.after k).status = .faulted f → f.isInvalidRegister = false := by
      intro f hf
      -- The step does not take the fault back.
      have hstop : ¬ (m.after k).GoesOn := by
        rintro ⟨hrun, -⟩
        cases hrun.symm.trans hf
      apply hk
      rw [step_of_not_goesOn hstop]
      exact hf
    rcases (ih hk').step with ⟨f, hf, hstatus⟩ | hstep
    · have hnot := hk f hstatus
      rw [hf] at hnot
      cases hnot
    · exact hstep

end Widened

/-! ### The cycle of a fault -/

theorem Refusal.cycle?_eq {i : Instruction} {f : Fault} (h : m.Refusal i f) :
    f.cycle? = some m.cycle := by
  cases h with
  | noResult _ _ _ _ _ _ _ hf =>
    rcases eq_of_combine_eq_error hf with rfl | rfl
    · rfl
    · rfl
  | _ => rfl

theorem Cycle.cycle?_eq {f : Fault} (h : m.Cycle (.error f n)) : f.cycle? = some m.cycle := by
  cases h with
  | empty => rfl
  | @undecodable w e _ _ _ => cases e <;> rfl
  | refused _ _ _ hrefusal => exact hrefusal.cycle?_eq

/-- **A fault names the cycle** in which it has stopped a machine that ran before. -/
theorem cycle?_of_faulted (hrun : m.status = .running) (k : Nat) {f : Fault}
    (hf : (m.after k).status = .faulted f) : f.cycle? = some (m.after k).cycle := by
  induction k with
  | zero => cases hrun.symm.trans hf
  | succ k ih =>
    rw [after_succ_eq_step] at hf ⊢
    by_cases hgo : (m.after k).GoesOn
    · rcases step_cases hgo with ⟨f', hcycle, hstep⟩ | ⟨m', executed, hcycle, hstep⟩
      · rw [hstep] at hf ⊢
        cases hf
        exact hcycle.cycle?_eq
      · rw [hstep] at hf
        exact absurd hf (hcycle.status_ne_faulted hgo.1 f)
    · rw [step_of_not_goesOn hgo] at hf ⊢
      exact ih hf

/-- A machine that has stopped stays as it is, so it is the same whenever it is looked at. -/
theorem after_eq_after {j k : Nat} (hj : ¬ (m.after j).GoesOn) (hk : ¬ (m.after k).GoesOn) :
    m.after j = m.after k := by
  rcases Nat.le_total j k with hle | hle
  · obtain ⟨d, rfl⟩ := Nat.exists_eq_add_of_le hle
    rw [after_add, after_of_not_goesOn hj]
  · obtain ⟨d, rfl⟩ := Nat.exists_eq_add_of_le hle
    rw [after_add, after_of_not_goesOn hk]

/-! ### Fresh machines -/

/-- A fresh machine around a memory, with the given number of registers. -/
def withRegisters (config : Config) (memory : Memory) (count : UInt64) : Machine :=
  withMemory { config with registerCount := count } memory

theorem widened_withRegisters (config : Config) (memory : Memory) {few many : UInt64}
    (h : few ≤ many) :
    Widened (many.toNat - few.toNat) (withRegisters config memory few)
      (withRegisters config memory many) := by
  refine ⟨rfl, ?_, rfl, rfl, rfl, rfl, rfl⟩
  have hle := UInt64.le_iff_toNat_le.mp h
  show List.replicate many.toNat none = List.replicate few.toNat none ++ _
  rw [List.replicate_append_replicate, Nat.add_sub_of_le hle]

/-- **More registers never change a good run.** After any number of steps, a machine with few
    registers either has not lacked one, and then the machine with more registers agrees with it
    and has written none of its further registers, or the fault of a missing register has stopped
    it in some cycle, and then the two machines have agreed like that in all the steps before.

    Steps at the last value of the cycle count are included as `Machine.step` has them by
    convention: both machines refuse them. -/
theorem widened_after (config : Config) (memory : Memory) {few many : UInt64} (h : few ≤ many)
    (k : Nat) :
    ((∀ f, ((withRegisters config memory few).after k).status = .faulted f →
        f.isInvalidRegister = false) →
      Widened (many.toNat - few.toNat) ((withRegisters config memory few).after k)
        ((withRegisters config memory many).after k)) ∧
    ∀ c op index count,
      ((withRegisters config memory few).after k).status
          = .faulted (.invalidRegister c op index count) →
        c = ((withRegisters config memory few).after k).cycle ∧
          ∀ j < c.toNat, Widened (many.toNat - few.toNat)
            ((withRegisters config memory few).after j)
            ((withRegisters config memory many).after j) := by
  have hstart := widened_withRegisters config memory h
  refine ⟨hstart.after, ?_⟩
  intro c op index count hstatus
  have hcycle := cycle?_of_faulted (m := withRegisters config memory few) rfl k hstatus
  have hc : c = ((withRegisters config memory few).after k).cycle := Option.some.inj hcycle
  refine ⟨hc, ?_⟩
  intro j hj
  apply hstart.after
  intro f hf
  exfalso
  -- A machine that had stopped by then would have counted too few cycles for the fault.
  have hsame : (withRegisters config memory few).after j
      = (withRegisters config memory few).after k := by
    apply after_eq_after
    · rintro ⟨hrun, -⟩
      cases hrun.symm.trans hf
    · rintro ⟨hrun, -⟩
      cases hrun.symm.trans hstatus
  have hle := (withRegisters config memory few).cycle_after_le j
  rw [hsame, ← hc] at hle
  have hzero : (withRegisters config memory few).cycle.toNat = 0 := rfl
  omega

/-- An OUT of register 1 is too much for a machine with one register. Up to there it has emitted
    what a machine with two registers emits, and that one goes on. -/
theorem widened_after_second_out :
    ∃ memory : Memory, (1 : UInt64) ≤ 2 ∧
      ((withRegisters {} memory 1).after 2).status = .faulted (.invalidRegister 2 .out 1 1) ∧
      (∀ j < 2, Widened 1 ((withRegisters {} memory 1).after j)
        ((withRegisters {} memory 2).after j)) ∧
      ((withRegisters {} memory 2).after 2).status = .running ∧
      ((withRegisters {} memory 2).after 2).serial.values = [none, none] := by
  let zero : Bits := ⟨false, [false], List.cons_ne_nil _ _⟩
  let one : Bits := ⟨false, [true], List.cons_ne_nil _ _⟩
  let five : Bits := ⟨false, [true, false, true], List.cons_ne_nil _ _⟩
  let memory : Memory :=
    { Memory.empty none with
      cells := (Cells.empty.insert ⟨1⟩ ⟨[five, zero]⟩).insert ⟨2⟩ ⟨[five, one]⟩ }
  have hle : (1 : UInt64) ≤ 2 := by decide
  have hstatus : ((withRegisters {} memory 1).after 2).status
      = .faulted (.invalidRegister 2 .out 1 1) := rfl
  obtain ⟨-, hbefore⟩ := widened_after {} memory hle 2
  exact ⟨memory, hle, hstatus, (hbefore 2 .out 1 1 hstatus).2, rfl, rfl⟩

end Machine

end BitMachine
