import BitMachine.Proofs.SideBySide

namespace BitMachine

/-!
# What a run reads

Memory can influence a run through two things only: the words at the slots that it comes by, and
the first tokens at the addresses that its MOVs read.

* `Machine.SameReads` — the reads of a number of steps give the same in another memory;
* `Machine.Parallel` — two machines that have gone the same way since they were started;
* `Machine.Parallel.step` — a step that reads the same keeps them parallel;
* `Machine.parallel_after` — **memory that is not read cannot influence a run**.
-/

namespace Machine

variable {m n m' n' start other : Machine}

/-! ### Reads -/

/-- **What the next `k` steps of a machine read** is the same in another memory. A MOV reads its
    token before it is known whether there is one, so one that fails because there is none counts
    as well. -/
structure SameReads (m : Machine) (memory : Memory) (k : Nat) : Prop where
  /-- The words at the slots that the steps come by. -/
  slots : ∀ slot : UInt64, m.cycle.toNat < slot.toNat → slot.toNat ≤ m.cycle.toNat + k →
    memory.cells.get? ⟨slot⟩ = m.memory.cells.get? ⟨slot⟩
  /-- The tokens that MOVs read in the steps that are carried out. -/
  tokens : ∀ i < k, (m.after i).GoesOn → ∀ addr, (m.after i).advance.Reads addr →
    memory.firstToken? addr = m.memory.firstToken? addr

theorem SameReads.of_succ {memory : Memory} {k : Nat} (h : m.SameReads memory (k + 1)) :
    m.SameReads memory k := by
  refine ⟨fun slot hlow hhigh => h.slots slot hlow (by omega), fun i hi => ?_⟩
  exact h.tokens i (by omega)

/-! ### Parallel machines -/

/-- **Two machines that have gone the same way** since they were two given ones. What they hold in
    memory may be different. -/
structure Parallel (start other m n : Machine) : Prop where
  /-- The configuration. -/
  config : n.config = m.config
  /-- The registers. -/
  registers : n.registers = m.registers
  /-- The status, with its exit code or its fault. -/
  status : n.status = m.status
  /-- The cycle count. -/
  cycle : n.cycle = m.cycle
  /-- The values that have been emitted since. -/
  emitted : ∃ values, m.serial.values = start.serial.values ++ values ∧
    n.serial.values = other.serial.values ++ values
  /-- The instruction that has been executed last since, if there has been any. -/
  executed : ∃ i : Option Instruction, m.lastInstruction = i.or start.lastInstruction ∧
    n.lastInstruction = i.or other.lastInstruction

/-- Machines that are the same but for memory, emitted values and last instruction are parallel
    to start with. -/
theorem parallel_start (hconfig : n.config = m.config) (hregisters : n.registers = m.registers)
    (hstatus : n.status = m.status) (hcycle : n.cycle = m.cycle) : Parallel m n m n := by
  refine ⟨hconfig, hregisters, hstatus, hcycle, ⟨[], ?_, ?_⟩, ⟨none, rfl, rfl⟩⟩
  · rw [List.append_nil]
  · rw [List.append_nil]

namespace Parallel

/-- Of two machines that had the same last instruction at the start. -/
theorem lastInstruction_eq (h : Parallel start other m n)
    (hstart : other.lastInstruction = start.lastInstruction) :
    n.lastInstruction = m.lastInstruction := by
  obtain ⟨i, hm, hn⟩ := h.executed
  rw [hm, hn, hstart]

theorem goesOn_iff (h : Parallel start other m n) : n.GoesOn ↔ m.GoesOn := by
  unfold GoesOn
  rw [h.status, h.cycle]

theorem advance (h : Parallel start other m n) : Parallel start other m.advance n.advance := by
  refine ⟨h.config, h.registers, h.status, ?_, h.emitted, h.executed⟩
  show n.cycle + 1 = m.cycle + 1
  rw [h.cycle]

theorem stopWith (h : Parallel start other m n) (f : Fault) :
    Parallel start other (m.stopWith f) (n.stopWith f) :=
  ⟨h.config, h.registers, rfl, h.cycle, h.emitted, h.executed⟩

/-- A change that is made in both machines. -/
theorem change (h : Parallel start other m n) (hchange : m.SameChange n m' n')
    (i : Instruction) :
    Parallel start other { m' with lastInstruction := some i }
      { n' with lastInstruction := some i } := by
  have hlast : ∃ j : Option Instruction, some i = j.or start.lastInstruction ∧
      some i = j.or other.lastInstruction := ⟨some i, rfl, rfl⟩
  cases hchange with
  | write dst value _ =>
    refine ⟨h.config, ?_, h.status, h.cycle, h.emitted, hlast⟩
    show (n.write dst value).registers = (m.write dst value).registers
    unfold write
    rw [h.registers]
  | emit value =>
    refine ⟨h.config, h.registers, h.status, h.cycle, ?_, hlast⟩
    obtain ⟨values, hm, hn⟩ := h.emitted
    refine ⟨values ++ [value], ?_, ?_⟩
    · show m.serial.values ++ [value] = _
      rw [hm, List.append_assoc]
    · show n.serial.values ++ [value] = _
      rw [hn, List.append_assoc]
  | halt code => exact ⟨h.config, h.registers, rfl, h.cycle, h.emitted, hlast⟩

/-- **A step** keeps machines parallel when its cycle finds the same word and, for a MOV, the same
    token in both memories. -/
theorem step (h : Parallel start other m n)
    (hword : m.GoesOn → n.memory.cells.get? m.nextAddress = m.memory.cells.get? m.nextAddress)
    (htoken : m.GoesOn → ∀ addr, m.advance.Reads addr →
      n.memory.firstToken? addr = m.memory.firstToken? addr) :
    Parallel start other m.step.1 n.step.1 := by
  by_cases hgo : m.GoesOn
  · have hview : m.advance.SameView n.advance := by
      constructor
      case cycle => exact h.advance.cycle
      case minLength => rw [h.advance.config]
      case word => exact hword hgo
      case registers =>
        intro i _ r _ hr
        rw [h.advance.registers]
        exact ⟨hr, rfl⟩
      case token => exact htoken hgo
    rcases hview.step hgo (h.goesOn_iff.mpr hgo) h.advance h.advance.stopWith
      (fun i _ _ hchange => h.advance.change hchange i) with ⟨hcount, -⟩ | hstep
    · exact absurd (congrArg Registers.count h.registers) hcount
    · exact hstep
  · rw [step_of_not_goesOn hgo, step_of_not_goesOn (fun hgo' => hgo (h.goesOn_iff.mp hgo'))]
    exact h

end Parallel

/-! ### Runs -/

/-- **Memory that is not read cannot influence a run.** Two machines that differ in memory, and may
    differ in what they emitted and executed before, go the same way for as many steps as the reads
    of the first one give the same in both memories.

    Steps at the last value of the cycle count are included as `Machine.step` has them by
    convention: both machines refuse them. -/
theorem parallel_after {m n : Machine} {k : Nat} (hconfig : n.config = m.config)
    (hregisters : n.registers = m.registers) (hstatus : n.status = m.status)
    (hcycle : n.cycle = m.cycle) (hreads : m.SameReads n.memory k) :
    Parallel m n (m.after k) (n.after k) ∧
      (n.lastInstruction = m.lastInstruction →
        (n.after k).lastInstruction = (m.after k).lastInstruction) := by
  suffices hpar : Parallel m n (m.after k) (n.after k) from ⟨hpar, hpar.lastInstruction_eq⟩
  induction k with
  | zero => exact parallel_start hconfig hregisters hstatus hcycle
  | succ k ih =>
    rw [after_succ_eq_step, after_succ_eq_step]
    refine (ih hreads.of_succ).step ?_ ?_
    · intro hgo
      -- The next slot is one of those that the steps come by.
      have hslot := toNat_cycle_add_one hgo.2
      have hlow := m.le_cycle_after k
      have hhigh := m.cycle_after_le k
      rw [(m.keeps_after k).memory, (n.keeps_after k).memory]
      apply hreads.slots
      · omega
      · omega
    · intro hgo addr haddr
      rw [(m.keeps_after k).memory, (n.keeps_after k).memory]
      exact hreads.tokens k (Nat.lt_succ_self k) hgo addr haddr

/-- A MOV from address 5 and an OUT. The word at address 5 has a second token in one of the
    memories, where address 9 is in use too, and the other one is limited; the machine with that
    one has emitted something before. -/
theorem parallel_after_move :
    ∃ m n : Machine, n.config = m.config ∧ n.registers = m.registers ∧ n.status = m.status ∧
      n.cycle = m.cycle ∧ m.SameReads n.memory 2 ∧ n.memory.size ≠ m.memory.size ∧
      Parallel m n (m.after 2) (n.after 2) ∧ (m.after 2).serial.values = [some 5] ∧
      (n.after 2).serial.values = [some 3, some 5] := by
  let zero : Bits := ⟨false, [false], List.cons_ne_nil _ _⟩
  let five : Bits := ⟨false, [true, false, true], List.cons_ne_nil _ _⟩
  let program : Cells := (Cells.empty.insert ⟨1⟩ ⟨[zero, zero, five]⟩).insert ⟨2⟩ ⟨[five, zero]⟩
  let m := withMemory {}
    { Memory.empty none with
      cells := (program.insert ⟨5⟩ ⟨[five, zero]⟩).insert ⟨9⟩ ⟨[zero]⟩ }
  let n := { withMemory {} { Memory.empty (some 3) with cells := program.insert ⟨5⟩ ⟨[five]⟩ } with
    serial := ⟨[some 3]⟩ }
  have hreads : m.SameReads n.memory 2 := by
    refine ⟨fun slot hlow hhigh => ?_, fun i hi _ addr haddr => ?_⟩
    · have hcycle : m.cycle.toNat = 0 := rfl
      obtain hslot | hslot : slot.toNat = 1 ∨ slot.toNat = 2 := by omega
      · obtain rfl : slot = 1 := UInt64.toNat_inj.mp hslot
        rfl
      · obtain rfl : slot = 2 := UInt64.toNat_inj.mp hslot
        rfl
    · obtain ⟨dst, ⟨w, ⟨hw, -⟩, hdecode⟩, -⟩ := haddr
      obtain rfl | rfl : i = 0 ∨ i = 1 := by omega
      · -- The MOV reads from address 5.
        obtain rfl : (⟨[zero, zero, five]⟩ : Word) = w := Option.some.inj hw
        obtain rfl : addr = ⟨5⟩ := by
          cases hdecode
          rfl
        rfl
      · -- The OUT does not read.
        obtain rfl : (⟨[five, zero]⟩ : Word) = w := Option.some.inj hw
        cases hdecode
  obtain ⟨hparallel, -⟩ := parallel_after (m := m) (n := n) rfl rfl rfl rfl hreads
  exact ⟨m, n, rfl, rfl, rfl, rfl, hreads, by decide, hparallel, rfl, rfl⟩

end Machine

end BitMachine
