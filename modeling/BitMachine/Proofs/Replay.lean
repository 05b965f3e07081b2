import BitMachine.Proofs.SideBySide

namespace BitMachine

/-!
# Runs after a rewind

A machine that is rewound runs as if it had never been used. What it goes through before can only
be seen in the values that it has emitted by then:

* `Machine.precededBy` — a machine with emitted values in front of its own, and
  `Machine.step_precededBy`, `Machine.run_precededBy`: a run does not look at them;
* `Machine.Operation` — what a machine may go through: steps, runs, rewinds and writes to its
  registers;
* `Machine.Keeps.rewind_eq` — whatever leaves memory and configuration alone is forgotten by a
  rewind;
* `Machine.SameRun` — two runs that cannot be told apart;
* `Machine.rewind_replays` — **a rewound machine runs as the machine that it was**.
-/

namespace Machine

variable {m n m' n' : Machine} {earlier : List (Option Int)}

/-! ### What was emitted before -/

/-- The machine with emitted values in front of those that it has emitted itself. -/
def precededBy (m : Machine) (earlier : List (Option Int)) : Machine :=
  { m with serial := ⟨earlier ++ m.serial.values⟩ }

/-- A cycle does not look at what was emitted. -/
theorem sameView_precededBy (m : Machine) (earlier : List (Option Int)) :
    m.SameView (m.precededBy earlier) :=
  ⟨rfl, rfl, rfl, fun _ _ _ _ hr => ⟨hr, rfl⟩, fun _ _ => rfl⟩

/-- A change comes behind what was emitted before. -/
theorem SameChange.eq_precededBy (h : m.SameChange (m.precededBy earlier) m' n') :
    n' = m'.precededBy earlier := by
  cases h with
  | write => rfl
  | emit value =>
    have hvalues : earlier ++ m.serial.values ++ [value] =
        earlier ++ (m.serial.values ++ [value]) := List.append_assoc _ _ _
    show { m.precededBy earlier with serial := ⟨earlier ++ m.serial.values ++ [value]⟩ } = _
    rw [hvalues]
    rfl
  | halt => rfl

/-- **A step** does not look at what was emitted before. -/
theorem step_precededBy (m : Machine) (earlier : List (Option Int)) :
    (m.precededBy earlier).step = (m.step.1.precededBy earlier, m.step.2) := by
  by_cases hgo : m.GoesOn
  · have hgo' : (m.precededBy earlier).GoesOn := hgo
    have hadvance : (m.precededBy earlier).advance = m.advance.precededBy earlier := rfl
    rw [step_of_goesOn hgo, step_of_goesOn hgo', hadvance]
    rcases (m.advance.sameView_precededBy earlier).fetchAndExecute with ⟨hcount, -⟩ | hsame
    · exact absurd rfl hcount
    · generalize fetchAndExecute.run m.advance = x at hsame ⊢
      generalize fetchAndExecute.run (m.advance.precededBy earlier) = y at hsame ⊢
      cases hsame with
      | failed f => rfl
      | skipped => rfl
      | executed i hchange =>
        rw [hchange.eq_precededBy]
        rfl
  · have hgo' : ¬ (m.precededBy earlier).GoesOn := hgo
    rw [step_of_not_goesOn hgo, step_of_not_goesOn hgo']
    rfl

/-- **A run** does not look at what was emitted before, and emits behind it. -/
theorem run_precededBy (m : Machine) (earlier : List (Option Int)) :
    (m.precededBy earlier).run = (m.run.1.precededBy earlier, m.run.2) := by
  induction m using run.induct with
  | case1 m code hstatus =>
    have hstatus' : (m.precededBy earlier).status = .halted code := hstatus
    rw [run_of_halted hstatus, run_of_halted hstatus']
    rfl
  | case2 m m' f hstep hstatus =>
    have hstatus' : ∀ code, (m.precededBy earlier).status ≠ .halted code := hstatus
    have hstep' := m.step_precededBy earlier
    rw [hstep] at hstep'
    rw [run_of_step_error hstatus hstep, run_of_step_error hstatus' hstep']
  | case3 m m' executed hstep hstatus ih =>
    have hstatus' : ∀ code, (m.precededBy earlier).status ≠ .halted code := hstatus
    have hstep' := m.step_precededBy earlier
    rw [hstep] at hstep'
    rw [run_of_step_ok hstatus hstep, run_of_step_ok hstatus' hstep', ih]

/-! ### What a machine may go through -/

/-- What a machine may go through. -/
inductive Operation where
  /-- A step, a run or a rewind. -/
  | request (r : Request)
  /-- A write to a register from outside. -/
  | setRegister (index : UInt64) (value : Bits)

/-- The machine after an operation, whether it succeeds or not. A write to a register that the
    machine does not have is refused. -/
def operate (m : Machine) : Operation → Machine
  | .request r => m.perform r
  | .setRegister index value => { m with registers := (m.registers.set index value).1 }

/-- The machine after a sequence of operations. -/
def operateAll (m : Machine) (operations : List Operation) : Machine :=
  operations.foldl operate m

theorem keeps_rewind (m : Machine) : m.Keeps m.rewind :=
  ⟨rfl, rfl, List.length_replicate, List.prefix_rfl⟩

theorem keeps_run (m : Machine) : m.Keeps m.run.1 := by
  obtain ⟨k, hk⟩ := m.run_eq_after
  rw [hk]
  exact m.keeps_after k

theorem keeps_perform (m : Machine) (r : Request) : m.Keeps (m.perform r) := by
  cases r with
  | step => exact m.keeps_step
  | run => exact m.keeps_run
  | runLimited budget =>
    show m.Keeps (m.runLimited budget).1
    rw [runLimited_eq_after]
    exact m.keeps_after _
  | rewind => exact m.keeps_rewind

/-- **No operation touches memory or configuration.** -/
theorem keeps_operate (m : Machine) (operation : Operation) : m.Keeps (m.operate operation) := by
  cases operation with
  | request r => exact m.keeps_perform r
  | setRegister index value =>
    exact ⟨rfl, rfl, m.registers.count_set index value, List.prefix_rfl⟩

theorem keeps_operateAll (m : Machine) (operations : List Operation) :
    m.Keeps (m.operateAll operations) := by
  induction operations generalizing m with
  | nil => exact .refl m
  | cons operation rest ih => exact (m.keeps_operate operation).trans (ih _)

/-! ### Runs that are the same -/

/-- **Two runs that cannot be told apart**, but for what was emitted before them. -/
structure SameRun (m n : Machine) : Prop where
  /-- The exit status or the fault that the run returns. -/
  result : n.run.2 = m.run.2
  /-- The cycle count at the end. -/
  cycle : n.run.1.cycle = m.run.1.cycle
  /-- The registers at the end. -/
  registers : n.run.1.registers = m.run.1.registers
  /-- The status at the end. -/
  status : n.run.1.status = m.run.1.status
  /-- The instruction that was executed last. -/
  lastInstruction : n.run.1.lastInstruction = m.run.1.lastInstruction
  /-- The memory. -/
  memory : n.run.1.memory = m.run.1.memory
  /-- The configuration. -/
  config : n.run.1.config = m.run.1.config
  /-- The values that the run emits behind those from before. -/
  emitted : ∃ values, m.run.1.serial.values = m.serial.values ++ values ∧
    n.run.1.serial.values = n.serial.values ++ values

/-- Machines that differ in nothing but emitted values run in the same way. -/
theorem sameRun_of_clearSerial_eq (h : n.clearSerial = m.clearSerial) : m.SameRun n := by
  have hself : ∀ k : Machine, k = k.clearSerial.precededBy k.serial.values := by
    intro k
    show k = { k with serial := ⟨k.serial.values ++ []⟩ }
    rw [List.append_nil]
  have hm := m.clearSerial.run_precededBy m.serial.values
  have hn := m.clearSerial.run_precededBy n.serial.values
  rw [← hself] at hm
  rw [← h, ← hself, h] at hn
  constructor
  case result => rw [hm, hn]
  case emitted => exact ⟨m.clearSerial.run.1.serial.values, by rw [hm]; rfl, by rw [hn]; rfl⟩
  all_goals
    rw [hm, hn]
    rfl

/-- **A rewind forgets** everything but memory, configuration and emitted values. -/
theorem Keeps.rewind_eq (h : m.Keeps n) : n.rewind.clearSerial = m.rewind.clearSerial := by
  obtain ⟨hmemory, hconfig, hcount, -⟩ := h
  unfold rewind clearSerial Registers.reset
  simp only [hmemory, hconfig, hcount]

theorem Keeps.sameRun_rewind (h : m.Keeps n) : m.rewind.SameRun n.rewind :=
  sameRun_of_clearSerial_eq h.rewind_eq

/-- **A rewound machine runs as the machine that it was.** Whatever a machine goes through, when
    it is rewound afterwards, it runs as it would have run if it had been rewound before: the run
    returns the same, ends in the same cycle with the same registers, status and last instruction,
    and emits the same values. Neither memory nor configuration are different. A machine that runs
    twice with a rewind in between emits the same values twice. -/
theorem rewind_replays (m : Machine) (operations : List Operation) :
    let n := m.operateAll operations
    m.rewind.SameRun n.rewind ∧ n.memory = m.memory ∧ n.config = m.config ∧
      ∃ values, m.rewind.run.1.serial.values = m.serial.values ++ values ∧
        m.rewind.run.1.rewind.run.1.serial.values = m.serial.values ++ values ++ values := by
  intro n
  have hkeeps : m.Keeps n := m.keeps_operateAll operations
  refine ⟨hkeeps.sameRun_rewind, hkeeps.memory, hkeeps.config, ?_⟩
  -- The first of the two runs is one of the things that a machine may go through.
  have htwice : m.Keeps m.rewind.run.1 := m.keeps_rewind.trans m.rewind.keeps_run
  obtain ⟨values, hfirst, hsecond⟩ := htwice.sameRun_rewind.emitted
  refine ⟨values, hfirst, ?_⟩
  have hbefore : m.rewind.run.1.rewind.serial.values = m.serial.values ++ values := hfirst
  rw [hsecond, hbefore]

end Machine

end BitMachine
