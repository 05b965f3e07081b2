import BitMachine.Machine.Run
import BitMachine.Proofs.Execution

namespace BitMachine

/-!
# Cycles and runs

What a cycle and any number of cycles do to a machine:

* `Machine.Cycle` and `Machine.cycle_spec` — the five ways in which a cycle can go, each with the
  machine that it leaves behind;
* `Machine.step_cases` — a step is a cycle that is counted, unless it is refused;
* `Machine.after` — the machine after a number of steps, whatever the steps return;
* `Machine.keeps_after` — no step touches the memory or the configuration, and what was emitted
  stays;
* `Machine.run_eq_after`, `Machine.runLimited_eq_after` — the loops do nothing but steps.
-/

theorem Address.toNat_last : Address.last.slot.toNat = 2 ^ 64 - 1 := by
  decide

namespace Machine

/-! ### One cycle -/

/-- The machine with the cycle counted. -/
def advance (m : Machine) : Machine :=
  { m with cycle := m.cycle + 1 }

/-- Whether a step is carried out: the machine runs, and the cycle can be counted. -/
def GoesOn (m : Machine) : Prop :=
  m.status = .running ∧ m.cycle ≠ Address.last.slot

theorem not_goesOn_of_not_isRunning {m : Machine} (h : ¬ m.isRunning) : ¬ m.GoesOn := by
  rintro ⟨hstatus, -⟩
  simp [isRunning, hstatus] at h

theorem step_of_not_goesOn {m : Machine} (h : ¬ m.GoesOn) :
    m.step = (m, .error (.notRunning m.cycle)) := by
  have hstop : m.status ≠ .running ∨ m.cycle = Address.last.slot := by
    by_contra hgo
    rw [not_or, not_not] at hgo
    exact h hgo
  rw [step, if_pos hstop]

theorem step_of_goesOn {m : Machine} (h : m.GoesOn) :
    m.step = match fetchAndExecute.run m.advance with
      | .ok executed after => (after, .ok executed)
      | .error fault after => (after.stopWith fault, .error fault) := by
  have hgo : ¬ (m.status ≠ .running ∨ m.cycle = Address.last.slot) := by
    rw [not_or, not_not]
    exact h
  rw [step, if_neg hgo]
  rfl

/-- How a cycle goes, once it has been counted. -/
inductive Cycle (m : Machine) : EStateM.Result Fault Machine (Option Instruction) → Prop
  /-- The slot is empty. -/
  | empty (hslot : m.memory.cells.get? ⟨m.cycle⟩ = none) :
      Cycle m (.error (.outOfInstructions m.cycle ⟨m.cycle⟩) m)
  /-- The word is data. -/
  | data {w : Word} (hslot : m.memory.cells.get? ⟨m.cycle⟩ = some w)
      (hshort : w.size < m.config.minInstructionLength.toNat) : Cycle m (.ok none m)
  /-- The word is no instruction. -/
  | undecodable {w : Word} {e : DecodeError} (hslot : m.memory.cells.get? ⟨m.cycle⟩ = some w)
      (hlong : m.config.minInstructionLength.toNat ≤ w.size)
      (hdecode : Instruction.decode w = .error e) :
      Cycle m (.error (.ofDecodeError m.cycle e) m)
  /-- The instruction fails. -/
  | refused {w : Word} {i : Instruction} {f : Fault}
      (hslot : m.memory.cells.get? ⟨m.cycle⟩ = some w)
      (hlong : m.config.minInstructionLength.toNat ≤ w.size)
      (hdecode : Instruction.decode w = .ok i) (hrefusal : m.Refusal i f) : Cycle m (.error f m)
  /-- The instruction is executed. -/
  | executed {w : Word} {i : Instruction} {m' : Machine}
      (hslot : m.memory.cells.get? ⟨m.cycle⟩ = some w)
      (hlong : m.config.minInstructionLength.toNat ≤ w.size)
      (hdecode : Instruction.decode w = .ok i) (heffect : m.Effect i m') :
      Cycle m (.ok (some i) { m' with lastInstruction := some i })

theorem exists_cycle (m : Machine) : ∃ outcome, m.Cycle outcome := by
  cases hslot : m.memory.cells.get? ⟨m.cycle⟩ with
  | none => exact ⟨_, .empty hslot⟩
  | some w =>
    by_cases hshort : w.size < m.config.minInstructionLength.toNat
    · exact ⟨_, .data hslot hshort⟩
    · have hlong := Nat.le_of_not_lt hshort
      cases hdecode : Instruction.decode w with
      | error e => exact ⟨_, .undecodable hslot hlong hdecode⟩
      | ok i =>
        rcases m.effect_or_refusal i with ⟨m', heffect⟩ | ⟨f, hrefusal⟩
        · exact ⟨_, .executed hslot hlong hdecode heffect⟩
        · exact ⟨_, .refused hslot hlong hdecode hrefusal⟩

section Fetching

variable {m : Machine} {w : Word}

theorem fetch_of_get? (h : m.memory.cells.get? ⟨m.cycle⟩ = some w) : m.fetch = .ok w := by
  rw [fetch, h]

/-- A word that is long enough is decoded and executed. -/
theorem run_fetchAndExecute_of_long (hslot : m.memory.cells.get? ⟨m.cycle⟩ = some w)
    (hlong : m.config.minInstructionLength.toNat ≤ w.size) :
    fetchAndExecute.run m = EStateM.run (do
      let i ← reading (·.decoded w)
      execute i
      modify fun m => { m with lastInstruction := some i }
      return some i) m := by
  rw [fetchAndExecute, run_reading_bind_of_ok (fetch_of_get? hslot), EStateM.run_bind,
    EStateM.run_get]
  simp only [if_neg (Nat.not_lt.mpr hlong)]

/-- **A word that decodes** is carried out as its instruction, and an instruction that succeeds is
    remembered. -/
theorem run_fetchAndExecute_of_decode {i : Instruction}
    (hslot : m.memory.cells.get? ⟨m.cycle⟩ = some w)
    (hlong : m.config.minInstructionLength.toNat ≤ w.size)
    (hdecode : Instruction.decode w = .ok i) :
    fetchAndExecute.run m = match (execute i).run m with
      | .ok () after => .ok (some i) { after with lastInstruction := some i }
      | .error fault after => .error fault after := by
  have hi : m.decoded w = .ok i := by rw [decoded, hdecode, mapError_ok]
  rw [run_fetchAndExecute_of_long hslot hlong, run_reading_bind_of_ok hi, EStateM.run_bind]
  cases (execute i).run m with
  | ok _ after => rfl
  | error fault after => rfl

end Fetching

/-- **A cycle goes in one of five ways**, and each of them is how it is carried out. A cycle that
    fails has done nothing but check and read. -/
theorem Cycle.run_eq {m : Machine} {outcome : EStateM.Result Fault Machine (Option Instruction)}
    (h : m.Cycle outcome) : fetchAndExecute.run m = outcome := by
  cases h with
  | empty hslot => exact run_reading_bind_of_error (by rw [fetch, hslot])
  | data hslot hshort =>
    rw [fetchAndExecute, run_reading_bind_of_ok (fetch_of_get? hslot), EStateM.run_bind,
      EStateM.run_get]
    simp only [if_pos hshort, EStateM.run_pure]
  | @undecodable w e hslot hlong hdecode =>
    rw [run_fetchAndExecute_of_long hslot hlong]
    exact run_reading_bind_of_error (by rw [decoded, hdecode, mapError_error])
  | refused hslot hlong hdecode hrefusal =>
    rw [run_fetchAndExecute_of_decode hslot hlong hdecode, hrefusal.execute_eq]
  | executed hslot hlong hdecode heffect =>
    rw [run_fetchAndExecute_of_decode hslot hlong hdecode, heffect.execute_eq]

theorem cycle_spec (m : Machine) : m.Cycle (fetchAndExecute.run m) := by
  obtain ⟨outcome, h⟩ := m.exists_cycle
  rw [h.run_eq]
  exact h

/-- **A cycle that fails leaves the machine as it was.** -/
theorem Cycle.eq_of_error {m m' : Machine} {f : Fault} (h : m.Cycle (.error f m')) : m' = m := by
  cases h <;> rfl

theorem Cycle.step_eq_error {m m' : Machine} {f : Fault} (h : m.advance.Cycle (.error f m'))
    (hgo : m.GoesOn) : m.step = (m.advance.stopWith f, .error f) := by
  rw [step_of_goesOn hgo, h.run_eq, h.eq_of_error]

theorem Cycle.step_eq_ok {m m' : Machine} {executed : Option Instruction}
    (h : m.advance.Cycle (.ok executed m')) (hgo : m.GoesOn) : m.step = (m', .ok executed) := by
  rw [step_of_goesOn hgo, h.run_eq]

/-- **A step that is carried out** counts the cycle. A failing cycle then stops the machine with
    its fault and changes nothing else. -/
theorem step_cases {m : Machine} (h : m.GoesOn) :
    (∃ f, m.advance.Cycle (.error f m.advance) ∧ m.step = (m.advance.stopWith f, .error f)) ∨
      ∃ m' executed, m.advance.Cycle (.ok executed m') ∧ m.step = (m', .ok executed) := by
  obtain ⟨outcome, hcycle⟩ := m.advance.exists_cycle
  cases outcome with
  | error f m' =>
    have hstep := hcycle.step_eq_error h
    rw [hcycle.eq_of_error] at hcycle
    exact .inl ⟨f, hcycle, hstep⟩
  | ok executed m' => exact .inr ⟨m', executed, hcycle, hcycle.step_eq_ok h⟩

/-- The step in terms of the outcome of its cycle. -/
theorem step_eq_of_outcome {m : Machine} (h : m.GoesOn) :
    m.step = match outcome (fetchAndExecute.run m.advance) with
      | .ok (executed, after) => (after, .ok executed)
      | .error fault => (m.advance.stopWith fault, .error fault) := by
  rcases step_cases h with ⟨f, hcycle, hstep⟩ | ⟨m', executed, hcycle, hstep⟩
  · rw [hstep, hcycle.run_eq, outcome]
  · rw [hstep, hcycle.run_eq, outcome]

/-! ### What no step changes -/

/-- What an instruction leaves as it is: memory, configuration, cycle count and everything that
    was emitted before. -/
structure Keeps (m m' : Machine) : Prop where
  /-- The memory. -/
  memory : m'.memory = m.memory
  /-- The configuration. -/
  config : m'.config = m.config
  /-- The number of registers. -/
  count : m'.registers.count = m.registers.count
  /-- What was emitted. -/
  serial : m.serial.values <+: m'.serial.values

theorem Keeps.refl (m : Machine) : m.Keeps m :=
  ⟨rfl, rfl, rfl, List.prefix_rfl⟩

theorem Keeps.trans {a b c : Machine} (hab : a.Keeps b) (hbc : b.Keeps c) : a.Keeps c :=
  ⟨hbc.memory.trans hab.memory, hbc.config.trans hab.config, hbc.count.trans hab.count,
    hab.serial.trans hbc.serial⟩

theorem Effect.keeps {m m' : Machine} {i : Instruction} (h : m.Effect i m') : m.Keeps m' := by
  cases h with
  | mov | arith => exact ⟨rfl, rfl, List.length_set, List.prefix_rfl⟩
  | outEmpty | outValue => exact ⟨rfl, rfl, rfl, List.prefix_append _ _⟩
  | exit => exact ⟨rfl, rfl, rfl, List.prefix_rfl⟩

theorem keeps_advance (m : Machine) : m.Keeps m.advance :=
  ⟨rfl, rfl, rfl, List.prefix_rfl⟩

theorem keeps_stopWith (m : Machine) (f : Fault) : m.Keeps (m.stopWith f) :=
  ⟨rfl, rfl, rfl, List.prefix_rfl⟩

/-- A cycle that succeeds skips data or has the effect of an instruction. -/
theorem Cycle.keeps {m m' : Machine} {executed : Option Instruction}
    (h : m.Cycle (.ok executed m')) : m.Keeps m' := by
  cases h with
  | data => exact .refl m
  | executed _ _ _ heffect =>
    obtain ⟨hmem, hconf, hcount, hserial⟩ := heffect.keeps
    exact ⟨hmem, hconf, hcount, hserial⟩

/-- **No step touches memory or configuration**, and what was emitted stays. -/
theorem keeps_step (m : Machine) : m.Keeps m.step.1 := by
  by_cases hgo : m.GoesOn
  · rcases step_cases hgo with ⟨f, -, hstep⟩ | ⟨m', executed, hcycle, hstep⟩
    · rw [hstep]
      exact m.keeps_advance.trans (m.advance.keeps_stopWith f)
    · rw [hstep]
      exact m.keeps_advance.trans hcycle.keeps
  · rw [step_of_not_goesOn hgo]
    exact .refl m

/-! ### Faults -/

/-- A successful cycle raises no fault. -/
theorem Cycle.status_ne_faulted {m m' : Machine} {executed : Option Instruction}
    (h : m.Cycle (.ok executed m')) (hrun : m.status = .running) (f : Fault) :
    m'.status ≠ .faulted f := by
  intro hf
  cases h with
  | data => cases hrun.symm.trans hf
  | executed _ _ _ heffect =>
    cases heffect with
    | exit => cases hf
    | mov | arith | outEmpty | outValue => cases hrun.symm.trans hf

/-- A step that fails leaves a machine that does not change any more. -/
theorem not_goesOn_of_step_error {m m' : Machine} {f : Fault} (h : m.step = (m', .error f)) :
    ¬ m'.GoesOn := by
  -- Either the fault has just stopped the machine, or it had stopped before.
  by_cases hgo : m.GoesOn
  · rcases step_cases hgo with ⟨f', -, hstep⟩ | ⟨m'', executed, -, hstep⟩
    · rw [h] at hstep
      cases hstep
      rintro ⟨hrun, -⟩
      cases hrun
    · rw [h] at hstep
      cases hstep
  · rw [step_of_not_goesOn hgo] at h
    cases h
    exact hgo

/-- A step that is carried out and fails leaves a machine with its fault. -/
theorem step_error_eq {m m' : Machine} {f : Fault} (hgo : m.GoesOn)
    (h : m.step = (m', .error f)) : m' = m.advance.stopWith f := by
  rcases step_cases hgo with ⟨f', -, hstep⟩ | ⟨m'', executed, -, hstep⟩
  · rw [h] at hstep
    cases hstep
    rfl
  · rw [h] at hstep
    cases hstep

/-- A step that succeeds leaves a machine without a fault. -/
theorem fault?_of_step_ok {m m' : Machine} {executed : Option Instruction}
    (h : m.step = (m', .ok executed)) : m'.fault? = none := by
  by_cases hgo : m.GoesOn
  · rcases step_cases hgo with ⟨f', -, hstep⟩ | ⟨m'', executed', hcycle, hstep⟩
    · rw [h] at hstep
      cases hstep
    · rw [h] at hstep
      cases hstep
      have hne := hcycle.status_ne_faulted hgo.1
      unfold fault?
      cases hstatus : m'.status with
      | faulted f => exact absurd hstatus (hne f)
      | _ => rfl
  · rw [step_of_not_goesOn hgo] at h
    cases h

/-! ### Any number of steps -/

/-- The machine after a number of steps. A step that fails counts like any other. -/
def after (m : Machine) : Nat → Machine
  | 0 => m
  | n + 1 => m.step.1.after n

@[simp] theorem after_zero (m : Machine) : m.after 0 = m := rfl

theorem after_succ (m : Machine) (n : Nat) : m.after (n + 1) = m.step.1.after n := rfl

theorem after_add (m : Machine) (a b : Nat) : m.after (a + b) = (m.after a).after b := by
  induction a generalizing m with
  | zero => rw [Nat.zero_add, after_zero]
  | succ a ih => rw [Nat.succ_add, after_succ, ih, after_succ]

/-- The last of the steps taken apart. -/
theorem after_succ_eq_step (m : Machine) (n : Nat) : m.after (n + 1) = (m.after n).step.1 :=
  after_add m n 1

/-- A machine that does not go on stays as it is. -/
theorem after_of_not_goesOn {m : Machine} (h : ¬ m.GoesOn) (n : Nat) : m.after n = m := by
  induction n with
  | zero => rfl
  | succ n ih => rw [after_succ, step_of_not_goesOn h, ih]

theorem keeps_after (m : Machine) (n : Nat) : m.Keeps (m.after n) := by
  induction n with
  | zero => exact .refl m
  | succ n ih =>
    rw [after_succ_eq_step]
    exact ih.trans (m.after n).keeps_step

/-! ### The loops -/

/-- A step that fails is the last one that changes a machine. -/
theorem after_succ_of_step_error {m m' : Machine} {f : Fault} (h : m.step = (m', .error f))
    (n : Nat) : m.after (n + 1) = m' := by
  rw [after_succ, h, after_of_not_goesOn (not_goesOn_of_step_error h)]

/-- Cycles are counted up to the last value of the cycle count. -/
theorem toNat_cycle_add_one {m : Machine} (h : m.cycle ≠ Address.last.slot) :
    (m.cycle + 1).toNat = m.cycle.toNat + 1 :=
  Address.toNat_add_one h

theorem cycle_step_le (m : Machine) : m.step.1.cycle.toNat ≤ m.cycle.toNat + 1 := by
  by_cases hgo : m.GoesOn
  · rcases step_cases hgo with ⟨f, -, hstep⟩ | ⟨m', executed, -, hstep⟩
    · rw [hstep]
      exact (toNat_cycle_add_one hgo.2).le
    · rw [hstep]
      exact (cycle_step hstep).le
  · rw [step_of_not_goesOn hgo]
    exact Nat.le_succ _

/-- No step counts more than one cycle. -/
theorem cycle_after_le (m : Machine) (n : Nat) :
    (m.after n).cycle.toNat ≤ m.cycle.toNat + n := by
  induction n with
  | zero => exact le_rfl
  | succ n ih =>
    rw [after_succ_eq_step]
    have hstep := (m.after n).cycle_step_le
    omega

/-- The number of cycles from a machine to a limit of its cycle count. -/
def room (m : Machine) (limit : UInt64) : Nat :=
  limit.toNat - m.cycle.toNat

/-- The loop up to a limit only takes steps that are carried out. -/
theorem goesOn_of_isRunning {m : Machine} {limit : UInt64} (h : m.isRunning ∧ m.cycle < limit) :
    m.GoesOn := by
  obtain ⟨hrun, hlt⟩ := h
  refine ⟨by simpa [isRunning] using hrun, ?_⟩
  intro hlast
  rw [hlast] at hlt
  have hlt' := UInt64.lt_iff_toNat_lt.mp hlt
  have hlimit := limit.toNat_lt
  rw [Address.toNat_last] at hlt'
  omega

theorem exists_room_eq_succ {m : Machine} {limit : UInt64} (h : m.cycle < limit) :
    ∃ n, m.room limit = n + 1 := by
  have hlt := UInt64.lt_iff_toNat_lt.mp h
  exact ⟨limit.toNat - (m.cycle.toNat + 1), by unfold room; omega⟩

/-- A step uses up one of the cycles to the limit. -/
theorem room_of_step_ok {m m' : Machine} {executed : Option Instruction} {limit : UInt64}
    (hlt : m.cycle < limit) (h : m.step = (m', .ok executed)) :
    m.room limit = m'.room limit + 1 := by
  have hcycle := cycle_step h
  have hlt' := UInt64.lt_iff_toNat_lt.mp hlt
  unfold room
  omega

/-- Where a loop stops, the steps that are left to its limit would not change the machine: either
    it has stopped, or none are left. -/
theorem after_room_of_stop {m : Machine} {limit : UInt64}
    (h : ¬ (m.isRunning ∧ m.cycle < limit)) : m.after (m.room limit) = m := by
  by_cases hrun : m.isRunning
  · -- The limit is reached.
    have hge : limit.toNat ≤ m.cycle.toNat :=
      UInt64.le_iff_toNat_le.mp (UInt64.not_lt.mp fun hlt => h ⟨hrun, hlt⟩)
    rw [room, Nat.sub_eq_zero_of_le hge, after_zero]
  · exact after_of_not_goesOn (not_goesOn_of_not_isRunning hrun) _

section Loop

variable {m m' : Machine} {limit : UInt64}

theorem runTo_of_stop (h : ¬ (m.isRunning ∧ m.cycle < limit)) : m.runTo limit = (m, .ok ()) := by
  rw [runTo, dif_neg h]

theorem runTo_of_step_error {f : Fault} (hgo : m.isRunning ∧ m.cycle < limit)
    (hstep : m.step = (m', .error f)) : m.runTo limit = (m', .error f) := by
  rw [runTo, dif_pos hgo]
  split
  next hs =>
    cases hstep.symm.trans hs
    rfl
  next hs =>
    cases hstep.symm.trans hs

theorem runTo_of_step_ok {executed : Option Instruction} (hgo : m.isRunning ∧ m.cycle < limit)
    (hstep : m.step = (m', .ok executed)) : m.runTo limit = m'.runTo limit := by
  rw [runTo, dif_pos hgo]
  split
  next hs =>
    cases hstep.symm.trans hs
  next hs =>
    cases hstep.symm.trans hs
    rfl

end Loop

/-- **The loop up to a limit does nothing but steps**, one for each cycle to the limit. -/
theorem runTo_eq_after (m : Machine) (limit : UInt64) :
    (m.runTo limit).1 = m.after (m.room limit) := by
  induction m using runTo.induct limit with
  | case1 m hgo m' f hstep =>
    obtain ⟨n, hn⟩ := exists_room_eq_succ hgo.2
    rw [runTo_of_step_error hgo hstep, hn, after_succ_of_step_error hstep]
  | case2 m hgo m' executed hstep ih =>
    rw [runTo_of_step_ok hgo hstep, ih, room_of_step_ok hgo.2 hstep, after_succ, hstep]
  | case3 m hstop =>
    rw [runTo_of_stop hstop, after_room_of_stop hstop]

/-- The number of cycles that a budget allows: the cycle count does not go past its last value. -/
def allowed (m : Machine) (budget : UInt64) : Nat :=
  m.room (saturatingAdd m.cycle budget)

theorem runLimited_eq_after (m : Machine) (budget : UInt64) :
    (m.runLimited budget).1 = m.after (m.allowed budget) := by
  show (m.runTo (saturatingAdd m.cycle budget)).1 = _
  rw [runTo_eq_after]
  rfl

theorem run_of_halted {m : Machine} {code : Nat} (h : m.status = .halted code) :
    m.run = (m, .ok ⟨code, m.cycle⟩) := by
  rw [run, h]

theorem run_of_step_error {m m' : Machine} {f : Fault} (h : ∀ code, m.status ≠ .halted code)
    (hstep : m.step = (m', .error f)) : m.run = (m', .error f) := by
  rw [run]
  split
  next code hcode => exact absurd hcode (h code)
  next =>
    split
    next hs =>
      rw [hstep] at hs
      cases hs
      rfl
    next hs =>
      rw [hstep] at hs
      cases hs

theorem run_of_step_ok {m m' : Machine} {executed : Option Instruction}
    (h : ∀ code, m.status ≠ .halted code) (hstep : m.step = (m', .ok executed)) :
    m.run = m'.run := by
  rw [run]
  split
  next code hcode => exact absurd hcode (h code)
  next =>
    split
    next hs =>
      rw [hstep] at hs
      cases hs
    next hs =>
      rw [hstep] at hs
      cases hs
      rfl

/-- The loop without a budget does nothing but steps. -/
theorem run_eq_after (m : Machine) : ∃ n, m.run.1 = m.after n := by
  induction m using run.induct with
  | case1 m code hstatus => exact ⟨0, by rw [run_of_halted hstatus, after_zero]⟩
  | case2 m m' f hstep hstatus =>
    exact ⟨1, by rw [run_of_step_error hstatus hstep, after_succ, hstep, after_zero]⟩
  | case3 m m' executed hstep hstatus ih =>
    obtain ⟨n, hn⟩ := ih
    exact ⟨n + 1, by rw [run_of_step_ok hstatus hstep, hn, after_succ, hstep]⟩

end Machine

end BitMachine
