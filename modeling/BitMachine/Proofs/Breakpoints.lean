import BitMachine.Proofs.DebuggerOperations
import BitMachine.Proofs.Stopping

namespace BitMachine

/-!
# Continuous execution and breakpoints

Rounds of continuous execution are steps of the machine, up to the first place at which the
debugger has to pause:

* `Machine.exists_nextAddress_eq` — a slot that the cycle count has passed was the next address at
  some moment;
* `Debugger.Ends` — the numbers of steps after which a number of rounds can have ended, and
  `Debugger.machine_ticks_of_isLeast`: the least of them is the number of steps;
* `Debugger.not_mem_breakpoints_of_fetched` — no slot that was fetched is a breakpoint;
* `Debugger.ahead_ticks` — a round that does not end continuous execution passes a stored word, so
  their number is bounded;
* `Debugger.ticks_pause_first` — all of this for every debugger that executes continuously.
-/

/-! ### Slots that were fetched -/

/-- **A slot that the cycle count has passed** was the next address at some moment. -/
theorem Machine.exists_nextAddress_eq {m : Machine} {a : Address} {k : Nat}
    (hlo : m.cycle < a.slot) (hhi : a.slot ≤ (m.after k).cycle) :
    ∃ j < k, (m.after j).nextAddress = a := by
  rw [UInt64.lt_iff_toNat_lt] at hlo
  rw [UInt64.le_iff_toNat_le] at hhi
  induction k with
  | zero => exact absurd hlo (Nat.not_lt.mpr hhi)
  | succ k ih =>
    by_cases hbefore : a.slot.toNat ≤ (m.after k).cycle.toNat
    · obtain ⟨j, hj, heq⟩ := ih hbefore
      exact ⟨j, Nat.lt_succ_of_lt hj, heq⟩
    · -- The last step has counted one cycle, which is the one of the slot.
      have hcount := (m.after k).cycle_step_le
      rw [after_succ_eq_step] at hhi
      have hlt := a.slot.toNat_lt
      have hslot : (m.after k).cycle + 1 = a.slot := by
        rw [← UInt64.toNat_inj, UInt64.toNat_add, UInt64.toNat_one]
        omega
      exact ⟨k, Nat.lt_succ_self k, congrArg Address.mk hslot⟩

/-- A step that succeeds passes one of the words ahead. -/
theorem Machine.ahead_of_step_ok {m m' : Machine} {executed : Option Instruction}
    (h : m.step = (m', .ok executed)) : m.ahead = m'.ahead + 1 := by
  have hgo : m.GoesOn := by
    by_contra hstop
    rw [step_of_not_goesOn hstop] at h
    cases h
  have hmemory := m.keeps_step.memory
  have hcount := cycle_step_of_goesOn hgo
  rw [h] at hmemory hcount
  have hslot : ∃ w, m.memory.cells.get? ⟨m.cycle + 1⟩ = some w := by
    rcases step_cases hgo with ⟨f, -, hstep⟩ | ⟨_, _, hcycle, -⟩
    · cases h.symm.trans hstep
    · cases hcycle with
      | data hslot => exact ⟨_, hslot⟩
      | executed hslot => exact ⟨_, hslot⟩
  obtain ⟨w, hw⟩ := hslot
  exact ahead_eq_succ hgo.2 hw hmemory hcount

theorem Machine.ahead_le_size (m : Machine) : m.ahead ≤ m.memory.size :=
  List.countP_le_length

namespace Debugger

variable {d : Debugger}

/-! ### Rounds -/

theorem ticks_of_not_running (h : d.running = false) (n : Nat) : d.ticks n = d := by
  induction n with
  | zero => rfl
  | succ n ih => rw [ticks, tick_of_not_running h, ih]

/-- The last of the rounds taken apart. -/
theorem ticks_succ (d : Debugger) (n : Nat) : d.ticks (n + 1) = (d.ticks n).tick := by
  induction n generalizing d with
  | zero => rfl
  | succ n ih => rw [ticks, ih, ticks]

theorem breakpoints_ticks (d : Debugger) (n : Nat) : (d.ticks n).breakpoints = d.breakpoints := by
  induction n with
  | zero => rfl
  | succ n ih => rw [ticks_succ, (d.ticks n).sameChoices_tick.breakpoints, ih]

/-! ### How far the rounds get -/

/-- The numbers of steps after which `n` rounds can have ended: all rounds are used up, or the
    machine has stopped, or the next address is a breakpoint. -/
def Ends (d : Debugger) (n : Nat) : Set Nat :=
  {k | k = n ∨ ¬ (d.machine.after k).isRunning ∨ (d.machine.after k).nextAddress ∈ d.breakpoints}

/-- After a round that takes a step, everything is one step nearer. -/
theorem isLeast_ends_step {n k : Nat} (h : IsLeast (d.Ends (n + 1)) (k + 1)) :
    IsLeast (d.step.Ends n) k := by
  have hbreak := d.sameChoices_step.breakpoints
  have hiff : ∀ j, j ∈ d.step.Ends n ↔ j + 1 ∈ d.Ends (n + 1) := by
    intro j
    show j = n ∨ _ ↔ j + 1 = n + 1 ∨ _
    rw [machine_step, hbreak, Machine.after_succ, Nat.succ_inj]
  refine ⟨(hiff k).mpr h.1, fun j hj => ?_⟩
  exact Nat.le_of_succ_le_succ (h.2 ((hiff j).mp hj))

/-- **Rounds of continuous execution** take as many steps as the first of their ends is away. -/
theorem machine_ticks_of_isLeast (hrunning : d.running = true) {n k : Nat}
    (h : IsLeast (d.Ends n) k) : (d.ticks n).machine = d.machine.after k := by
  induction n generalizing d k with
  | zero =>
    have hk : k ≤ 0 := h.2 (.inl rfl)
    rw [Nat.le_zero.mp hk]
    rfl
  | succ n ih =>
    by_cases hpauses : d.Pauses
    · -- The first round only notices this.
      have hk : k ≤ 0 := h.2 (.inr hpauses)
      obtain ⟨status, heq⟩ := tick_of_pauses hrunning hpauses
      rw [ticks, heq, ticks_of_not_running rfl, Nat.le_zero.mp hk]
      rfl
    · cases k with
      | zero =>
        rcases h.1 with hn | hends
        · cases hn
        · exact absurd hends hpauses
      | succ k =>
        rw [ticks, tick_of_not_pauses hrunning hpauses, Machine.after_succ]
        rcases d.step_cases with ⟨m, executed, status, hstep, heq⟩ | ⟨m, f, status, hstep, heq⟩
        · have hstill : d.step.running = true := by
            rw [heq]
            exact hrunning
          rw [ih hstill (isLeast_ends_step h), machine_step]
        · -- The step fails, and neither further rounds nor further steps change anything.
          rw [heq, ticks_of_not_running rfl, hstep]
          exact (Machine.after_of_not_goesOn (Machine.not_goesOn_of_step_error hstep) k).symm

/-- Some number of steps is the first of the ends. -/
theorem exists_isLeast_ends (d : Debugger) (n : Nat) : ∃ k, IsLeast (d.Ends n) k := by
  classical
  have hexists : ∃ k, k ∈ d.Ends n := ⟨n, .inl rfl⟩
  exact ⟨Nat.find hexists, Nat.find_spec hexists, fun j hj => Nat.find_min' hexists hj⟩

/-- **No slot that was fetched is a breakpoint.** The slots that rounds of continuous execution
    fetch are those that the cycle count passes. -/
theorem not_mem_breakpoints_of_fetched (hrunning : d.running = true) {n : Nat} {a : Address}
    (hlo : d.machine.cycle < a.slot) (hhi : a.slot ≤ (d.ticks n).machine.cycle) :
    a ∉ d.breakpoints := by
  intro hbreak
  obtain ⟨k, hleast⟩ := d.exists_isLeast_ends n
  rw [machine_ticks_of_isLeast hrunning hleast] at hhi
  obtain ⟨j, hj, hnext⟩ := Machine.exists_nextAddress_eq hlo hhi
  -- The breakpoint would have been an earlier end.
  have hend : j ∈ d.Ends n := .inr (.inr (hnext ▸ hbreak))
  exact Nat.not_le_of_lt hj (hleast.2 hend)

/-! ### How long the rounds last -/

/-- A round that leaves the debugger running has passed one of the words ahead. -/
theorem ahead_tick (h : d.tick.running = true) :
    d.running = true ∧ d.machine.ahead = d.tick.machine.ahead + 1 := by
  rcases d.tick_cases with ⟨hidle, htick⟩ | ⟨-, status, htick⟩ | ⟨hrunning, -, htick⟩
  · rw [htick, hidle] at h
    cases h
  · rw [htick] at h
    cases h
  · refine ⟨hrunning, ?_⟩
    rw [htick] at h ⊢
    rcases d.step_cases with ⟨m, executed, status, hstep, heq⟩ | ⟨m, f, status, hstep, heq⟩
    · rw [heq]
      exact Machine.ahead_of_step_ok hstep
    · rw [heq] at h
      cases h

/-- **Rounds that leave the debugger running** have passed as many words. -/
theorem ahead_ticks {n : Nat} (h : (d.ticks n).running = true) :
    d.machine.ahead = (d.ticks n).machine.ahead + n := by
  induction n with
  | zero => rfl
  | succ n ih =>
    rw [ticks_succ] at h ⊢
    obtain ⟨hrunning, hahead⟩ := ahead_tick h
    have hbefore := ih hrunning
    omega

theorem running_ticks_eq_false {n : Nat} (h : d.machine.memory.size < n) :
    (d.ticks n).running = false := by
  by_contra hrunning
  have hahead := ahead_ticks (Bool.eq_true_of_not_eq_false hrunning)
  have hsize := d.machine.ahead_le_size
  omega

/-! ### Continuous execution -/

/-- **No breakpoint is run over, and continuous execution ends.** Whatever a debugger that executes
    continuously holds, and after any number of rounds:

    * its machine is the one that so many steps lead to as is the least of the number of rounds,
      the steps until the machine has stopped and the steps until the next address is a breakpoint;
    * none of the slots that were fetched on the way is a breakpoint;
    * a further round that finds the machine stopped or a breakpoint at the next address leaves the
      machine as it is and ends continuous execution;
    * with more rounds than words are stored, continuous execution has ended.

    A round at the last value of the cycle count finds its step refused, which is a convention of
    `Machine.step`: no machine that was loaded gets there. -/
theorem ticks_pause_first (d : Debugger) (hrunning : d.running = true) (n : Nat) :
    (∃ k, IsLeast (d.Ends n) k ∧ (d.ticks n).machine = d.machine.after k) ∧
      (∀ a ∈ d.breakpoints,
        ¬ (d.machine.cycle < a.slot ∧ a.slot ≤ (d.ticks n).machine.cycle)) ∧
      (¬ (d.ticks n).machine.isRunning ∨ (d.ticks n).machine.nextAddress ∈ d.breakpoints →
        (d.ticks (n + 1)).machine = (d.ticks n).machine ∧ (d.ticks (n + 1)).running = false) ∧
      (d.machine.memory.size + 1 ≤ n → (d.ticks n).running = false) := by
  refine ⟨?_, ?_, ?_, running_ticks_eq_false⟩
  · obtain ⟨k, hleast⟩ := d.exists_isLeast_ends n
    exact ⟨k, hleast, machine_ticks_of_isLeast hrunning hleast⟩
  · rintro a hbreak ⟨hlo, hhi⟩
    exact not_mem_breakpoints_of_fetched hrunning hlo hhi hbreak
  · intro hends
    have hpauses : (d.ticks n).Pauses := by
      rw [Pauses, breakpoints_ticks]
      exact hends
    rw [ticks_succ]
    by_cases hstill : (d.ticks n).running = true
    · obtain ⟨status, heq⟩ := tick_of_pauses hstill hpauses
      rw [heq]
      exact ⟨rfl, rfl⟩
    · have hnot : (d.ticks n).running = false := by simpa using hstill
      rw [tick_of_not_running hnot]
      exact ⟨rfl, hnot⟩

/-- Two words of data and an EXIT, with a breakpoint at the second word: of five rounds one takes a
    step. -/
theorem ticks_pause_first_second_word :
    ∃ d : Debugger, d.running = true ∧ d.breakpoints = [⟨2⟩] ∧ d.machine.memory.size = 3 ∧
      (d.ticks 5).machine = d.machine.after 1 ∧ (d.ticks 5).running = false := by
  let three : Bits := ⟨false, [true, true], List.cons_ne_nil _ _⟩
  let fifteen : Bits := ⟨false, [true, true, true, true], List.cons_ne_nil _ _⟩
  let p := Program.ofWords [⟨[three]⟩, ⟨[three]⟩, ⟨[fifteen, three]⟩]
  let d : Debugger := { create {} p with breakpoints := [⟨2⟩], running := true }
  have hrunning : d.running = true := rfl
  obtain ⟨⟨k, hleast, hmachine⟩, -, -, hbound⟩ := ticks_pause_first d hrunning 5
  -- After one step the next address is the breakpoint, and before it neither reason is there.
  have hle : k ≤ 1 := hleast.2 (.inr (.inr (by decide)))
  have hne : k ≠ 0 := by
    rintro rfl
    rcases hleast.1 with hn | hstop | hbreak
    · cases hn
    · exact hstop (by decide)
    · exact absurd hbreak (by decide)
  obtain rfl : k = 1 := by omega
  exact ⟨d, hrunning, rfl, rfl, hmachine, hbound (by decide)⟩

end Debugger

end BitMachine
