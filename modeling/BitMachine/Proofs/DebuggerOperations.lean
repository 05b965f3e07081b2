import BitMachine.Debugger.Basic
import BitMachine.Proofs.Steps

namespace BitMachine.Debugger

/-!
# What the operations of a debugger change

Whatever is asked of a debugger, its machine stays as it is, takes one step, or is loaded anew:

* `step_cases` — a step is a step of the machine, and one that fails ends continuous execution;
* `Pauses` — a debugger whose next round takes no step, and `tick_cases`: the three ways in which
  a round goes;
* `SameChoices` — what steps and rounds leave as the user has chosen it;
* `Request`, `perform` and `performAll` — the operations, one by one and in a row;
* `perform_cases` — the three things that can happen to the machine.
-/

variable {d : Debugger}

/-! ### Steps and rounds -/

/-- **A step of a debugger is a step of its machine.** One that fails, also because the machine has
    stopped before, ends continuous execution. Nothing else changes but the status line. -/
theorem step_cases (d : Debugger) :
    (∃ m executed status, d.machine.step = (m, .ok executed) ∧
      d.step = { d with machine := m, status := status }) ∨
    ∃ m f status, d.machine.step = (m, .error f) ∧
      d.step = { d with machine := m, status := status, running := false } := by
  unfold step
  by_cases hrun : d.machine.isRunning = true
  · rw [if_neg (by simp [hrun])]
    rcases hstep : d.machine.step with ⟨m, f | _ | i⟩
    · exact .inr ⟨m, f, _, rfl, rfl⟩
    · exact .inl ⟨m, none, _, rfl, rfl⟩
    · exact .inl ⟨m, some i, _, rfl, rfl⟩
  · -- The step is refused, and the machine it leaves is the same.
    rw [if_pos (by simp [hrun])]
    have hrefused := Machine.step_of_not_goesOn (Machine.not_goesOn_of_not_isRunning hrun)
    exact .inr ⟨d.machine, _, _, hrefused, rfl⟩

theorem machine_step (d : Debugger) : d.step.machine = d.machine.step.1 := by
  rcases d.step_cases with ⟨m, executed, status, hstep, heq⟩ | ⟨m, f, status, hstep, heq⟩
  · rw [heq, hstep]
  · rw [heq, hstep]

/-- What the user has chosen: the program, the breakpoints and the view. -/
structure SameChoices (d d' : Debugger) : Prop where
  /-- The program. -/
  program : d'.program = d.program
  /-- The breakpoints. -/
  breakpoints : d'.breakpoints = d.breakpoints
  /-- The view. -/
  scroll : d'.scroll = d.scroll

theorem sameChoices_step (d : Debugger) : d.SameChoices d.step := by
  rcases d.step_cases with ⟨m, executed, status, -, heq⟩ | ⟨m, f, status, -, heq⟩
  · rw [heq]
    exact ⟨rfl, rfl, rfl⟩
  · rw [heq]
    exact ⟨rfl, rfl, rfl⟩

/-- A debugger that takes no step in the next round, even if it executes continuously: the machine
    has stopped, or the next address is a breakpoint. -/
def Pauses (d : Debugger) : Prop :=
  ¬ d.machine.isRunning ∨ d.machine.nextAddress ∈ d.breakpoints

theorem tick_of_not_running (h : d.running = false) : d.tick = d := by
  rw [tick, if_pos (by simp [h])]

/-- A round that takes no step ends continuous execution. -/
theorem tick_of_pauses (hrunning : d.running = true) (h : d.Pauses) :
    ∃ status, d.tick = { d with running := false, status := status } := by
  unfold tick
  rw [if_neg (by simp [hrunning])]
  by_cases hrun : d.machine.isRunning = true
  · have hbreak : d.machine.nextAddress ∈ d.breakpoints := h.resolve_left (not_not.mpr hrun)
    rw [if_neg (by simp [hrun]), if_pos (List.contains_iff_mem.mpr hbreak)]
    exact ⟨_, rfl⟩
  · rw [if_pos (by simp [hrun])]
    exact ⟨_, rfl⟩

theorem tick_of_not_pauses (hrunning : d.running = true) (h : ¬ d.Pauses) : d.tick = d.step := by
  obtain ⟨hrun, hbreak⟩ := not_or.mp h
  rw [not_not] at hrun
  rw [tick, if_neg (by simp [hrunning]), if_neg (by simp [hrun]),
    if_neg (by simpa using hbreak)]

/-- **A round of continuous execution** does nothing, or ends the execution, or takes a step. -/
theorem tick_cases (d : Debugger) :
    (d.running = false ∧ d.tick = d) ∨
      (d.Pauses ∧ ∃ status, d.tick = { d with running := false, status := status }) ∨
      (d.running = true ∧ ¬ d.Pauses ∧ d.tick = d.step) := by
  by_cases hrunning : d.running = true
  · by_cases hpauses : d.Pauses
    · exact .inr (.inl ⟨hpauses, tick_of_pauses hrunning hpauses⟩)
    · exact .inr (.inr ⟨hrunning, hpauses, tick_of_not_pauses hrunning hpauses⟩)
  · have hidle : d.running = false := by simpa using hrunning
    exact .inl ⟨hidle, tick_of_not_running hidle⟩

theorem sameChoices_tick (d : Debugger) : d.SameChoices d.tick := by
  rcases d.tick_cases with ⟨-, heq⟩ | ⟨-, status, heq⟩ | ⟨-, -, heq⟩
  · rw [heq]
    exact ⟨rfl, rfl, rfl⟩
  · rw [heq]
    exact ⟨rfl, rfl, rfl⟩
  · rw [heq]
    exact d.sameChoices_step

/-! ### Operations in a row -/

/-- What can be asked of a debugger. -/
inductive Request where
  /-- One cycle. -/
  | step
  /-- Continuous execution from now on. -/
  | run
  /-- One round of continuous execution. -/
  | tick
  /-- A breakpoint at the next address, or none any more. -/
  | toggleBreakpoint
  /-- The program loaded again. -/
  | reset
  /-- The view one word back. -/
  | scrollUp
  /-- The view one word on. -/
  | scrollDown

/-- The debugger after a request. -/
def perform (d : Debugger) : Request → Debugger
  | .step => d.step
  | .run => d.run
  | .tick => d.tick
  | .toggleBreakpoint => d.toggleBreakpoint
  | .reset => d.reset
  | .scrollUp => d.scrollUp
  | .scrollDown => d.scrollDown

/-- The debugger after requests in a row. -/
def performAll (d : Debugger) (requests : List Request) : Debugger :=
  requests.foldl perform d

/-- What an operation does to the machine of a debugger. -/
inductive Moves (d : Debugger) : Machine → Prop
  /-- Nothing. -/
  | stays : Moves d d.machine
  /-- It takes a step. -/
  | steps : Moves d d.machine.step.1
  /-- The program is loaded again. -/
  | reloads : Moves d (loaded d.machine d.program)

/-- **No operation changes the program**, and the machine stays as it is, takes one step, or is
    loaded anew. -/
theorem perform_cases (d : Debugger) (r : Request) :
    (d.perform r).program = d.program ∧ d.Moves (d.perform r).machine := by
  have hstep : d.Moves d.step.machine := by
    rw [d.machine_step]
    exact .steps
  cases r with
  | step => exact ⟨d.sameChoices_step.program, hstep⟩
  | run => exact ⟨rfl, .stays⟩
  | tick =>
    refine ⟨d.sameChoices_tick.program, ?_⟩
    show d.Moves d.tick.machine
    rcases d.tick_cases with ⟨-, heq⟩ | ⟨-, status, heq⟩ | ⟨-, -, heq⟩
    · rw [heq]
      exact .stays
    · rw [heq]
      exact .stays
    · rw [heq]
      exact hstep
  | toggleBreakpoint =>
    show d.toggleBreakpoint.program = d.program ∧ d.Moves d.toggleBreakpoint.machine
    unfold toggleBreakpoint
    dsimp only
    split
    · exact ⟨rfl, .stays⟩
    · exact ⟨rfl, .stays⟩
  | reset => exact ⟨rfl, .reloads⟩
  | scrollUp => exact ⟨rfl, .stays⟩
  | scrollDown =>
    show d.scrollDown.program = d.program ∧ d.Moves d.scrollDown.machine
    unfold scrollDown
    split
    · exact ⟨rfl, .stays⟩
    · exact ⟨rfl, .stays⟩

end BitMachine.Debugger
