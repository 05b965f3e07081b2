import BitMachine.Proofs.DebuggerOperations
import BitMachine.Proofs.FreshStart

namespace BitMachine.Debugger

/-!
# A debugger after a reset

Whatever was asked of a debugger, a reset brings its machine back to where it was when the debugger
was created, also if the program does not fit into memory:

* `loaded_eq` — a program is loaded with the same result into every machine that was built from the
  same configuration;
* `Drives` — the invariant: the debugger has its program and a machine built from its
  configuration, kept by `Drives.perform` and `Drives.performAll`;
* `reset_forgets` — what a reset does after every sequence of requests.
-/

variable {d : Debugger} {m : Machine} {config : Config} {p : Program}

/-- **Loading anew** does not depend on what the machine has gone through. -/
theorem loaded_eq (h : m.BuiltFrom config) (p : Program) :
    loaded m p = loaded (Machine.create config) p := by
  unfold loaded
  rw [h.reset_eq, (Machine.builtFrom_create config).reset_eq]

theorem builtFrom_loaded (h : m.BuiltFrom config) (p : Program) :
    (loaded m p).BuiltFrom config := by
  have hload := (Machine.builtFrom_create config).loadProgram p
  unfold loaded
  rw [h.reset_eq]
  split
  next hresult =>
    rw [hresult] at hload
    exact hload
  next hresult =>
    -- A failure leaves its fault in the status, and nothing else.
    rw [hresult] at hload
    exact hload.of_keeps (Machine.keeps_stopWith _ _)

/-- **What a debugger never loses**: its program, and what the configuration decides about its
    machine. -/
structure Drives (d : Debugger) (config : Config) (p : Program) : Prop where
  /-- The program. -/
  program : d.program = p
  /-- The machine. -/
  machine : d.machine.BuiltFrom config

theorem drives_create (config : Config) (p : Program) : (create config p).Drives config p :=
  ⟨rfl, builtFrom_loaded (Machine.builtFrom_create config) p⟩

theorem Drives.perform (h : d.Drives config p) (r : Request) : (d.perform r).Drives config p := by
  obtain ⟨hprogram, hmoves⟩ := d.perform_cases r
  refine ⟨hprogram.trans h.program, ?_⟩
  generalize (d.perform r).machine = m at hmoves ⊢
  cases hmoves with
  | stays => exact h.machine
  | steps => exact h.machine.of_keeps d.machine.keeps_step
  | reloads => exact builtFrom_loaded h.machine d.program

theorem Drives.performAll (h : d.Drives config p) (requests : List Request) :
    (d.performAll requests).Drives config p := by
  induction requests generalizing d with
  | nil => exact h
  | cons r rest ih => exact ih (h.perform r)

/-- **A reset forgets all history.** After any requests to a new debugger, whether or not its
    program could be loaded, a reset makes the machine the one that the debugger was created with,
    in all of its parts, and ends continuous execution. Breakpoints, view and program stay. -/
theorem reset_forgets (config : Config) (p : Program) (requests : List Request) :
    let d := (create config p).performAll requests
    d.reset.machine = (create config p).machine ∧ d.reset.running = false ∧
      d.reset.breakpoints = d.breakpoints ∧ d.reset.scroll = d.scroll ∧
      d.reset.program = d.program ∧ d.program = p := by
  intro d
  have hdrives : d.Drives config p := (drives_create config p).performAll requests
  refine ⟨?_, rfl, rfl, rfl, rfl, hdrives.program⟩
  show loaded d.machine d.program = loaded (Machine.create config) p
  rw [hdrives.program, loaded_eq hdrives.machine]

end BitMachine.Debugger
