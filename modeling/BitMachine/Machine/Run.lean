import BitMachine.Machine.Step

/-!
# Running

* `Machine.run` — steps until an EXIT or a fault. It ends because every step counts a cycle and
  the cycle counter is bounded.
* `Machine.runTo` — the same up to a cycle count, and `Machine.runLimited`, with a budget of
  cycles.
-/

namespace BitMachine

/-- How a program ended. -/
structure ExitStatus where
  /-- The code of the EXIT. -/
  code : Nat
  /-- The cycles that went by, the one of the EXIT included. -/
  cycles : UInt64
deriving DecidableEq

namespace Machine

/-! ### The cycle count -/

/-- The machine that an action leaves behind, whether a fault ends it or not. -/
def left {α : Type} (x : Action α) (m : Machine) : Machine :=
  match x.run m with
  | .ok _ m' => m'
  | .error _ m' => m'

/-- An action that leaves the cycle count as it is. -/
def KeepsCycle {α : Type} (x : Action α) : Prop :=
  ∀ m, (left x m).cycle = m.cycle

section

variable {α β : Type}

theorem KeepsCycle.bind {x : Action α} {f : α → Action β} (hx : KeepsCycle x)
    (hf : ∀ a, KeepsCycle (f a)) : KeepsCycle (x >>= f) := by
  intro m
  have hfirst := hx m
  unfold left at hfirst ⊢
  rw [EStateM.run_bind]
  cases hrun : x.run m with
  | error fault m' =>
    rw [hrun] at hfirst
    exact hfirst
  | ok a m' =>
    rw [hrun] at hfirst
    exact (hf a m').trans hfirst

theorem keepsCycle_ofExcept (result : Except Fault α) :
    KeepsCycle (ofExcept result : Action α) := by
  intro m
  cases result with
  | error fault => rfl
  | ok a => rfl

theorem keepsCycle_reading (read : Machine → Except Fault α) : KeepsCycle (reading read) :=
  fun m => keepsCycle_ofExcept (read m) m

theorem keepsCycle_modify {f : Machine → Machine} (hf : ∀ m, (f m).cycle = m.cycle) :
    KeepsCycle (modify f : Action Unit) :=
  hf

theorem keepsCycle_store (opcode : Opcode) (index : UInt64) (value : Bits) :
    KeepsCycle (store opcode index value) := by
  intro m
  exact keepsCycle_ofExcept _ { m with registers := (m.registers.set index value).1 }

end

/-- **No instruction counts a cycle.** -/
theorem keepsCycle_execute (i : Instruction) : KeepsCycle (execute i) := by
  cases i with
  | mov dst src =>
    refine (keepsCycle_reading _).bind fun _ => ?_
    exact (keepsCycle_reading _).bind fun value => keepsCycle_store .mov dst value
  | arith op lhs rhs dst =>
    refine (keepsCycle_reading _).bind fun sources => ?_
    exact (keepsCycle_reading _).bind fun value => keepsCycle_store (.arith op) dst value
  | out src =>
    refine (keepsCycle_reading _).bind fun _ => ?_
    exact (keepsCycle_reading _).bind fun _ => keepsCycle_modify fun _ => rfl
  | exit code => exact (keepsCycle_reading _).bind fun _ => keepsCycle_modify fun _ => rfl

theorem keepsCycle_fetchAndExecute : KeepsCycle fetchAndExecute := by
  refine (keepsCycle_reading _).bind fun word m => ?_
  show (left (if word.size < m.config.minInstructionLength.toNat then _ else _) m).cycle = m.cycle
  split
  · rfl
  · refine (keepsCycle_reading _).bind (fun i => ?_) m
    refine (keepsCycle_execute i).bind fun _ => ?_
    refine KeepsCycle.bind (keepsCycle_modify ?_) fun _ => ?_
    · exact fun _ => rfl
    · exact fun _ => rfl

/-- A cycle that does not fail counts one up. -/
theorem cycle_step {m m' : Machine} {executed : Option Instruction}
    (h : m.step = (m', .ok executed)) : m'.cycle.toNat = m.cycle.toNat + 1 := by
  rw [step] at h
  split at h
  next => cases h
  next hgo =>
    have hkeeps := keepsCycle_fetchAndExecute { m with cycle := m.cycle + 1 }
    unfold left at hkeeps
    cases hrun : fetchAndExecute.run { m with cycle := m.cycle + 1 } with
    | error fault m'' =>
      simp only [hrun] at h
      cases h
    | ok executed' m'' =>
      simp only [hrun] at h hkeeps
      cases h
      rw [hkeeps, Address.toNat_add_one fun hlast => hgo (.inr hlast)]

/-- Steps until an EXIT or a fault. -/
def run (m : Machine) : Machine × Except Fault ExitStatus :=
  match m.status with
  | .halted code => (m, .ok ⟨code, m.cycle⟩)
  | _ =>
    match _h : m.step with
    | (m', .error fault) => (m', .error fault)
    | (m', .ok _) => run m'
termination_by UInt64.size - m.cycle.toNat
decreasing_by
  have hs := cycle_step _h
  have hlt := m.cycle.toNat_lt
  simp only [UInt64.size]
  omega

/-- A step below a limit of the cycle count leaves fewer cycles up to the limit. -/
theorem room_step {m m' : Machine} {executed : Option Instruction} {limit : UInt64}
    (hlt : m.cycle < limit) (h : m.step = (m', .ok executed)) :
    limit.toNat - m'.cycle.toNat < limit.toNat - m.cycle.toNat := by
  have hs := cycle_step h
  have hlt' := UInt64.lt_iff_toNat_lt.mp hlt
  omega

/-- Steps as long as the machine goes on and the cycle count is below a limit. -/
def runTo (m : Machine) (limit : UInt64) : Machine × Except Fault Unit :=
  if _hgo : m.isRunning ∧ m.cycle < limit then
    match _h : m.step with
    | (m', .error fault) => (m', .error fault)
    | (m', .ok _) => runTo m' limit
  else (m, .ok ())
termination_by limit.toNat - m.cycle.toNat
decreasing_by exact room_step _hgo.2 _h

/-- The sum of two counts, or the largest count if that is smaller. -/
def saturatingAdd (a b : UInt64) : UInt64 :=
  if a.toNat + b.toNat < UInt64.size then a + b else Address.last.slot

/-- Runs for at most `budget` cycles. The exit status is missing when the machine has not halted
    by then, be it that the budget ran out or that an earlier fault had stopped it. -/
def runLimited (m : Machine) (budget : UInt64) :
    Machine × Except Fault (Option ExitStatus) :=
  let (m, result) := m.runTo (saturatingAdd m.cycle budget)
  (m, result.map fun _ => m.exitCode?.map (⟨·, m.cycle⟩))

end Machine

end BitMachine
