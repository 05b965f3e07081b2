import BitMachine.Proofs.Stopping

namespace BitMachine

/-!
# Runs with a budget

A budget can be spent in parts, and the answer of a run with a budget says how the run ended:

* `Machine.runTo_runTo` — the loop up to a limit may pause at any limit before it;
* `Machine.LoopEnd` — the ways in which the loop ends, and what it returns in each of them;
* `Machine.runLimited_add` — two budgets, one after the other, are one budget;
* `Machine.runLimited_eq_none_iff` — when a run with a budget returns no exit status.
-/

namespace Machine

variable {m m' : Machine}

/-! ### The cycles of a budget -/

/-- A budget allows as many cycles as it says, or as many as can still be counted. -/
theorem allowed_eq_min (m : Machine) (budget : UInt64) :
    m.allowed budget = min budget.toNat (2 ^ 64 - 1 - m.cycle.toNat) := by
  have hlt := m.cycle.toNat_lt
  rw [allowed, room, toNat_saturatingAdd]
  omega

theorem allowed_of_lt {budget : UInt64} (h : m.cycle.toNat + budget.toNat < 2 ^ 64) :
    m.allowed budget = budget.toNat := by
  rw [allowed_eq_min]
  omega

/-- A run with a budget counts no more cycles than its budget. -/
theorem cycle_runLimited_le (m : Machine) (budget : UInt64) :
    (m.runLimited budget).1.cycle.toNat ≤ m.cycle.toNat + budget.toNat := by
  have hle := m.cycle_after_le (m.allowed budget)
  rw [runLimited_eq_after]
  rw [allowed_eq_min] at hle ⊢
  omega

/-- The cycle count does not go back in a run with a budget. -/
theorem le_cycle_runLimited (m : Machine) (budget : UInt64) :
    m.cycle.toNat ≤ (m.runLimited budget).1.cycle.toNat := by
  rw [runLimited_eq_after]
  exact m.le_cycle_after _

/-! ### How the loop ends -/

/-- **How the loop up to a limit ends**, and what it returns. -/
inductive LoopEnd (m : Machine) (limit : UInt64) : Machine × Except Fault Unit → Prop
  /-- The limit is reached, and the machine goes on. -/
  | paused {m' : Machine} (hrun : m'.status = .running) (hlimit : limit ≤ m'.cycle) :
      LoopEnd m limit (m', .ok ())
  /-- The machine has halted. -/
  | halted {m' : Machine} {code : Nat} (hhalted : m'.status = .halted code) :
      LoopEnd m limit (m', .ok ())
  /-- A cycle has failed. -/
  | failed {m' : Machine} {f : Fault} (hrun : m.status = .running)
      (hfault : m'.status = .faulted f) : LoopEnd m limit (m', .error f)
  /-- A fault had stopped the machine before. The loop is not entered, and raises no fault. -/
  | stuck {f : Fault} (hfault : m.status = .faulted f) : LoopEnd m limit (m, .ok ())

theorem loopEnd_runTo (m : Machine) (limit : UInt64) : m.LoopEnd limit (m.runTo limit) := by
  induction m using runTo.induct limit with
  | case1 m hgo m' f hstep =>
    rw [runTo_of_step_error hgo hstep]
    refine .failed (goesOn_of_isRunning hgo).1 ?_
    rw [step_error_eq (goesOn_of_isRunning hgo) hstep]
    rfl
  | case2 m hgo m' executed hstep ih =>
    rw [runTo_of_step_ok hgo hstep]
    generalize m'.runTo limit = outcome at ih ⊢
    cases ih with
    | paused hrun hlimit => exact .paused hrun hlimit
    | halted hhalted => exact .halted hhalted
    | failed _ hfault => exact .failed (goesOn_of_isRunning hgo).1 hfault
    | stuck hfault =>
      -- The machine has just taken a step without a fault.
      have hnone := fault?_of_step_ok hstep
      simp [fault?, hfault] at hnone
  | case3 m hstop =>
    rw [runTo_of_stop hstop]
    cases hstatus : m.status with
    | running =>
      refine .paused hstatus (UInt64.not_lt.mp fun hlt => hstop ⟨?_, hlt⟩)
      simp [isRunning, hstatus]
    | halted code => exact .halted hstatus
    | faulted f => exact .stuck hstatus

/-- **The loop may pause.** Up to a limit it goes as up to a nearer one and from there on, unless it
    has failed by then. -/
theorem runTo_runTo {near far : UInt64} (h : near ≤ far) (m : Machine) :
    m.runTo far = match m.runTo near with
      | (paused, .ok ()) => paused.runTo far
      | (failed, .error f) => (failed, .error f) := by
  induction m using runTo.induct near with
  | case1 m hgo m' f hstep =>
    rw [runTo_of_step_error hgo hstep,
      runTo_of_step_error ⟨hgo.1, UInt64.lt_of_lt_of_le hgo.2 h⟩ hstep]
  | case2 m hgo m' executed hstep ih =>
    rw [runTo_of_step_ok hgo hstep,
      runTo_of_step_ok ⟨hgo.1, UInt64.lt_of_lt_of_le hgo.2 h⟩ hstep, ih]
  | case3 m hstop =>
    rw [runTo_of_stop hstop]

/-- The loop has counted every cycle to its limit if the machine still goes on. -/
theorem runTo_of_running {limit : UInt64} (hlimit : m.cycle.toNat ≤ limit.toNat)
    (hrun : (m.runTo limit).1.status = .running) :
    m.runTo limit = ((m.runTo limit).1, .ok ()) ∧ (m.runTo limit).1.cycle = limit := by
  have hend := m.loopEnd_runTo limit
  have hcycle : (m.runTo limit).1.cycle.toNat ≤ limit.toNat := by
    have hle := m.cycle_after_le (m.room limit)
    rw [runTo_eq_after]
    unfold room at hle ⊢
    omega
  generalize m.runTo limit = outcome at hend hrun hcycle ⊢
  cases hend with
  | paused _ hreached =>
    exact ⟨rfl, UInt64.toNat_inj.mp (le_antisymm hcycle (UInt64.le_iff_toNat_le.mp hreached))⟩
  | halted hhalted => cases hrun.symm.trans hhalted
  | failed _ hfault => cases hrun.symm.trans hfault
  | stuck hfault => cases hrun.symm.trans hfault

/-! ### Two budgets -/

/-- A run with a budget is determined by its loop. -/
theorem runLimited_congr {a b : UInt64}
    (h : m.runTo (saturatingAdd m.cycle a) = m'.runTo (saturatingAdd m'.cycle b)) :
    m.runLimited a = m'.runLimited b := by
  unfold runLimited
  rw [h]

section Sum

variable {a b : UInt64} (h : m.cycle.toNat + a.toNat + b.toNat < 2 ^ 64)

include h

theorem toNat_add_budgets : (a + b).toNat = a.toNat + b.toNat := by
  rw [UInt64.toNat_add]
  omega

/-- Two budgets take the steps of their sum. -/
theorem machine_runLimited_add :
    ((m.runLimited a).1.runLimited b).1 = (m.runLimited (a + b)).1 := by
  have hsum := toNat_add_budgets h
  have hcycle := m.cycle_runLimited_le a
  have hsecond : (m.runLimited a).1.allowed b = b.toNat := allowed_of_lt (by omega)
  have hfirst : m.allowed a = a.toNat := allowed_of_lt (by omega)
  have hwhole : m.allowed (a + b) = a.toNat + b.toNat := by
    rw [allowed_of_lt (by omega), hsum]
  rw [runLimited_eq_after (m.runLimited a).1, hsecond, runLimited_eq_after, hfirst,
    runLimited_eq_after, hwhole, after_add]

/-- **A run that was paused goes on** as if it had not been: the second budget begins where the
    first one ended, and both loops have the same limit. -/
theorem runLimited_add_of_running (hrun : (m.runLimited a).1.status = .running) :
    (m.runLimited a).1.runLimited b = m.runLimited (a + b) := by
  have hsum := toNat_add_budgets h
  have hnear : (saturatingAdd m.cycle a).toNat = m.cycle.toNat + a.toNat := by
    rw [toNat_saturatingAdd]
    omega
  have hfar : (saturatingAdd m.cycle (a + b)).toNat = m.cycle.toNat + a.toNat + b.toNat := by
    rw [toNat_saturatingAdd]
    omega
  obtain ⟨hpaused, hreached⟩ := runTo_of_running (by omega) hrun
  have hseam : saturatingAdd (m.runLimited a).1.cycle b = saturatingAdd m.cycle (a + b) := by
    have hcycle : (m.runLimited a).1.cycle = saturatingAdd m.cycle a := hreached
    refine UInt64.toNat_inj.mp ?_
    rw [toNat_saturatingAdd, hcycle, hnear, hfar]
    omega
  have hle : saturatingAdd m.cycle a ≤ saturatingAdd m.cycle (a + b) := by
    rw [UInt64.le_iff_toNat_le]
    omega
  have hloop := runTo_runTo hle m
  rw [hpaused] at hloop
  refine runLimited_congr ?_
  rw [hseam]
  exact hloop.symm

end Sum

/-- What a run with a budget emits comes behind what was emitted before. -/
theorem prefix_runLimited (m : Machine) (budget : UInt64) :
    m.serial.values <+: (m.runLimited budget).1.serial.values := by
  rw [runLimited_eq_after]
  exact (m.keeps_after _).serial

/-- **Budgets add up.** Let the cycles of two budgets be ones that can still be counted. Running
    with the first budget and then with the second one leaves the machine that running with their
    sum leaves. If it goes on after the first budget, then the second run returns what the run with
    the sum returns. No run counts more cycles than its budget, and what the first run emits is
    where the values of the run with the sum begin. -/
theorem runLimited_add (m : Machine) (a b : UInt64)
    (h : m.cycle.toNat + a.toNat + b.toNat < 2 ^ 64) :
    ((m.runLimited a).1.runLimited b).1 = (m.runLimited (a + b)).1 ∧
      ((m.runLimited a).1.status = .running →
        ((m.runLimited a).1.runLimited b).2 = (m.runLimited (a + b)).2) ∧
      (∀ (n : Machine) (budget : UInt64), n.cycle.toNat ≤ (n.runLimited budget).1.cycle.toNat ∧
        (n.runLimited budget).1.cycle.toNat ≤ n.cycle.toNat + budget.toNat) ∧
      ∃ first rest, (m.runLimited a).1.serial.values = m.serial.values ++ first ∧
        (m.runLimited (a + b)).1.serial.values = m.serial.values ++ (first ++ rest) := by
  have hmachine := machine_runLimited_add h
  refine ⟨hmachine, ?_, ?_, ?_⟩
  · intro hrun
    rw [runLimited_add_of_running h hrun]
  · intro n budget
    exact ⟨n.le_cycle_runLimited budget, n.cycle_runLimited_le budget⟩
  · obtain ⟨first, hfirst⟩ := m.prefix_runLimited a
    obtain ⟨rest, hrest⟩ := (m.runLimited a).1.prefix_runLimited b
    refine ⟨first, rest, hfirst.symm, ?_⟩
    rw [← hmachine, ← hrest, ← hfirst, List.append_assoc]

/-- MOV, OUT and EXIT 4: after a budget of 2 cycles the machine goes on, and a budget of 3 takes it
    to the EXIT, as one of 5 does. -/
theorem runLimited_add_exit :
    let zero : Bits := ⟨false, [false], List.cons_ne_nil _ _⟩
    let four : Bits := ⟨false, [true, false, false], List.cons_ne_nil _ _⟩
    let five : Bits := ⟨false, [true, false, true], List.cons_ne_nil _ _⟩
    let fifteen : Bits := ⟨false, [true, true, true, true], List.cons_ne_nil _ _⟩
    let p : Program :=
      ⟨[(⟨1⟩, ⟨[zero, zero, zero, four]⟩), (⟨2⟩, ⟨[five, zero]⟩), (⟨3⟩, ⟨[fifteen, four]⟩)]⟩
    let m := ((create {}).loadProgram p).1
    m.cycle.toNat + (2 : UInt64).toNat + (3 : UInt64).toNat < 2 ^ 64 ∧
      (m.runLimited 2).1.status = .running ∧
      (m.runLimited 2).1.runLimited 3 = m.runLimited 5 ∧
      (m.runLimited 5).1.status = .halted 4 := by
  intro zero four five fifteen p m
  have hroom : m.cycle.toNat + (2 : UInt64).toNat + (3 : UInt64).toNat < 2 ^ 64 := by decide
  have hrun : (m.runLimited 2).1.status = .running := by
    rw [runLimited_eq_after, allowed_of_lt (by decide)]
    decide
  have hhalted : (m.runLimited 5).1.status = .halted 4 := by
    rw [runLimited_eq_after, allowed_of_lt (by decide)]
    decide
  obtain ⟨hmachine, hresult, -, -⟩ := runLimited_add m 2 3 hroom
  exact ⟨hroom, hrun, Prod.ext hmachine (hresult hrun), hhalted⟩

/-! ### Runs without an exit status -/

/-- A machine that still goes on has used up its budget, or has counted its last cycle. -/
theorem cycle_runLimited_of_running {budget : UInt64}
    (hrun : (m.runLimited budget).1.status = .running) :
    (m.runLimited budget).1.cycle.toNat = min (m.cycle.toNat + budget.toNat) (2 ^ 64 - 1) := by
  have hlt := m.cycle.toNat_lt
  have hlimit := toNat_saturatingAdd m.cycle budget
  obtain ⟨-, hreached⟩ := runTo_of_running (by omega) hrun
  rw [← hlimit, ← hreached]
  rfl

/-- **When a run with a budget returns no exit status.** Either a fault had stopped the machine
    before, and the run leaves it as it is and raises no fault; or the machine still goes on, and
    the run has counted all the cycles of its budget, or all that can be counted. -/
theorem runLimited_eq_none_iff (m : Machine) (budget : UInt64) :
    (m.runLimited budget).2 = .ok none ↔
      ((∃ f, m.status = .faulted f) ∧ (m.runLimited budget).1 = m) ∨
      ((m.runLimited budget).1.status = .running ∧
        (m.runLimited budget).1.cycle.toNat
          = min (m.cycle.toNat + budget.toNat) (2 ^ 64 - 1)) := by
  have hcount := @cycle_runLimited_of_running m budget
  have hend := m.loopEnd_runTo (saturatingAdd m.cycle budget)
  unfold runLimited at hcount ⊢
  generalize m.runTo (saturatingAdd m.cycle budget) = outcome at hend hcount ⊢
  cases hend with
  | paused hrun _ =>
    refine ⟨fun _ => .inr ⟨hrun, hcount hrun⟩, fun _ => ?_⟩
    simp [Except.map, exitCode?, hrun]
  | halted hhalted =>
    constructor
    · intro hnone
      simp [Except.map, exitCode?, hhalted] at hnone
    · rintro (⟨⟨f, hfault⟩, rfl⟩ | ⟨hrun, -⟩)
      · cases hfault.symm.trans hhalted
      · cases hrun.symm.trans hhalted
  | failed hrun hfault =>
    constructor
    · intro hnone
      cases hnone
    · rintro (⟨⟨f, hbefore⟩, -⟩ | ⟨hstill, -⟩)
      · cases hbefore.symm.trans hrun
      · cases hstill.symm.trans hfault
  | stuck hfault =>
    refine ⟨fun _ => .inl ⟨⟨_, hfault⟩, rfl⟩, fun _ => ?_⟩
    simp [Except.map, exitCode?, hfault]

/-- An OUT of register 8 of 8 has stopped the machine. A run with a budget of 5 cycles then counts
    none, and returns neither an exit status nor a fault. -/
theorem runLimited_none_of_fault :
    let five : Bits := ⟨false, [true, false, true], List.cons_ne_nil _ _⟩
    let eight : Bits := ⟨false, [true, false, false, false], List.cons_ne_nil _ _⟩
    let p : Program := ⟨[(⟨1⟩, ⟨[five, eight]⟩)]⟩
    let m := ((create {}).loadProgram p).1.performAll [.step]
    m.status = .faulted (.invalidRegister 1 .out 8 8) ∧ m.runLimited 5 = (m, .ok none) := by
  intro five eight p m
  have hstatus : m.status = .faulted (.invalidRegister 1 .out 8 8) := by decide
  have hstop : m.runTo (saturatingAdd m.cycle 5) = (m, .ok ()) :=
    runTo_of_stop (by simp [isRunning, hstatus])
  refine ⟨hstatus, ?_⟩
  unfold runLimited
  rw [hstop]
  simp [Except.map, exitCode?, hstatus]

end Machine

end BitMachine
