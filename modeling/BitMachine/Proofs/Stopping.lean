import BitMachine.Proofs.Framing
import Mathlib.Order.Bounds.Basic

namespace BitMachine

/-!
# Where a run stops

A run has no bound of its own. It ends because every cycle passes a stored word and memory holds
finitely many:

* `Machine.ahead` — the number of words that are stored above the cycle count;
* `Machine.Stops` — why a run stops in a cycle: an empty slot, an EXIT or a fault;
* `Machine.exists_stops` — one of the next cycles is such a cycle, the words ahead being the
  measure, and `Machine.exists_first_stop`: the first of them;
* `Machine.Ended` — a machine that has halted or faulted, and what its run returns;
* `Machine.run_stops_first` — a run ends in the first such cycle, and a run with enough budget in
  the same way.
-/

/-! ### Words ahead -/

/-- Of the words from an occupied slot on, all but one are stored above it. -/
theorem countP_le_of_lookup {es : List (Address × Word)} (hes : Increasing es) {a : Address}
    {w : Word} (h : es.lookup a = some w) :
    es.countP (fun e => decide (a.slot ≤ e.1.slot))
      = es.countP (fun e => decide (a.slot < e.1.slot)) + 1 := by
  induction es with
  | nil => cases h
  | cons e rest ih =>
    obtain ⟨b, v⟩ := e
    have hcons := List.pairwise_cons.mp hes
    rw [lookup_cons_entry] at h
    by_cases hab : a = b
    · -- The slot itself: the words after it are all above it.
      subst hab
      have hrest : rest.countP (fun e => decide (a.slot ≤ e.1.slot))
          = rest.countP (fun e => decide (a.slot < e.1.slot)) := by
        refine List.countP_congr fun e he => ?_
        have hlt : a.slot < e.1.slot := hcons.1 e he
        have hle : a.slot ≤ e.1.slot := UInt64.le_of_lt hlt
        simp [hlt, hle]
      rw [List.countP_cons_of_pos (by simp), List.countP_cons_of_neg (by simp), hrest]
    · -- A slot before it counts in neither number.
      rw [if_neg hab] at h
      obtain ⟨front, rear, hsplit, -⟩ := List.lookup_eq_some_iff.mp h
      have hba : b.slot < a.slot := hcons.1 (a, w) (by simp [hsplit])
      have hle : ¬ a.slot ≤ b.slot := UInt64.not_le.mpr hba
      have hlt : ¬ a.slot < b.slot := fun hlt => hle (UInt64.le_of_lt hlt)
      rw [List.countP_cons_of_neg (by simpa using hle),
        List.countP_cons_of_neg (by simpa using hlt)]
      exact ih hcons.2 h

namespace Machine

/-- The number of words that are stored above the cycle count. -/
def ahead (m : Machine) : Nat :=
  m.memory.entries.countP fun entry => decide (m.cycle < entry.1.slot)

/-- **A cycle passes one of the words ahead.** -/
theorem ahead_eq_succ {m m' : Machine} {w : Word} (hlast : m.cycle ≠ Address.last.slot)
    (hslot : m.memory.cells.get? ⟨m.cycle + 1⟩ = some w) (hmemory : m'.memory = m.memory)
    (hcycle : m'.cycle = m.cycle + 1) : m.ahead = m'.ahead + 1 := by
  have hnext := toNat_cycle_add_one hlast
  have hiff : ∀ entry ∈ m.memory.entries,
      decide (m.cycle < entry.1.slot) = true ↔ decide (m.cycle + 1 ≤ entry.1.slot) = true := by
    intro entry _
    rw [decide_eq_true_iff, decide_eq_true_iff, UInt64.lt_iff_toNat_lt, UInt64.le_iff_toNat_le,
      hnext]
    rfl
  unfold ahead
  rw [hmemory, hcycle, List.countP_congr hiff]
  exact countP_le_of_lookup m.memory.cells.increasing hslot

/-! ### Cycles in which a run stops -/

/-- **Why a run stops** in the cycle that has just been counted. -/
inductive Stops (m : Machine) : Prop
  /-- The slot is empty. -/
  | empty (hslot : m.memory.cells.get? ⟨m.cycle⟩ = none)
  /-- The word is executed as an EXIT. -/
  | exit {code : UInt64} (hi : m.Decodes (.exit code))
  /-- The word should be executed, and is no instruction. -/
  | undecodable {w : Word} {e : DecodeError} (hw : m.Fetches w)
      (he : Instruction.decode w = .error e)
  /-- The instruction fails. -/
  | fails {i : Instruction} {f : Fault} {m' : Machine} (hi : m.Decodes i)
      (hf : (execute i).run m = .error f m')

/-- A cycle in which a run stops fails or halts the machine. -/
theorem Stops.cycle {m : Machine} (h : m.Stops) :
    (∃ f, m.Cycle (.error f m)) ∨
      ∃ m' executed code, m.Cycle (.ok executed m') ∧ m'.status = .halted code := by
  cases h with
  | empty hslot => exact .inl ⟨_, .empty hslot⟩
  | @exit code hi =>
    obtain ⟨w, ⟨hslot, hlong⟩, hdecode⟩ := hi
    by_cases hcode : code.toNat < exitCodeLimit
    · exact .inr ⟨_, _, code.toNat, .executed hslot hlong hdecode (.exit hcode), rfl⟩
    · exact .inl ⟨_, .refused hslot hlong hdecode (.exitCode (Nat.le_of_not_lt hcode))⟩
  | undecodable hw he => exact .inl ⟨_, .undecodable hw.1 hw.2 he⟩
  | fails hi hf =>
    obtain ⟨w, ⟨hslot, hlong⟩, hdecode⟩ := hi
    exact .inl ⟨_, .refused hslot hlong hdecode (execute_eq_error_iff.mp hf).1⟩

/-- Only an EXIT changes the status. -/
theorem Effect.status_eq {m m' : Machine} {i : Instruction} (h : m.Effect i m')
    (hi : ∀ code, i ≠ .exit code) : m'.status = m.status := by
  cases h with
  | @exit code _ => exact absurd rfl (hi code)
  | _ => rfl

/-- A cycle in which a run does not stop passes its word, and the machine goes on as before. -/
theorem cycle_of_not_stops {m : Machine} (h : ¬ m.Stops) :
    ∃ w m' executed, m.memory.cells.get? ⟨m.cycle⟩ = some w ∧
      m.Cycle (.ok executed m') ∧ m'.status = m.status := by
  have hspec := m.cycle_spec
  generalize fetchAndExecute.run m = outcome at hspec
  cases hspec with
  | empty hslot => exact absurd (.empty hslot) h
  | data hslot hshort => exact ⟨_, m, none, hslot, .data hslot hshort, rfl⟩
  | undecodable hslot hlong hdecode => exact absurd (.undecodable ⟨hslot, hlong⟩ hdecode) h
  | refused hslot hlong hdecode hrefusal =>
    exact absurd (.fails ⟨_, ⟨hslot, hlong⟩, hdecode⟩ hrefusal.execute_eq) h
  | @executed w i m' hslot hlong hdecode heffect =>
    have hne : ∀ code, i ≠ .exit code := by
      rintro code rfl
      exact h (.exit ⟨w, ⟨hslot, hlong⟩, hdecode⟩)
    exact ⟨w, _, _, hslot, .executed hslot hlong hdecode heffect, heffect.status_eq hne⟩

/-! ### Cycles that a run passes -/

/-- What a step did in a cycle that the run goes past: the slot is occupied, its word has been
    executed or skipped, and the machine goes on. -/
structure Passes (m : Machine) : Prop where
  /-- The slot is occupied. -/
  occupied : m.memory.contains m.nextAddress = true
  /-- The step succeeds. -/
  step : ∃ executed, m.step = (m.step.1, .ok executed)
  /-- The machine goes on. -/
  status : m.step.1.status = .running

theorem passes_of_not_stops {m : Machine} (hgo : m.GoesOn) (h : ¬ m.advance.Stops) :
    m.Passes := by
  obtain ⟨w, m', executed, hslot, hcycle, hstatus⟩ := cycle_of_not_stops h
  have hstep := hcycle.step_eq_ok hgo
  refine ⟨?_, ⟨executed, by rw [hstep]⟩, ?_⟩
  · show (m.memory.cells.get? ⟨m.cycle + 1⟩).isSome = true
    rw [show m.memory.cells.get? ⟨m.cycle + 1⟩ = some w from hslot]
    rfl
  · rw [hstep]
    exact hstatus.trans hgo.1

/-- The cycle of a step that is carried out. -/
theorem cycle_step_of_goesOn {m : Machine} (hgo : m.GoesOn) :
    m.step.1.cycle = m.cycle + 1 := by
  rcases step_cases hgo with ⟨f, -, hstep⟩ | ⟨m', executed, hcycle, hstep⟩
  · rw [hstep]
    rfl
  · have hcount := cycle_step hstep
    rw [← toNat_cycle_add_one hgo.2] at hcount
    rw [hstep]
    exact UInt64.toNat_inj.mp hcount

/-- The cycle count does not go back. -/
theorem le_cycle_after (m : Machine) (k : Nat) : m.cycle.toNat ≤ (m.after k).cycle.toNat := by
  induction k with
  | zero => exact le_rfl
  | succ k ih =>
    rw [after_succ_eq_step]
    refine ih.trans ?_
    by_cases hgo : (m.after k).GoesOn
    · rw [cycle_step_of_goesOn hgo, toNat_cycle_add_one hgo.2]
      exact Nat.le_succ _
    · rw [step_of_not_goesOn hgo]

/-- **One of the next cycles is the last one.** The measure is the number of words ahead, of which
    every cycle that does not stop the run passes one. -/
theorem exists_stops {m : Machine} (hrun : m.status = .running)
    (hroom : m.cycle.toNat + m.ahead + 1 < 2 ^ 64) :
    ∃ n ≤ m.ahead, (m.after n).advance.Stops := by
  generalize hahead : m.ahead = bound at hroom ⊢
  induction bound generalizing m with
  | zero =>
    refine ⟨0, Nat.le_refl 0, ?_⟩
    by_contra hstops
    have hgo : m.GoesOn := goesOn_of_lt hrun (by omega)
    obtain ⟨w, -, -, hslot, -, -⟩ := cycle_of_not_stops hstops
    have hsucc := ahead_eq_succ hgo.2 hslot m.keeps_step.memory (cycle_step_of_goesOn hgo)
    omega
  | succ bound ih =>
    by_cases hstops : m.advance.Stops
    · exact ⟨0, Nat.zero_le _, hstops⟩
    · have hgo : m.GoesOn := goesOn_of_lt hrun (by omega)
      obtain ⟨w, -, -, hslot, -, -⟩ := cycle_of_not_stops hstops
      have hcycle := cycle_step_of_goesOn hgo
      have hsucc := ahead_eq_succ hgo.2 hslot m.keeps_step.memory hcycle
      have hnext := toNat_cycle_add_one hgo.2
      rw [← hcycle] at hnext
      obtain ⟨n, hn, hafter⟩ := ih (passes_of_not_stops hgo hstops).status (by omega) (by omega)
      exact ⟨n + 1, by omega, hafter⟩

/-- **The first stopping cycle** is one of the next cycles. -/
theorem exists_first_stop {m : Machine} (hrun : m.status = .running)
    (hroom : m.cycle.toNat + m.ahead + 1 < 2 ^ 64) :
    ∃ n ≤ m.ahead, (m.after n).advance.Stops ∧ ∀ j < n, ¬ (m.after j).advance.Stops := by
  classical
  obtain ⟨bound, hbound, hstops⟩ := exists_stops hrun hroom
  have hexists : ∃ n, (m.after n).advance.Stops := ⟨bound, hstops⟩
  exact ⟨Nat.find hexists, (Nat.find_min' hexists hstops).trans hbound, Nat.find_spec hexists,
    fun j hj => Nat.find_min hexists hj⟩

theorem ne_halted_of_running {m : Machine} (h : m.status = .running) (code : Nat) :
    m.status ≠ .halted code := by
  rw [h]
  exact Status.noConfusion

/-- **What a run shows for the cycles that it goes past**: the machine goes on, every cycle has been
    counted, and the run and the loop up to a limit are those from here on. -/
structure GoesPast (m : Machine) (n : Nat) : Prop where
  /-- The machine goes on. -/
  status : (m.after n).status = .running
  /-- Every cycle has been counted. -/
  cycle : (m.after n).cycle.toNat = m.cycle.toNat + n
  /-- The run goes on from here. -/
  run : m.run = (m.after n).run
  /-- So does the loop up to a limit that is not behind. -/
  runTo : ∀ limit : UInt64, m.cycle.toNat + n ≤ limit.toNat →
    m.runTo limit = (m.after n).runTo limit

theorem GoesPast.goesOn {m : Machine} {n : Nat} (h : m.GoesPast n)
    (hroom : m.cycle.toNat + n + 1 < 2 ^ 64) : (m.after n).GoesOn := by
  have hcycle := h.cycle
  exact goesOn_of_lt h.status (by omega)

/-- One cycle further. -/
theorem GoesPast.succ {m : Machine} {n : Nat} (h : m.GoesPast n)
    (hroom : m.cycle.toNat + n + 1 < 2 ^ 64) (hpasses : (m.after n).Passes) :
    m.GoesPast (n + 1) := by
  obtain ⟨executed, hstep⟩ := hpasses.step
  have hcycle := cycle_step_of_goesOn (h.goesOn hroom)
  have hnext := toNat_cycle_add_one (h.goesOn hroom).2
  refine ⟨?_, ?_, ?_, ?_⟩
  · rw [after_succ_eq_step]
    exact hpasses.status
  · rw [after_succ_eq_step, hcycle, hnext, h.cycle]
    rfl
  · rw [after_succ_eq_step, h.run]
    exact run_of_step_ok (ne_halted_of_running h.status) hstep
  · intro limit hlimit
    have hgo : (m.after n).isRunning ∧ (m.after n).cycle < limit := by
      refine ⟨by simp [isRunning, h.status], ?_⟩
      rw [UInt64.lt_iff_toNat_lt, h.cycle]
      omega
    rw [after_succ_eq_step, h.runTo limit (by omega)]
    exact runTo_of_step_ok hgo hstep

/-- **A run goes past every cycle that does not stop it.** -/
theorem goesPast_of_not_stops {m : Machine} (hrun : m.status = .running) {n : Nat}
    (hroom : m.cycle.toNat + n < 2 ^ 64) (h : ∀ j < n, ¬ (m.after j).advance.Stops) :
    m.GoesPast n := by
  induction n with
  | zero => exact ⟨hrun, rfl, rfl, fun _ _ => rfl⟩
  | succ n ih =>
    have hpast := ih (by omega) (fun j hj => h j (by omega))
    have hgo := hpast.goesOn (by omega)
    exact hpast.succ (by omega) (passes_of_not_stops hgo (h n (by omega)))

/-! ### The end of a run -/

/-- A machine that has stopped, and what its run returns. -/
inductive Ended (m : Machine) : Except Fault ExitStatus → Prop
  /-- It has halted: the run returns the exit code and the cycle count. -/
  | halted {code : Nat} (h : m.status = .halted code) : Ended m (.ok ⟨code, m.cycle⟩)
  /-- It has faulted: the run returns the fault. -/
  | faulted {f : Fault} (h : m.status = .faulted f) : Ended m (.error f)

/-- **The last cycle of a run.** Without a limit and with one, the run ends there in the same
    machine. -/
theorem run_of_stops {m : Machine} (hgo : m.GoesOn) (h : m.advance.Stops) :
    ∃ r, m.run = (m.step.1, r) ∧ m.step.1.Ended r ∧
      ∀ limit, m.cycle < limit → m.runTo limit = (m.step.1, r.map fun _ => ()) := by
  have hnot := ne_halted_of_running hgo.1
  have hrunning : m.isRunning := by simp [isRunning, hgo.1]
  rcases h.cycle with ⟨f, hcycle⟩ | ⟨m', executed, code, hcycle, hhalted⟩
  · -- The cycle fails.
    have hstep := hcycle.step_eq_error hgo
    rw [hstep]
    refine ⟨.error f, run_of_step_error hnot hstep, .faulted rfl, ?_⟩
    intro limit hlimit
    exact runTo_of_step_error ⟨hrunning, hlimit⟩ hstep
  · -- The cycle is an EXIT, and both loops notice that before the next one.
    have hstep := hcycle.step_eq_ok hgo
    rw [hstep]
    refine ⟨.ok ⟨code, m'.cycle⟩, ?_, .halted hhalted, ?_⟩
    · rw [run_of_step_ok hnot hstep]
      exact run_of_halted hhalted
    · intro limit hlimit
      rw [runTo_of_step_ok ⟨hrunning, hlimit⟩ hstep]
      exact runTo_of_stop (by simp [isRunning, hhalted])

/-- **The end of a run** that goes past some cycles and stops in the next one. -/
theorem GoesPast.run_of_stops {m : Machine} {n : Nat} (h : m.GoesPast n)
    (hroom : m.cycle.toNat + n + 1 < 2 ^ 64) (hstops : (m.after n).advance.Stops) :
    ∃ r, m.run = (m.after (n + 1), r) ∧
      (m.after (n + 1)).cycle.toNat = m.cycle.toNat + (n + 1) ∧ (m.after (n + 1)).Ended r ∧
      ∀ limit : UInt64, m.cycle.toNat + n < limit.toNat →
        m.runTo limit = (m.after (n + 1), r.map fun _ => ()) := by
  have hgo := h.goesOn hroom
  obtain ⟨r, hend, hended, hlimit⟩ := Machine.run_of_stops hgo hstops
  rw [after_succ_eq_step]
  refine ⟨r, ?_, ?_, hended, ?_⟩
  · rw [h.run, hend]
  · rw [cycle_step_of_goesOn hgo, toNat_cycle_add_one hgo.2, h.cycle]
    rfl
  · intro limit hreach
    have hlt : (m.after n).cycle < limit := by
      rw [UInt64.lt_iff_toNat_lt, h.cycle]
      exact hreach
    rw [h.runTo limit hreach.le, hlimit limit hlt]

theorem toNat_saturatingAdd (a b : UInt64) :
    (saturatingAdd a b).toNat = min (a.toNat + b.toNat) (2 ^ 64 - 1) := by
  unfold saturatingAdd
  by_cases h : a.toNat + b.toNat < UInt64.size
  · have hlt : a.toNat + b.toNat < 2 ^ 64 := h
    rw [if_pos h, UInt64.toNat_add]
    omega
  · have hge : ¬ a.toNat + b.toNat < 2 ^ 64 := h
    rw [if_neg h, Address.toNat_last]
    omega

/-- What a run with a budget returns for a machine that has stopped. -/
theorem Ended.exitStatus {m : Machine} {r : Except Fault ExitStatus} (h : m.Ended r) :
    (r.map fun _ => ()).map (fun _ => m.exitCode?.map (⟨·, m.cycle⟩)) = r.map some := by
  cases h with
  | halted hstatus =>
    simp [Except.map, exitCode?, hstatus]
  | faulted hstatus => rfl

/-! ### Every run -/

/-- The machine in a cycle of its run: the cycles before it have gone by, and it has been
    counted. -/
def inCycle (m : Machine) (k : Nat) : Machine :=
  (m.after (k - (m.cycle.toNat + 1))).advance

/-- **A run ends at its first stopping cycle.** Let a machine run that has `m.ahead` words above its
    cycle count, and let there be room to count one cycle more than these. Then

    * the cycle that the run ends in is the first in which the slot is empty, the word is executed
      as an EXIT, or its execution faults;
    * it comes at most one cycle after as many as there are words ahead;
    * each cycle before it found a word, which was executed or skipped;
    * the machine has halted or faulted, and the run returns just that;
    * a run with a budget of at least so many cycles ends in the same machine with the same
      result. -/
theorem run_stops_first (m : Machine) (hrun : m.status = .running)
    (hroom : m.cycle.toNat + m.ahead + 1 < 2 ^ 64) :
    IsLeast {k | m.cycle.toNat < k ∧ (m.inCycle k).Stops} m.run.1.cycle.toNat ∧
      m.run.1.cycle.toNat ≤ m.cycle.toNat + (m.ahead + 1) ∧
      m.run.1 = m.after (m.run.1.cycle.toNat - m.cycle.toNat) ∧
      (∀ n, m.cycle.toNat + (n + 1) < m.run.1.cycle.toNat →
        (m.after n).Passes ∧ (m.after n).step.1.cycle.toNat = m.cycle.toNat + (n + 1)) ∧
      m.run.1.Ended m.run.2 ∧
      ∀ budget : UInt64, m.ahead + 1 ≤ budget.toNat →
        m.runLimited budget = (m.run.1, m.run.2.map some) := by
  obtain ⟨n, hn, hstops, hfirst⟩ := exists_first_stop hrun hroom
  have hpast : ∀ j ≤ n, m.GoesPast j := fun j hj =>
    goesPast_of_not_stops hrun (by omega) (fun i hi => hfirst i (by omega))
  obtain ⟨r, hresult, hcycle, hended, hlimit⟩ :=
    (hpast n (Nat.le_refl n)).run_of_stops (by omega) hstops
  rw [hresult]
  simp only [hcycle]
  refine ⟨⟨?_, ?_⟩, by omega, ?_, ?_, hended, ?_⟩
  · -- The cycle stops the run.
    refine ⟨by omega, ?_⟩
    rw [inCycle, show m.cycle.toNat + (n + 1) - (m.cycle.toNat + 1) = n by omega]
    exact hstops
  · -- No cycle before it does.
    rintro k ⟨hk, hkstops⟩
    by_contra hlt
    exact hfirst (k - (m.cycle.toNat + 1)) (by omega) hkstops
  · rw [show m.cycle.toNat + (n + 1) - m.cycle.toNat = n + 1 by omega]
  · intro j hj
    have hj' : j < n := by omega
    have hgo' := (hpast j hj'.le).goesOn (by omega)
    refine ⟨passes_of_not_stops hgo' (hfirst j hj'), ?_⟩
    rw [← after_succ_eq_step]
    exact (hpast (j + 1) hj').cycle
  · intro budget hbudget
    have hreach : m.cycle.toNat + n < (saturatingAdd m.cycle budget).toNat := by
      rw [toNat_saturatingAdd]
      omega
    unfold runLimited
    rw [hlimit _ hreach]
    exact congrArg (Prod.mk _) hended.exitStatus

/-- A data word, an EXIT 3, and a word that is never reached: the run ends at slot 2. -/
theorem run_stops_first_exit :
    ∃ m : Machine, m.status = .running ∧ m.cycle.toNat + m.ahead + 1 < 2 ^ 64 ∧ m.ahead = 3 ∧
      m.run.2 = .ok ⟨3, 2⟩ ∧ IsLeast {k | m.cycle.toNat < k ∧ (m.inCycle k).Stops} 2 ∧
      m.runLimited 4 = (m.run.1, .ok (some ⟨3, 2⟩)) := by
  let three : Bits := ⟨false, [true, true], List.cons_ne_nil _ _⟩
  let fifteen : Bits := ⟨false, [true, true, true, true], List.cons_ne_nil _ _⟩
  let cells :=
    ((Cells.empty.insert ⟨1⟩ ⟨[three]⟩).insert ⟨2⟩ ⟨[fifteen, three]⟩).insert ⟨3⟩ ⟨[three]⟩
  let m : Machine := withMemory {} { Memory.empty none with cells := cells }
  have hstatus : m.status = .running := rfl
  have hroom : m.cycle.toNat + m.ahead + 1 < 2 ^ 64 := by decide
  have hskip : m.step = (m.step.1, .ok none) := rfl
  have hexit : m.step.1.step = (m.step.1.step.1, .ok (some (.exit 3))) := rfl
  have hrun : m.run = (m.step.1.step.1, .ok ⟨3, 2⟩) := by
    rw [run_of_step_ok (ne_halted_of_running hstatus) hskip,
      run_of_step_ok (ne_halted_of_running rfl) hexit]
    exact run_of_halted rfl
  obtain ⟨hleast, -, -, -, -, hbudget⟩ := run_stops_first m hstatus hroom
  have hlimited := hbudget 4 (by decide)
  have hfst : m.run.1 = m.step.1.step.1 := congrArg Prod.fst hrun
  have hsnd : m.run.2 = .ok ⟨3, 2⟩ := congrArg Prod.snd hrun
  rw [hfst] at hleast
  rw [hsnd] at hlimited
  exact ⟨m, hstatus, hroom, by decide, hsnd, hleast, hlimited⟩

end Machine

end BitMachine
