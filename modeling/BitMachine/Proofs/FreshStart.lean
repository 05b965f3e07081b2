import BitMachine.Proofs.Loading
import BitMachine.Proofs.Steps

namespace BitMachine

/-!
# Fresh starts

A machine that is reset is the machine that its configuration describes, whatever it has gone
through. This rests on what no operation changes:

* `Machine.BuiltFrom` — the number of registers and the capacity are those of the configuration;
* `Machine.BuiltFrom.of_keeps`, `Machine.BuiltFrom.loadProgram` — steps and loading leave it at
  that;
* `Machine.BuiltFrom.reset_eq` — the reset machine, with nothing emitted, is a new machine;
* `Memory.load_eq_ok_of_unlimited` — without a capacity, only an empty word makes loading fail.
-/

namespace Memory

/-- Loading does not change the capacity, also if it fails. -/
theorem capacity_load (m : Memory) (es : List (Address × Word)) :
    (m.load es).1.capacity = m.capacity := by
  induction es generalizing m with
  | nil => rfl
  | cons e rest ih =>
    obtain ⟨a, w⟩ := e
    unfold load
    split
    next hins =>
      rw [ih, insertAt_eq_ok hins]
    next hins => rw [insertAt_eq_error hins]

/-- **An unlimited memory** takes every word that is not empty. -/
theorem load_eq_ok_of_unlimited {m : Memory} (hm : m.capacity = none)
    {es : List (Address × Word)} (hes : ∀ e ∈ es, e.2.isEmpty = false) :
    (m.load es).2 = .ok () := by
  induction es generalizing m with
  | nil => rfl
  | cons e rest ih =>
    obtain ⟨a, w⟩ := e
    have hw : w.isEmpty = false := hes (a, w) (by simp)
    unfold load
    rw [insertAt_eq_ok_iff.mpr ⟨hw, isFullFor_of_unlimited hm a, rfl⟩]
    apply ih
    · exact hm
    · intro e he
      exact hes e (List.mem_cons_of_mem _ he)

end Memory

namespace Machine

variable {m m' : Machine} {config : Config}

/-- **What a configuration decides for good** about a machine. -/
structure BuiltFrom (m : Machine) (c : Config) : Prop where
  /-- The configuration that the machine knows. -/
  config : m.config = c
  /-- The number of registers. -/
  count : m.registers.count = c.registerCount.toNat
  /-- The capacity of the memory. -/
  capacity : m.memory.capacity = c.memoryCapacity

theorem builtFrom_create (config : Config) : (create config).BuiltFrom config :=
  ⟨rfl, List.length_replicate, rfl⟩

/-- Steps change none of it. -/
theorem BuiltFrom.of_keeps (h : m.BuiltFrom config) (hkeeps : m.Keeps m') :
    m'.BuiltFrom config := by
  refine ⟨hkeeps.config.trans h.config, hkeeps.count.trans h.count, ?_⟩
  rw [hkeeps.memory]
  exact h.capacity

/-- Loading changes none of it, also if it fails. -/
theorem BuiltFrom.loadProgram (h : m.BuiltFrom config) (p : Program) :
    (m.loadProgram p).1.BuiltFrom config :=
  ⟨h.config, h.count, (m.memory.capacity_load p.words).trans h.capacity⟩

/-- **A reset forgets everything** that is not decided by the configuration. -/
theorem BuiltFrom.reset_eq (h : m.BuiltFrom config) : m.reset.clearSerial = create config := by
  obtain ⟨hconfig, hcount, hcapacity⟩ := h
  unfold reset rewind clearSerial create withMemory Memory.clear Registers.reset
  simp only [hconfig, hcount, hcapacity]

end Machine

end BitMachine
