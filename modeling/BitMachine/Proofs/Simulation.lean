import BitMachine.Proofs.LineMachine
import BitMachine.Proofs.Loading
import BitMachine.Proofs.Steps
import Mathlib.Data.List.Nodup

namespace BitMachine

/-!
# An assembled program runs as its source lines say

The machine that runs an assembled program shows, cycle by cycle, what the line machine of its
source text shows: the same integers in the registers, the same emitted values and the same end.

* `Source.layout_nodup` — no two lines of a source text are placed at one slot, so after loading
  each slot holds the word of its line;
* `Machine.Agrees` — a machine shows what a line machine shows;
* `Simulates` — the invariant: the machine agrees, its memory holds the words of the lines, and
  no register holds a negative zero;
* `Simulates.execute`, `Simulates.step`, `Simulates.after` — the invariant is kept by
  instructions, by cycles and by runs;
* `assembled_runs_as_lines` — the theorem about source texts.
-/

open Source

/-! ### The layout of a source text -/

namespace Source

namespace Layout

/-- No two items stand at one address. -/
def Distinct (l : Layout) : Prop :=
  (l.items.map Prod.fst).Nodup

theorem Distinct.place {l l' : Layout} (h : l.Distinct) {item : Item}
    (hplace : l.place item = .ok l') : l'.Distinct := by
  unfold Layout.place at hplace
  split at hplace
  · cases hplace
  next addr _ =>
    split at hplace
    · cases hplace
    next hfree =>
      cases hplace
      have hnew : addr ∉ l.items.map Prod.fst := fun hmem => hfree (isSome_lookup_iff.mpr hmem)
      exact nodup_concat_entry.mpr ⟨hnew, h⟩

theorem Distinct.apply {l l' : Layout} (h : l.Distinct) {statement : Statement}
    (happly : l.apply statement = .ok l') : l'.Distinct := by
  cases statement with
  | origin addr =>
    cases happly
    exact h
  | item content => exact h.place happly

theorem Distinct.applyLine {l l' : Layout} (h : l.Distinct) {line : List Char}
    (hline : l.applyLine line = .ok l') : l'.Distinct := by
  unfold Layout.applyLine at hline
  obtain ⟨statement?, -, hstatement⟩ := bind_eq_ok.mp hline
  cases statement? with
  | none =>
    cases hstatement
    exact h
  | some statement => exact h.apply hstatement

theorem Distinct.applyLines {l l' : Layout} (h : l.Distinct) {number : Nat}
    {lines : List (List Char)} (hlines : l.applyLines number lines = .ok l') : l'.Distinct := by
  induction lines generalizing l number with
  | nil =>
    cases hlines
    exact h
  | cons line rest ih =>
    unfold Layout.applyLines at hlines
    split at hlines
    next hline => exact ih (h.applyLine hline) hlines
    next => cases hlines

end Layout

/-- **No two lines at one slot.** -/
theorem layout_nodup {source : String} {items : List (Address × Item)}
    (h : layout source = .ok items) : (items.map Prod.fst).Nodup := by
  obtain ⟨l, hl, hitems⟩ := bind_eq_ok.mp h
  cases hitems
  have hempty : Layout.Distinct {} := List.nodup_nil
  exact hempty.applyLines hl

/-- The words of a program are those of its items. -/
theorem lookup_programOf (items : List (Address × Item)) (width : Nat) (addr : Address) :
    (programOf items width).words.lookup addr = (items.lookup addr).map (Item.word width) := by
  unfold programOf
  induction items with
  | nil => rfl
  | cons entry rest ih =>
    obtain ⟨a, item⟩ := entry
    rw [List.map_cons, lookup_cons_entry, lookup_cons_entry, ih]
    split <;> rfl

end Source

/-! ### The invariant -/

/-- What a fault is to a line machine. Faults that no assembled program ends in are none. -/
def Fault.trap? : Fault → Option Trap
  | .outOfInstructions .. => some .emptySlot
  | .invalidRegister _ _ index _ => some (.noRegister index)
  | .emptyRegister _ _ index => some (.unwritten index)
  | .invalidAddress _ _ addr => some (.emptyAddress addr.slot)
  | .literal _ (.signed _) => some .negative
  | .literal _ (.overflow _) => some .tooLarge
  | .divisionByZero _ => some .divisionByZero
  | .overflow .. => some .productTooLarge
  | .exitCodeOutOfRange _ code => some (.exitCode code)
  | _ => none

/-- A machine and a line machine that both go on, both halted with one code, or both stopped for
    the same reason. -/
inductive Status.Agrees : Status → LineStatus → Prop
  /-- Both go on. -/
  | running : Agrees .running .running
  /-- Both halted. -/
  | halted (code : Nat) : Agrees (.halted code) (.halted code)
  /-- Both stopped. -/
  | stopped {f : Fault} {trap : Trap} (h : f.trap? = some trap) :
      Agrees (.faulted f) (.trapped trap)

/-- **A machine shows what a line machine shows.** -/
structure Machine.Agrees (m : Machine) (s : LineMachine) : Prop where
  /-- The values in the registers. -/
  registers : m.registers.slots.map (Option.map Bits.value) = s.registers
  /-- The cycle count. -/
  cycle : m.cycle.toNat = s.cycle
  /-- The status. -/
  status : m.status.Agrees s.status
  /-- The emitted values. -/
  emitted : m.serial.values = s.emitted

/-- **The invariant of the simulation.** -/
structure Simulates (items : List (Address × Item)) (width : Nat) (m : Machine)
    (s : LineMachine) : Prop where
  /-- The machine shows what the line machine shows. -/
  agrees : m.Agrees s
  /-- Memory holds the words of the lines. -/
  memory : ∀ addr, m.memory.cells.get? addr = (items.lookup addr).map (Item.word width)
  /-- Data words are too short for instructions. -/
  length : m.config.minInstructionLength = 2
  /-- No register holds a negative zero. -/
  proper : ∀ b, some b ∈ m.registers.slots → b.IsProper

/-- A fault and what it is to a line machine. -/
abbrev SameTrap (f : Fault) (trap : Trap) : Prop :=
  f.trap? = some trap

/-- A bit-string that stands for an integer. -/
def StandsFor (b : Bits) (value : Int) : Prop :=
  b.IsProper ∧ b.value = value

theorem standsFor_ofInt (value : Int) : StandsFor (Bits.ofInt value) value :=
  ⟨Bits.isProper_ofInt value, Bits.value_ofInt value⟩

theorem standsFor_encodeUnsigned (value : UInt64) (width : Nat) :
    StandsFor (encodeUnsigned value width) value.toNat := by
  refine ⟨Bits.isProper_of_unsigned rfl, ?_⟩
  rw [Bits.value_of_unsigned rfl, magnitude_encodeUnsigned]

/-- **The source of an operation** is accepted as a bit-string if it is as an integer. -/
theorem operand_accept {b : Bits} {value : Int} (h : StandsFor b value) (m : Machine)
    (op : ArithOp) :
    Related SameTrap Eq (m.needs (op.operand b)) (LineMachine.accept op value) := by
  obtain ⟨hproper, rfl⟩ := h
  have hsign := Bits.negative_iff_value_neg hproper
  unfold ArithOp.operand LineMachine.accept
  by_cases hneg : b.value < 0
  · rw [if_pos (hsign.mpr hneg), if_pos hneg]
    exact .error rfl
  · have hunsigned : b.negative = false := by simpa using fun hn => hneg (hsign.mp hn)
    have hvalue := Bits.value_of_unsigned hunsigned
    have hbound : (op.isBounded = true ∧ UInt64.size ≤ b.magnitude) ↔
        ((op = .mul ∨ op = .div) ∧ (2 : Int) ^ 64 ≤ b.value) := by
      rw [hvalue]
      simp only [UInt64.size]
      cases op <;> simp [ArithOp.isBounded]
    rw [if_neg (by simp [hunsigned]), if_neg hneg]
    by_cases hlarge : op.isBounded = true ∧ UInt64.size ≤ b.magnitude
    · -- Both refuse the source for its size.
      rw [if_pos hlarge, if_pos (hbound.mp hlarge)]
      exact .error rfl
    · rw [if_neg hlarge, if_neg (fun h => hlarge (hbound.mpr h))]
      refine .ok ?_
      rw [hvalue, Int.toNat_natCast]

/-- The result of an operation on numbers. -/
theorem combine_result (cycle : UInt64) (op : ArithOp) (x y : Nat) :
    Related SameTrap Eq (op.combine cycle x y) (LineMachine.result op x y) := by
  cases op with
  | add | sub => exact .ok rfl
  | mul =>
    rw [ArithOp.combine, LineMachine.result]
    by_cases hlt : x * y < UInt64.size
    · have hlt' : x * y < 2 ^ 64 := hlt
      rw [if_pos hlt, if_pos hlt']
      exact .ok rfl
    · have hge' : ¬ x * y < 2 ^ 64 := hlt
      rw [if_neg hlt, if_neg hge']
      exact .error rfl
  | div =>
    rw [ArithOp.combine, LineMachine.result]
    by_cases hzero : y = 0
    · rw [if_pos hzero, if_pos hzero]
      exact .error rfl
    · rw [if_neg hzero, if_neg hzero]
      exact .ok rfl

/-- **Arithmetic is exact.** -/
theorem compute_standsFor {a b : Bits} {x y : Int} (m : Machine) (op : ArithOp)
    (ha : StandsFor a x) (hb : StandsFor b y) :
    Related SameTrap StandsFor (m.compute op a b) (LineMachine.compute op x y) := by
  rw [Machine.compute_eq]
  unfold LineMachine.compute
  refine (operand_accept ha m op).bind ?_
  rintro u _ rfl
  refine (operand_accept hb m op).bind ?_
  rintro v _ rfl
  have hresult := combine_result m.cycle op u v
  generalize op.combine m.cycle u v = r at hresult ⊢
  generalize LineMachine.result op u v = r' at hresult ⊢
  cases hresult with
  | error hf => exact .error hf
  | ok heq =>
    subst heq
    exact .ok (standsFor_ofInt _)

namespace Simulates

variable {items : List (Address × Item)} {width : Nat} {m : Machine} {s : LineMachine}

theorem count_eq (h : Simulates items width m s) : m.registers.count = s.registers.length := by
  rw [← h.agrees.registers, List.length_map]
  rfl

/-- A register that holds a bit-string holds the integer that it stands for. -/
theorem held (h : Simulates items width m s) (index : UInt64) :
    Option.Rel StandsFor (m.registers.held index) (s.held index) := by
  unfold Registers.held LineMachine.held
  rw [← h.agrees.registers, List.getElem?_map]
  cases hslot : m.registers.slots[index.toNat]? with
  | none => exact .none
  | some content =>
    cases content with
    | none => exact .none
    | some b => exact .some ⟨h.proper b (List.mem_of_getElem? hslot), rfl⟩

/-- An operand that is not refused names a register. -/
theorem named (h : Simulates items width m s) (opcode : Opcode) (index : UInt64) :
    Related SameTrap (fun _ _ => index.toNat < m.registers.count)
      (m.checkRegister opcode index) (s.named index) := by
  rw [Machine.checkRegister_eq, LineMachine.named, ← h.count_eq]
  by_cases hlt : index.toNat < m.registers.count
  · rw [if_pos hlt, if_pos hlt]
    exact .ok hlt
  · rw [if_neg hlt, if_neg hlt]
    exact .error rfl

theorem read (h : Simulates items width m s) (opcode : Opcode) (index : UInt64) :
    Related SameTrap StandsFor (m.readSource opcode index) (s.read index) := by
  have hheld := h.held index
  rw [Machine.readSource_eq, LineMachine.read]
  generalize m.registers.held index = x at hheld ⊢
  generalize s.held index = y at hheld ⊢
  cases hheld with
  | none => exact .error rfl
  | some hb => exact .ok hb

theorem write (h : Simulates items width m s) (index : UInt64) {b : Bits} {value : Int}
    (hb : StandsFor b value) : Simulates items width (m.write index b) (s.write index value) := by
  obtain ⟨⟨hregs, hcycle, hstatus, hemitted⟩, hmem, hlen, hproper⟩ := h
  refine ⟨⟨?_, hcycle, hstatus, hemitted⟩, hmem, hlen, ?_⟩
  · show (m.registers.slots.set index.toNat (some b)).map (Option.map Bits.value)
      = s.registers.set index.toNat (some value)
    rw [List.map_set, hregs, Option.map_some, hb.2]
  · intro c hc
    rcases List.mem_or_eq_of_mem_set hc with hold | hnew
    · exact hproper c hold
    · cases hnew
      exact hb.1

theorem store (h : Simulates items width m s) (opcode : Opcode) {index : UInt64} {b : Bits}
    {value : Int} (hindex : index.toNat < m.registers.count) (hb : StandsFor b value) :
    Related SameTrap (fun p => Simulates items width p.2)
      (outcome ((Machine.store opcode index b).run m)) (pure (s.write index value)) := by
  rw [Machine.run_store_of_lt b hindex]
  exact .ok (h.write index hb)

theorem emit (h : Simulates items width m s) (value : Option Int) :
    Simulates items width (m.emit value) (s.emit value) := by
  obtain ⟨⟨hregs, hcycle, hstatus, hemitted⟩, hmem, hlen, hproper⟩ := h
  refine ⟨⟨hregs, hcycle, hstatus, ?_⟩, hmem, hlen, hproper⟩
  show m.serial.values ++ [value] = s.emitted ++ [value]
  rw [hemitted]

/-- The value that a MOV reads is that of the first token of a word: the data of a line, or the
    number of its operation. -/
theorem movValue (h : Simulates items width m s) (slot : UInt64) :
    Related SameTrap StandsFor (m.movValue (.address ⟨slot⟩))
      (match placed items slot.toNat with
        | none => .error (.emptyAddress slot)
        | some item => .ok (item.head.toNat : Int)) := by
  have hplaced := placed_eq_lookup items ⟨slot⟩
  simp only [Machine.movValue, h.memory]
  rw [hplaced]
  cases items.lookup ⟨slot⟩ with
  | none => exact .error rfl
  | some item =>
    simp only [Option.map_some, Option.bind_some, Item.first_word]
    exact .ok (standsFor_encodeUnsigned item.head width)

/-- **A line that is no data** has the effect of its instruction. The cases follow the lines, and
    in each the checks of the machine are those of the line machine, one by one. -/
theorem execute (h : Simulates items width m s) {item : Item} {i : Instruction}
    (hi : item.instruction? width = some i) :
    Related SameTrap (fun p => Simulates items width p.2)
      (outcome ((Machine.execute i).run m)) (s.perform items item) := by
  cases item with
  | data value => cases hi
  | loadValue dst value =>
    cases hi
    rw [Machine.execute, Machine.outcome_reading_bind]
    refine (h.named .mov dst).bind fun _ _ hdst => ?_
    rw [Machine.outcome_reading_bind]
    exact h.store .mov hdst (standsFor_encodeUnsigned value width)
  | loadFrom dst slot =>
    cases hi
    rw [Machine.execute, Machine.outcome_reading_bind]
    refine (h.named .mov dst).bind fun _ _ hdst => ?_
    rw [Machine.outcome_reading_bind]
    have hvalue := h.movValue slot
    generalize m.movValue (.address ⟨slot⟩) = x at hvalue ⊢
    generalize placed items slot.toNat = y at hvalue ⊢
    cases y with
    | none =>
      cases hvalue with
      | error hf => exact .error hf
    | some source =>
      cases hvalue with
      | ok hb => exact h.store .mov hdst hb
  | arith op lhs rhs dst =>
    cases hi
    rw [Machine.execute, Machine.outcome_reading_bind, Machine.readSources]
    simp only [Machine.outcome_reading_bind, bind_assoc, pure_bind]
    refine (h.named (.arith op) lhs).bind fun _ _ _ => ?_
    refine (h.named (.arith op) rhs).bind fun _ _ _ => ?_
    refine (h.named (.arith op) dst).bind fun _ _ hdst => ?_
    refine (h.read (.arith op) lhs).bind fun a x ha => ?_
    refine (h.read (.arith op) rhs).bind fun b y hb => ?_
    refine (compute_standsFor m op ha hb).bind fun c z hc => ?_
    exact h.store (.arith op) hdst hc
  | out src =>
    cases hi
    rw [Machine.execute, Machine.outcome_reading_bind]
    refine (h.named .out src).bind fun _ _ hsrc => ?_
    have hheld := h.held src
    rw [Machine.outcome_reading_bind, Machine.outValue_eq m hsrc]
    generalize m.registers.held src = x at hheld ⊢
    generalize s.held src = y at hheld ⊢
    cases hheld with
    | none => exact .ok (h.emit none)
    | @some b value hb =>
      obtain ⟨-, rfl⟩ := hb
      by_cases hfits : Bits.FitsSigned b.value
      · have hrange : -2 ^ 63 ≤ b.value ∧ b.value < 2 ^ 63 := hfits
        simp only [Bits.signed_of_fits hfits, if_pos hrange]
        exact .ok (h.emit (some b.value))
      · have hrange : ¬ (-2 ^ 63 ≤ b.value ∧ b.value < 2 ^ 63) := hfits
        simp only [Bits.signed_of_not_fits hfits, if_neg hrange]
        exact .error rfl
  | exit code =>
    cases hi
    rw [Machine.execute, Machine.outcome_reading_bind, LineMachine.perform]
    obtain ⟨⟨hregs, hcycle, -, hemitted⟩, hmem, hlen, hproper⟩ := h
    by_cases hcode : code.toNat < Machine.exitCodeLimit
    · have hcode' : code.toNat < 2 ^ 31 := hcode
      rw [Machine.exitValue_of_lt m hcode, if_pos hcode']
      exact .ok ⟨⟨hregs, hcycle, .halted _, hemitted⟩, hmem, hlen, hproper⟩
    · have hcode' : ¬ code.toNat < 2 ^ 31 := hcode
      rw [Machine.exitValue_of_le m (Nat.le_of_not_lt hcode), if_neg hcode']
      exact .error rfl

/-- **A cycle executes the line at its slot.** -/
theorem fetchAndExecute (h : Simulates items width m s) :
    Related SameTrap (fun p => Simulates items width p.2)
      (outcome (Machine.fetchAndExecute.run m)) (s.executeLine items) := by
  unfold LineMachine.executeLine
  have hplaced : placed items s.cycle = items.lookup ⟨m.cycle⟩ := by
    rw [← h.agrees.cycle]
    exact placed_eq_lookup items ⟨m.cycle⟩
  have hslot := h.memory ⟨m.cycle⟩
  have hlength : m.config.minInstructionLength.toNat = 2 := by rw [h.length]; rfl
  rw [hplaced]
  cases hitem : items.lookup ⟨m.cycle⟩ with
  | none =>
    rw [hitem] at hslot
    rw [(Machine.Cycle.empty hslot).run_eq]
    exact .error rfl
  | some item =>
    rw [hitem] at hslot
    show Related SameTrap _ _ (s.perform items item)
    cases hi : item.instruction? width with
    | none =>
      -- Only data is no instruction, and its word has one token.
      cases item with
      | data value =>
        rw [(Machine.Cycle.data hslot (by rw [hlength]; exact Nat.one_lt_two)).run_eq]
        exact .ok h
      | _ => cases hi
    | some i =>
      have hlong : m.config.minInstructionLength.toNat ≤ (item.word width).size := by
        rw [hlength]
        exact Item.two_le_size_word hi
      have hexecute := h.execute hi
      rw [Machine.run_fetchAndExecute_of_decode hslot hlong (Item.decode_word hi)]
      generalize (Machine.execute i).run m = x at hexecute ⊢
      generalize s.perform items item = y at hexecute ⊢
      cases x with
      | error f after =>
        cases hexecute with
        | error hf => exact .error hf
      | ok _ after =>
        cases hexecute with
        | ok h' =>
          exact .ok ⟨⟨h'.agrees.registers, h'.agrees.cycle, h'.agrees.status, h'.agrees.emitted⟩,
            h'.memory, h'.length, h'.proper⟩

theorem status_running_iff (h : Simulates items width m s) :
    m.status = .running ↔ s.status = .running := by
  have hstatus := h.agrees.status
  generalize m.status = x at hstatus ⊢
  generalize s.status = y at hstatus ⊢
  cases hstatus <;> simp

theorem advance (h : Simulates items width m s) (hlast : m.cycle ≠ Address.last.slot) :
    Simulates items width m.advance s.advance := by
  obtain ⟨⟨hregs, hcycle, hstatus, hemitted⟩, hmem, hlen, hproper⟩ := h
  refine ⟨⟨hregs, ?_, hstatus, hemitted⟩, hmem, hlen, hproper⟩
  show (m.cycle + 1).toNat = s.cycle + 1
  rw [Machine.toNat_cycle_add_one hlast, hcycle]

theorem stopWith (h : Simulates items width m s) {f : Fault} {trap : Trap}
    (hf : f.trap? = some trap) : Simulates items width (m.stopWith f) (s.stopWith trap) := by
  obtain ⟨⟨hregs, hcycle, -, hemitted⟩, hmem, hlen, hproper⟩ := h
  exact ⟨⟨hregs, hcycle, .stopped hf, hemitted⟩, hmem, hlen, hproper⟩

/-- **A step of the machine is a cycle of the line machine**, as long as cycles can be counted. -/
theorem step (h : Simulates items width m s) (hlast : m.cycle ≠ Address.last.slot) :
    Simulates items width m.step.1 (s.step items) := by
  unfold LineMachine.step
  by_cases hrun : s.status = .running
  · have hgo : m.GoesOn := ⟨h.status_running_iff.mpr hrun, hlast⟩
    have hcycle := (h.advance hlast).fetchAndExecute
    rw [Machine.step_eq_of_outcome hgo, if_neg (not_not.mpr hrun)]
    generalize outcome (Machine.fetchAndExecute.run m.advance) = x at hcycle ⊢
    generalize s.advance.executeLine items = y at hcycle ⊢
    cases hcycle with
    | ok h' => exact h'
    | error hf => exact (h.advance hlast).stopWith hf
  · have hstop : ¬ m.GoesOn := fun hgo => hrun (h.status_running_iff.mp hgo.1)
    rw [Machine.step_of_not_goesOn hstop, if_pos hrun]
    exact h

/-- **Any number of steps**, as long as cycles can be counted. -/
theorem after (h : Simulates items width m s) {k : Nat} (hk : m.cycle.toNat + k < 2 ^ 64) :
    Simulates items width (m.after k) (s.after items k) := by
  induction k with
  | zero => exact h
  | succ k ih =>
    rw [Machine.after_succ_eq_step]
    have hle := m.cycle_after_le k
    refine (ih (by omega)).step ?_
    intro hlast
    rw [hlast, Address.toNat_last] at hle
    omega

end Simulates

/-! ### Source texts -/

/-- A freshly loaded machine simulates a line machine that has not started. -/
theorem simulates_load {config : Config} {items : List (Address × Item)} {width : Nat}
    {m : Machine} (hnodup : (items.map Prod.fst).Nodup) (hmin : config.minInstructionLength = 2)
    (hload : (Machine.create config).loadProgram (programOf items width) = (m, .ok ())) :
    Simulates items width m (.start config.registerCount.toNat) := by
  have hresult : ((Machine.create config).memory.load (programOf items width).words).2 = .ok () :=
    congrArg Prod.snd hload
  have hnodup' : ((programOf items width).words.map Prod.fst).Nodup := by
    rwa [map_fst_programOf]
  have hcells := Memory.get?_load hnodup' (Prod.ext rfl hresult)
  obtain rfl : ((Machine.create config).loadProgram (programOf items width)).1 = m :=
    congrArg Prod.fst hload
  refine ⟨⟨?_, rfl, .running, rfl⟩, fun addr => ?_, hmin, fun b hb => ?_⟩
  · exact List.map_replicate
  · refine (hcells addr).trans ?_
    rw [lookup_programOf]
    exact Option.or_none
  · exact absurd (List.eq_of_mem_replicate hb) (by simp)

/-- **Source texts mean what their lines say.** Whatever the width of the tokens, the number of
    registers and the capacity, a machine into which the assembled program has been loaded shows
    after any number of steps, as long as cycles can be counted, what the lines of the source text
    give when they are executed over integers: the same values in the registers, the same cycle
    count, the same emitted values, and the same exit code or the same reason to stop. -/
theorem assembled_runs_as_lines (source : String) (width : Nat) (p : Program) (config : Config)
    (m : Machine) (k : Nat) (hasm : assemble source width = .ok p)
    (hmin : config.minInstructionLength = 2)
    (hload : (Machine.create config).loadProgram p = (m, .ok ())) (hk : k < 2 ^ 64) :
    ∃ items, layout source = .ok items ∧
      (m.after k).Agrees ((LineMachine.start config.registerCount.toNat).after items k) := by
  obtain ⟨items, hlayout, hp⟩ := bind_eq_ok.mp hasm
  cases hp
  refine ⟨items, hlayout, ?_⟩
  have hstart := simulates_load (layout_nodup hlayout) hmin hload
  have hcycle : m.cycle.toNat = 0 := hstart.agrees.cycle
  exact (hstart.after (by omega)).agrees

/-- Three minus seven, emitted, and an exit code: read off the lines, shown by the machine. -/
theorem assembled_runs_as_lines_subtraction :
    ∃ p m,
      assemble "MOV reg0 $3\nMOV reg1 $7\nSUB reg0 reg1 reg2\nOUT reg2\nEXIT $5" 4 = .ok p ∧
        (Machine.create {}).loadProgram p = (m, .ok ()) ∧
        (m.after 5).serial.values = [some (-4)] ∧ (m.after 5).status = .halted 5 := by
  let source := "MOV reg0 $3\nMOV reg1 $7\nSUB reg0 reg1 reg2\nOUT reg2\nEXIT $5"
  let items : List (Address × Item) :=
    [(⟨1⟩, .loadValue 0 3), (⟨2⟩, .loadValue 1 7), (⟨3⟩, .arith .sub 0 1 2), (⟨4⟩, .out 2),
      (⟨5⟩, .exit 5)]
  let p := programOf items 4
  let m := ((Machine.create {}).loadProgram p).1
  have hlayout : layout source = .ok items := by decide +kernel
  have hasm : assemble source 4 = .ok p := by
    rw [assemble, hlayout]
    rfl
  have hload : (Machine.create {}).loadProgram p = (m, .ok ()) := Prod.ext rfl rfl
  obtain ⟨items', hitems', hagrees⟩ :=
    assembled_runs_as_lines source 4 p {} m 5 hasm rfl hload (by decide)
  rw [hlayout] at hitems'
  cases hitems'
  have hlines : (LineMachine.start 8).after items 5
      = ⟨[some 3, some 7, some (-4), none, none, none, none, none], 5, .halted 5, [some (-4)]⟩ := by
    decide
  obtain ⟨-, -, hstatus, hemitted⟩ := hagrees
  rw [show (({} : Config).registerCount.toNat) = 8 from rfl, hlines] at hstatus hemitted
  refine ⟨p, m, hasm, hload, hemitted, ?_⟩
  generalize (m.after 5).status = status at hstatus ⊢
  cases hstatus
  rfl

end BitMachine
