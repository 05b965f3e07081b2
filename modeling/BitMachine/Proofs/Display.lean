import BitMachine.Debugger.Basic
import BitMachine.Proofs.Framing
import BitMachine.Proofs.JsonStrings
import BitMachine.Proofs.MemoryMap
import BitMachine.Proofs.Printing
import BitMachine.Proofs.Stopping
import BitMachine.Session

namespace BitMachine

/-!
# What is shown is what is done

The disassembler, the two front ends that show its texts and the machine decide on their own
whether a word is data, no instruction at all, or which instruction. They decide alike:

* `Machine.carryOut` — what a step does with an instruction, whether it succeeds or not;
* `Machine.DecodingFault` — the faults of a word that does not decode;
* `Machine.ShownAs` and `Machine.shownAs_disassemble` — the text of the word at the next address
  says what the next step does with it;
* `Session.shownAt_eq`, `Session.shownAt_of_step` — the memory view shows a stored word once, and
  the text that a step yields is the one that it showed;
* `Debugger.Lists` and `Debugger.lists_disassembly` — the rows around the next address, one of
  which is flagged and shows what the next step does;
* `disassembly_shows_step` — all of it.
-/

/-! ### Steps on a word -/

namespace Machine

variable {m : Machine} {w : Word}

/-- **What a step does with an instruction.** It yields the instruction and remembers it, or it
    stops with the fault of the instruction. -/
def carryOut (m : Machine) (i : Instruction) : Machine × Except Fault (Option Instruction) :=
  match (execute i).run m with
  | .ok () after => ({ after with lastInstruction := some i }, .ok (some i))
  | .error fault after => (after.stopWith fault, .error fault)

/-- An empty slot stops the machine. -/
theorem step_of_empty (hgo : m.GoesOn) (hslot : m.memory.cells.get? m.nextAddress = none) :
    m.step = (m.advance.stopWith (.outOfInstructions (m.cycle + 1) m.nextAddress),
      .error (.outOfInstructions (m.cycle + 1) m.nextAddress)) := by
  have hcell : m.advance.memory.cells.get? ⟨m.advance.cycle⟩ = none := hslot
  exact (Cycle.empty hcell).step_eq_error hgo

/-- A word that is too short is skipped. -/
theorem step_of_short (hgo : m.GoesOn) (hslot : m.memory.cells.get? m.nextAddress = some w)
    (hshort : w.size < m.config.minInstructionLength.toNat) : m.step = (m.advance, .ok none) := by
  have hcell : m.advance.memory.cells.get? ⟨m.advance.cycle⟩ = some w := hslot
  exact (Cycle.data hcell hshort).step_eq_ok hgo

/-- A word that does not decode stops the machine. -/
theorem step_of_undecodable {e : DecodeError} (hgo : m.GoesOn)
    (hslot : m.memory.cells.get? m.nextAddress = some w)
    (hlong : m.config.minInstructionLength.toNat ≤ w.size)
    (hdecode : Instruction.decode w = .error e) :
    m.step = (m.advance.stopWith (.ofDecodeError (m.cycle + 1) e),
      .error (.ofDecodeError (m.cycle + 1) e)) := by
  have hcell : m.advance.memory.cells.get? ⟨m.advance.cycle⟩ = some w := hslot
  exact (Cycle.undecodable hcell hlong hdecode).step_eq_error hgo

/-- A word that decodes is carried out. -/
theorem step_of_decode {i : Instruction} (hgo : m.GoesOn)
    (hslot : m.memory.cells.get? m.nextAddress = some w)
    (hlong : m.config.minInstructionLength.toNat ≤ w.size)
    (hdecode : Instruction.decode w = .ok i) : m.step = m.advance.carryOut i := by
  have hcell : m.advance.memory.cells.get? ⟨m.advance.cycle⟩ = some w := hslot
  rw [step_of_goesOn hgo, run_fetchAndExecute_of_decode hcell hlong hdecode, carryOut]
  cases (execute i).run m.advance with
  | ok _ after => rfl
  | error fault after => rfl

/-- An instruction that is carried out is not skipped. -/
theorem carryOut_ne_skipped (m : Machine) (i : Instruction) : (m.carryOut i).2 ≠ .ok none := by
  unfold carryOut
  cases (execute i).run m <;> simp

/-- The slot of an instruction that fails is not empty. -/
theorem Refusal.ne_outOfInstructions {i : Instruction} {f : Fault} (h : m.Refusal i f)
    (c : UInt64) (a : Address) : f ≠ .outOfInstructions c a := by
  cases h with
  | noResult _ _ _ _ _ _ _ hf =>
    rcases eq_of_combine_eq_error hf with rfl | rfl <;> exact Fault.noConfusion
  | _ => exact Fault.noConfusion

theorem carryOut_ne_outOfInstructions (m : Machine) (i : Instruction) (c : UInt64)
    (a : Address) : (m.carryOut i).2 ≠ .error (.outOfInstructions c a) := by
  have hspec := m.execute_spec i
  unfold carryOut
  generalize (execute i).run m = outcome at hspec ⊢
  cases hspec with
  | effect _ => simp
  | refusal hrefusal => simpa using hrefusal.ne_outOfInstructions c a

/-! ### The text of the next word -/

/-- **The faults of a word that does not decode**: its first token is the number of no operation,
    it has too many or too few operands, or one of its tokens is not the number that it should
    be. -/
inductive DecodingFault (cycle : UInt64) (w : Word) : Fault → Prop
  /-- No operation has the number. -/
  | opcode {value : UInt64} (h : Instruction.decode w = .error (.invalidOpcode value)) :
      DecodingFault cycle w (.invalidInstruction cycle value)
  /-- The operation does not take so many operands. -/
  | arity {op : Opcode} {found : Nat}
      (h : Instruction.decode w = .error (.arityMismatch op found)) :
      DecodingFault cycle w (.arityMismatch cycle op found)
  /-- A token is malformed. -/
  | token {token : Bits} {cause : LiteralError}
      (h : Instruction.decode w = .error (.operand cause)) (htoken : token ∈ w.tokens)
      (hcause : token.unsigned = .error cause) : DecodingFault cycle w (.literal cycle cause)

theorem DecodingFault.exists_error {cycle : UInt64} {f : Fault} (h : DecodingFault cycle w f) :
    ∃ e, Instruction.decode w = .error e := by
  cases h with
  | opcode h | arity h => exact ⟨_, h⟩
  | token h _ _ => exact ⟨_, h⟩

/-- **A non-empty word that does not decode has such a fault.** -/
theorem decodingFault_of_decode (cycle : UInt64) {e : DecodeError} (hne : w.isEmpty = false)
    (h : Instruction.decode w = .error e) : DecodingFault cycle w (.ofDecodeError cycle e) := by
  obtain ⟨tokens⟩ := w
  cases Word.undecodable_of_decode h with
  | emptyWord hempty =>
    cases tokens with
    | nil => cases hne
    | cons token rest => cases hempty
  | @opcode token cause hfirst htoken =>
    exact .token h (List.mem_of_head? hfirst) htoken
  | unknown => exact .opcode h
  | arity => exact .arity h
  | @operand op token cause _ _ htoken hcause =>
    -- The operands are the tokens after the first one.
    refine .token h (List.mem_of_mem_tail ?_) hcause
    exact Opcode.mem_of_mem_numbers htoken

/-- **A text says what a step does** with the word at the next address. -/
structure ShownAs (m : Machine) (w : Word) (t : String) : Prop where
  /-- The step skips the word exactly if the text is that of data. -/
  data : m.step.2 = .ok none ↔ IsDataText t
  /-- The step fails to decode the word exactly if the text is that of an unknown word. -/
  unknown : (∃ f, DecodingFault (m.cycle + 1) w f ∧ m.step = (m.advance.stopWith f, .error f)) ↔
    t = unknownText
  /-- In all other cases the step carries out the instruction of the word, and the text is that
      of the instruction. -/
  instruction : ¬ IsDataText t → t ≠ unknownText →
    ∃ i, Instruction.decode w = .ok i ∧ t = i.text ∧ m.step = m.advance.carryOut i

/-- **The disassembly of the next word says what the next step does.** The cases are those of
    the disassembler; in each of them there is one way for the step to go. -/
theorem shownAs_disassemble (hgo : m.GoesOn)
    (hslot : m.memory.cells.get? m.nextAddress = some w) (hne : w.isEmpty = false) :
    m.ShownAs w (w.disassemble m.config.minInstructionLength.toNat) := by
  have hshown := Word.shown_disassemble hne m.config.minInstructionLength.toNat
  generalize w.disassemble m.config.minInstructionLength.toNat = t at hshown ⊢
  cases hshown with
  | @data token hshort hfirst =>
    have hstep := step_of_short hgo hslot hshort
    have hdata : IsDataText ("DAT " ++ token.immediateText) := ⟨_, rfl⟩
    constructor
    case data => exact ⟨fun _ => hdata, fun _ => by rw [hstep]⟩
    case unknown =>
      constructor
      · rintro ⟨f, -, hfail⟩
        have hresult : m.step.2 = .error f := by rw [hfail]
        rw [hstep] at hresult
        cases hresult
      · intro hunknown
        rw [hunknown] at hdata
        exact absurd hdata not_isDataText_unknownText
    case instruction => exact fun hnot => absurd hdata hnot
  | @instruction i hlong hdecode =>
    have hstep := step_of_decode hgo hslot hlong hdecode
    constructor
    case data =>
      constructor
      · intro hskip
        rw [hstep] at hskip
        exact absurd hskip (carryOut_ne_skipped _ i)
      · exact fun hdata => absurd hdata i.not_isDataText
    case unknown =>
      constructor
      · -- The instruction may fail as well, but not because its word does not decode.
        rintro ⟨f, hfault, -⟩
        obtain ⟨e, he⟩ := hfault.exists_error
        rw [hdecode] at he
        cases he
      · exact fun hunknown => absurd hunknown i.text_ne_unknownText
    case instruction => exact fun _ _ => ⟨i, hdecode, rfl, hstep⟩
  | @unknown e hlong hdecode =>
    have hstep := step_of_undecodable hgo hslot hlong hdecode
    constructor
    case data =>
      constructor
      · intro hskip
        rw [hstep] at hskip
        cases hskip
      · exact fun hdata => absurd hdata not_isDataText_unknownText
    case unknown =>
      exact ⟨fun _ => rfl, fun _ => ⟨_, decodingFault_of_decode _ hne hdecode, hstep⟩⟩
    case instruction => exact fun _ hnot => absurd rfl hnot

end Machine

/-! ### The memory view -/

/-- The string that an object has under a key. -/
def Json.memberText? (j : Json) (key : String) : Option String := do
  (← (← j.members?).lookup key).text?

namespace Session

/-- The text of a row of the memory view, if it is a row for the address. -/
def rowText? (addr : Address) (row : Json) : Option String :=
  if row.memberText? "addr" = some addr.text then row.memberText? "text" else none

/-- **The texts that the memory view shows for an address**, one for each of its rows. -/
def shownAt (s : Session) (addr : Address) : List String :=
  (s.memoryToJson.items?.getD []).filterMap (rowText? addr)

/-- The row of a word is a row for its address and no other. -/
theorem rowText?_cellToJson (minLength : Nat) (a : Address) (w : Word) (addr : Address) :
    rowText? addr (cellToJson minLength a w) =
      if a = addr then some (w.disassemble minLength) else none := by
  have haddr : (cellToJson minLength a w).memberText? "addr" = some a.text := by
    simp [Json.memberText?, cellToJson]
  have htext : (cellToJson minLength a w).memberText? "text" =
      some (w.disassemble minLength) := by
    simp [Json.memberText?, cellToJson, List.lookup_cons]
  unfold rowText?
  simp only [haddr, htext, Option.some.injEq, Address.text_inj]

/-- Where addresses are distinct, one entry at most is at a given address. -/
theorem filterMap_eq_lookup {es : List (Address × Word)} (h : (es.map Prod.fst).Nodup)
    (addr : Address) (f : Word → String) :
    es.filterMap (fun e => if e.1 = addr then some (f e.2) else none) =
      ((es.lookup addr).map f).toList := by
  induction es with
  | nil => rfl
  | cons e rest ih =>
    obtain ⟨a, w⟩ := e
    rw [List.map_cons, List.nodup_cons] at h
    obtain ⟨hnew, hrest⟩ := h
    have hih := ih hrest
    rw [List.filterMap_cons, lookup_cons_entry]
    by_cases heq : a = addr
    · -- The other entries are at other addresses.
      subst heq
      have hnone : rest.lookup a = none := by
        rw [← Option.not_isSome_iff_eq_none, isSome_lookup_iff]
        exact hnew
      rw [hnone] at hih
      simp [hih]
    · simp [heq, Ne.symm heq, hih]

/-- **The memory view shows a stored word once**, as its disassembly. -/
theorem shownAt_eq (s : Session) (addr : Address) :
    s.shownAt addr = ((s.machine.memory.cells.get? addr).map
      (Word.disassemble · s.machine.config.minInstructionLength.toNat)).toList := by
  -- Reading the rows gives back the entries that they were made of.
  have hdistinct := s.machine.memory.cells.increasing.nodup
  show (s.machine.memory.cells.entries.map fun e =>
    cellToJson s.machine.config.minInstructionLength.toNat e.1 e.2).filterMap (rowText? addr) = _
  rw [List.filterMap_map]
  simp only [Function.comp_def, rowText?_cellToJson]
  exact filterMap_eq_lookup hdistinct addr
    (Word.disassemble · s.machine.config.minInstructionLength.toNat)

/-- What a session yields for a step of its machine. -/
theorem step_of_machine {s : Session} {machine : Machine}
    {result : Except Fault (Option Instruction)} (hrun : s.machine.isRunning = true)
    (h : s.machine.step = (machine, result)) :
    s.step.2 = match result with
      | .ok (some i) => .ok i.text
      | .ok none => .ok (((machine.memory.cells.get? s.machine.nextAddress).map
          (Word.disassemble · s.machine.config.minInstructionLength.toNat)).getD "")
      | .error cause => .error (.fault cause) := by
  unfold step
  rw [if_neg (by simp [hrun])]
  simp only [h]
  cases result with
  | error cause => rfl
  | ok executed => cases executed <;> rfl

/-- A session whose machine does not go on yields no text. -/
theorem step_of_not_goesOn {s : Session} (h : ¬ s.machine.GoesOn) (text : String) :
    s.step.2 ≠ .ok text := by
  cases hrun : s.machine.isRunning with
  | false =>
    unfold step
    simp [hrun]
  | true =>
    rw [step_of_machine hrun (Machine.step_of_not_goesOn h)]
    simp

/-- **The text that a step yields** is the text that the memory view showed for its slot. -/
theorem shownAt_of_step {s : Session} {text : String} (h : s.step.2 = .ok text) :
    s.shownAt s.machine.nextAddress = [text] := by
  have hgo : s.machine.GoesOn := by
    by_contra hstop
    exact step_of_not_goesOn hstop text h
  have hrun : s.machine.isRunning = true := by simp [Machine.isRunning, hgo.1]
  rw [shownAt_eq]
  cases hslot : s.machine.memory.cells.get? s.machine.nextAddress with
  | none =>
    rw [step_of_machine hrun (Machine.step_of_empty hgo hslot)] at h
    cases h
  | some w =>
    show [w.disassemble s.machine.config.minInstructionLength.toNat] = [text]
    rw [List.singleton_inj]
    by_cases hshort : w.size < s.machine.config.minInstructionLength.toNat
    · -- The word is looked up again after the step, which has not touched the memory.
      have hstep := step_of_machine hrun (Machine.step_of_short hgo hslot hshort)
      have hcell : s.machine.advance.memory.cells.get? s.machine.nextAddress = some w := hslot
      rw [h] at hstep
      simp only [hcell] at hstep
      exact (Except.ok.inj hstep).symm
    · have hlong := Nat.le_of_not_lt hshort
      cases hdecode : Instruction.decode w with
      | error e =>
        rw [step_of_machine hrun (Machine.step_of_undecodable hgo hslot hlong hdecode)] at h
        cases h
      | ok i =>
        rw [Word.disassemble_of_decode hlong hdecode]
        have hstep := Machine.step_of_decode hgo hslot hlong hdecode
        unfold Machine.carryOut at hstep
        split at hstep
        · rw [step_of_machine hrun hstep] at h
          exact Except.ok.inj h
        · rw [step_of_machine hrun hstep] at h
          cases h

end Session

/-! ### The disassembly around the next address -/

/-- No word is shown like an empty slot. -/
theorem Word.disassemble_ne_emptySlotText (w : Word) (minLength : Nat) :
    w.disassemble minLength ≠ Debugger.emptySlotText := by
  have hunknown : unknownText ≠ Debugger.emptySlotText := by decide
  unfold disassemble
  split
  · split
    · intro h
      have hchars := congrArg String.toList h
      simp [Debugger.emptySlotText, toString_text] at hchars
    · exact hunknown
  · split
    next i _ => exact Instruction.text_ne (by decide) i
    next => exact hunknown

namespace Debugger

/-- The first slot of the disassembly. -/
def top (d : Debugger) (rows : Nat) : Nat :=
  max (d.machine.nextAddress.slot.toNat - rows / 2) 1

/-- The row of a slot. -/
def rowOf (d : Debugger) (slot : Nat) : Row :=
  ⟨⟨UInt64.ofNat slot⟩, slotText d.machine ⟨UInt64.ofNat slot⟩,
    (⟨UInt64.ofNat slot⟩ : Address) = d.machine.nextAddress⟩

theorem disassembly_eq (d : Debugger) (rows : Nat) :
    d.disassembly rows = (List.range' (d.top rows) rows).map d.rowOf := rfl

/-- **The rows around the next address.** -/
structure Lists (d : Debugger) (n : Nat) : Prop where
  /-- The rows are those of consecutive slots, from slot 1 or a later one on. -/
  consecutive : ∃ start, 1 ≤ start ∧
    (d.disassembly n).map (·.addr.slot.toNat) = List.range' start n
  /-- Exactly one row is flagged, that of the next address. It shows the word there, or a dot,
      and the dot exactly if the next step finds nothing. -/
  flagged : ∃ row, (d.disassembly n).filter (·.isNext) = [row] ∧
    row.addr = d.machine.nextAddress ∧
    (∀ w, d.machine.memory.cells.get? d.machine.nextAddress = some w →
      row.text = w.disassemble d.machine.config.minInstructionLength.toNat) ∧
    (row.text = emptySlotText ↔
      ∃ cycle addr, d.machine.step.2 = .error (.outOfInstructions cycle addr))

/-- A dot stands at the next address exactly if the next step finds nothing. -/
theorem slotText_eq_empty_iff {m : Machine} (hgo : m.GoesOn) :
    slotText m m.nextAddress = emptySlotText ↔
      ∃ cycle addr, m.step.2 = .error (.outOfInstructions cycle addr) := by
  unfold slotText
  cases hslot : m.memory.cells.get? m.nextAddress with
  | none =>
    rw [Machine.step_of_empty hgo hslot]
    exact ⟨fun _ => ⟨_, _, rfl⟩, fun _ => rfl⟩
  | some w =>
    -- The word is no dot, and no way to go on from a word is that of an empty slot.
    refine ⟨fun hdot => absurd hdot (w.disassemble_ne_emptySlotText _), ?_⟩
    rintro ⟨cycle, addr, hfault⟩
    exfalso
    by_cases hshort : w.size < m.config.minInstructionLength.toNat
    · rw [Machine.step_of_short hgo hslot hshort] at hfault
      cases hfault
    · have hlong := Nat.le_of_not_lt hshort
      cases hdecode : Instruction.decode w with
      | error e =>
        rw [Machine.step_of_undecodable hgo hslot hlong hdecode] at hfault
        cases e <;> cases hfault
      | ok i =>
        rw [Machine.step_of_decode hgo hslot hlong hdecode] at hfault
        exact Machine.carryOut_ne_outOfInstructions _ i cycle addr hfault

/-- The next address is one of the slots that are listed. -/
theorem next_mem_range' {d : Debugger} {n : Nat} (hn : 1 ≤ n)
    (hnext : 1 ≤ d.machine.nextAddress.slot.toNat) :
    d.machine.nextAddress.slot.toNat ∈ List.range' (d.top n) n := by
  rw [List.mem_range'_1]
  unfold top
  omega

/-- A number occurs once among consecutive numbers. -/
theorem filter_range'_eq {start n k : Nat} (h : k ∈ List.range' start n) :
    (List.range' start n).filter (· == k) = [k] := by
  rw [List.filter_beq, List.count_eq_one_of_mem List.nodup_range' h]
  rfl

/-- The row of a slot has the number of the slot in its address. -/
theorem toNat_slot_rowOf (d : Debugger) {slot : Nat} (h : slot < 2 ^ 64) :
    (d.rowOf slot).addr.slot.toNat = slot :=
  UInt64.toNat_ofNat_of_lt' h

/-- The row of a slot is flagged if the slot is the next one. -/
theorem isNext_rowOf (d : Debugger) {slot : Nat} (h : slot < 2 ^ 64) :
    (d.rowOf slot).isNext = (slot == d.machine.nextAddress.slot.toNat) := by
  rw [Bool.eq_iff_iff, beq_iff_eq]
  show decide ((d.rowOf slot).addr = d.machine.nextAddress) = true ↔ _
  rw [decide_eq_true_iff]
  constructor
  · intro haddr
    rw [← haddr, d.toNat_slot_rowOf h]
  · rintro rfl
    exact congrArg Address.mk UInt64.ofNat_toNat

/-- The row of the next address. -/
theorem rowOf_next (d : Debugger) :
    d.rowOf d.machine.nextAddress.slot.toNat =
      ⟨d.machine.nextAddress, slotText d.machine d.machine.nextAddress, true⟩ := by
  unfold rowOf
  rw [UInt64.ofNat_toNat, decide_eq_true rfl]

/-- **The rows around the next address show what the next step does.** -/
theorem lists_disassembly {d : Debugger} {n : Nat} (hgo : d.machine.GoesOn) (hn : 1 ≤ n)
    (hroom : d.top n + n < 2 ^ 64) : d.Lists n := by
  have hnext : d.machine.nextAddress.slot.toNat = d.machine.cycle.toNat + 1 :=
    Machine.toNat_cycle_add_one hgo.2
  have hmem : d.machine.nextAddress.slot.toNat ∈ List.range' (d.top n) n :=
    next_mem_range' hn (by omega)
  -- No slot of the list is past the last one.
  have hslot : ∀ slot ∈ List.range' (d.top n) n, slot < 2 ^ 64 := by
    intro slot hslot
    rw [List.mem_range'_1] at hslot
    omega
  constructor
  case consecutive =>
    refine ⟨d.top n, le_max_right _ _, ?_⟩
    rw [disassembly_eq, List.map_map]
    conv_rhs => rw [← List.map_id (List.range' (d.top n) n)]
    exact List.map_congr_left fun slot hmem => d.toNat_slot_rowOf (hslot slot hmem)
  case flagged =>
    have hfilter : (List.range' (d.top n) n).filter (fun slot => (d.rowOf slot).isNext) =
        [d.machine.nextAddress.slot.toNat] := by
      rw [List.filter_congr fun slot hmem => d.isNext_rowOf (hslot slot hmem)]
      exact filter_range'_eq hmem
    refine ⟨⟨d.machine.nextAddress, slotText d.machine d.machine.nextAddress, true⟩, ?_, rfl, ?_,
      slotText_eq_empty_iff hgo⟩
    · rw [disassembly_eq, List.filter_map]
      show ((List.range' (d.top n) n).filter fun slot => (d.rowOf slot).isNext).map d.rowOf = _
      rw [hfilter, List.map_singleton, rowOf_next]
    · intro w hw
      show slotText d.machine d.machine.nextAddress = _
      rw [slotText, hw]

end Debugger

/-! ### The machine and its displays -/

/-- **What is shown is what is done.** For a machine that goes on:

    * the disassembly of the word at the next address is that of data exactly if the next step
      skips the word, that of an unknown word exactly if the step fails to decode it, and
      otherwise the text of the one instruction that the step carries out;
    * whenever a session yields a text for a step, the memory view has shown that text for the
      slot of the step;
    * the disassembly around the next address lists consecutive slots, and flags one of them,
      which shows the disassembly of the next word, or a dot if the step will find nothing. -/
theorem disassembly_shows_step :
    (∀ m : Machine, m.status = .running → m.cycle.toNat < 2 ^ 64 - 1 →
      ∀ w, m.memory.cells.get? m.nextAddress = some w → w.isEmpty = false →
        m.ShownAs w (w.disassemble m.config.minInstructionLength.toNat)) ∧
    (∀ (s : Session) (text : String), s.step.2 = .ok text →
      s.shownAt s.machine.nextAddress = [text]) ∧
    ∀ d : Debugger, d.machine.status = .running → d.machine.cycle.toNat < 2 ^ 64 - 1 →
      ∀ n, 1 ≤ n → d.top n + n < 2 ^ 64 → d.Lists n := by
  refine ⟨?_, ?_, ?_⟩
  · intro m hrun hcycle w hslot hne
    exact Machine.shownAs_disassemble (Machine.goesOn_of_lt hrun hcycle) hslot hne
  · intro s text hstep
    exact Session.shownAt_of_step hstep
  · intro d hrun hcycle n hn hroom
    exact Debugger.lists_disassembly (Machine.goesOn_of_lt hrun hcycle) hn hroom

/-- On a machine that needs three tokens an OUT is data, and it is shown and skipped as that. -/
theorem disassembly_shows_step_data :
    ∃ (m : Machine) (w : Word), m.status = .running ∧ m.cycle.toNat < 2 ^ 64 - 1 ∧
      m.memory.cells.get? m.nextAddress = some w ∧ w.isEmpty = false ∧
      m.ShownAs w "DAT $5" ∧ m.step.2 = .ok none ∧
      (∃ s : Session, s.machine = m ∧ s.step.2 = .ok "DAT $5" ∧
        s.shownAt m.nextAddress = ["DAT $5"]) ∧
      ∃ d : Debugger, d.machine = m ∧ d.top 4 + 4 < 2 ^ 64 ∧ d.Lists 4 := by
  let five : Bits := ⟨false, [true, false, true], List.cons_ne_nil _ _⟩
  let two : Bits := ⟨false, [true, false], List.cons_ne_nil _ _⟩
  let w : Word := ⟨[five, two]⟩
  let m : Machine := .withMemory { minInstructionLength := 3 }
    { Memory.empty none with cells := Cells.empty.insert ⟨1⟩ w }
  let s : Session := { machine := m }
  let d : Debugger := ⟨m, {}, [], false, "", 0⟩
  obtain ⟨hword, hsession, hdebugger⟩ := disassembly_shows_step
  have hrun : m.status = .running := rfl
  have hcycle : m.cycle.toNat < 2 ^ 64 - 1 := by decide
  have hslot : m.memory.cells.get? m.nextAddress = some w := rfl
  have htext : w.disassemble m.config.minInstructionLength.toNat = "DAT $5" := by decide
  have hshown := hword m hrun hcycle w hslot rfl
  rw [htext] at hshown
  have hstep : s.step.2 = .ok "DAT $5" := by decide
  have hroom : d.top 4 + 4 < 2 ^ 64 := by decide
  exact ⟨m, w, hrun, hcycle, hslot, rfl, hshown, hshown.data.mpr ⟨"$5", rfl⟩,
    ⟨s, rfl, hstep, hsession s _ hstep⟩, d, rfl, hroom, hdebugger d hrun hcycle 4 (by decide) hroom⟩

end BitMachine
