import BitMachine.Proofs.JsonRecords
import BitMachine.Proofs.MemoryMap

namespace BitMachine

/-!
# Serialized state comes back unchanged

For each kind of value that is written to JSON, the text of a value is read as the value, and
nothing is read into a bit-string but strings that stand for one:

* `Json.Holds` — a value with a string in it that is read as a bit-string;
* `Serializes` — what a pair of a writer and a reader has to satisfy, kind by kind, up to
  `Memory.serializes`, `Instruction.serializes` and `Program.serializes`;
* `SurvivesText` — the same for texts, and `state_survives_text`: **all kinds of state do**.
-/

/-- A value with a string in it, at any depth, that is read as the bit-string. -/
def Json.Holds (j : Json) (b : Bits) : Prop :=
  ∃ (inner : Json) (s : String), inner.Within j ∧ inner.text? = some s ∧ Bits.parse s = .ok b

theorem Json.Holds.of_within {inner j : Json} {b : Bits} (h : inner.Holds b)
    (hwithin : inner.Within j) : j.Holds b := by
  obtain ⟨part, s, hpart, htext, hparse⟩ := h
  exact ⟨part, s, hpart.trans hwithin, htext, hparse⟩

/-- **A writer and a reader for a kind of values.** The function `bits` tells which bit-strings
    such a value has. -/
structure Serializes {α : Type} (write : α → Json) (read : Json → Option α)
    (bits : α → List Bits) : Prop where
  /-- Numbers and strings are written as the text of a value needs them. -/
  written : ∀ x, (write x).Written
  /-- What was written is read as it was. -/
  reads : ∀ x, read (write x) = some x
  /-- Whatever is read, its bit-strings are strings that were checked. -/
  holds : ∀ j x, read j = some x → ∀ b ∈ bits x, j.Holds b

/-! ### Rows and optional values -/

namespace Serializes

variable {α : Type} {write : α → Json} {read : Json → Option α} {bits : α → List Bits}

theorem written_array (h : Serializes write read bits) (xs : List α) :
    (Json.array (xs.map write)).Written := by
  refine .array fun item hitem => ?_
  obtain ⟨x, -, rfl⟩ := List.mem_map.mp hitem
  exact h.written x

/-- The bit-strings of the items of an array. -/
theorem holds_array (h : Serializes write read bits) {j : Json} {items : List Json}
    (hitems : j.items? = some items) {xs : List α} (hxs : items.mapM read = some xs) :
    ∀ b ∈ xs.flatMap bits, j.Holds b := by
  intro b hb
  obtain ⟨x, hx, hb⟩ := List.mem_flatMap.mp hb
  obtain ⟨item, hitem, hread⟩ := exists_of_mapM_eq_some hxs hx
  exact (h.holds item x hread b hb).of_within (Json.within_of_items? hitems hitem)

/-- A value that may be missing is written as itself or as null. -/
theorem option (h : Serializes write read bits) (hnull : ∀ x, write x ≠ .null) :
    Serializes (Json.ofOption write) (fun j => Json.optional? read (some j))
      (fun x => x.toList.flatMap bits) where
  written := Json.written_ofOption h.written
  reads := Json.optional?_ofOption hnull h.reads
  holds j x hread b hb := by
    obtain ⟨y, hy, hb⟩ := List.mem_flatMap.mp hb
    rw [Option.mem_toList.mp hy] at hread
    obtain ⟨j', heq, hread⟩ := Json.read_of_optional? hread
    cases heq
    exact h.holds j y hread b hb

end Serializes

/-! ### Numbers, bit-strings and words -/

theorem Json.serializes_uint64 : Serializes Json.ofUInt64 Json.uint64? fun _ => [] where
  written := Json.written_ofUInt64
  reads := Json.uint64?_ofUInt64
  holds _ _ _ := nofun

theorem Address.serializes : Serializes Address.toJson Address.ofJson? fun _ => [] where
  written a := Json.written_ofUInt64 a.slot
  reads a := by
    show (Json.ofUInt64 a.slot).uint64?.map Address.mk = some a
    rw [Json.uint64?_ofUInt64, Option.map_some]
  holds _ _ _ := nofun

/-- **Bit-strings.** The reader checks the string. -/
theorem Bits.serializes : Serializes Bits.toJson Bits.ofJson? fun b => [b] where
  written b := .string b.text.toList
  reads b := by
    show ((Json.ofString b.text).text? >>= fun s => (Bits.parse s).toOption) = some b
    rw [Json.text?_ofString, Option.bind_eq_bind, Option.bind_some, Bits.parse_text]
    rfl
  holds j b hread c hc := by
    obtain ⟨s, htext, hparse⟩ := Option.bind_eq_some_iff.mp hread
    cases hresult : Bits.parse s with
    | error e =>
      rw [hresult] at hparse
      cases hparse
    | ok d =>
      rw [hresult] at hparse
      cases hparse
      rw [List.mem_singleton.mp hc]
      exact ⟨j, s, .self, htext, hresult⟩

theorem Word.serializes : Serializes Word.toJson Word.ofJson? Word.tokens where
  written w := Bits.serializes.written_array w.tokens
  reads w := by
    show ((w.tokens.map Bits.toJson).mapM Bits.ofJson? >>= fun tokens => some (Word.mk tokens))
      = some w
    rw [mapM_map_eq_some Bits.serializes.reads]
    rfl
  holds j w hread b hb := by
    obtain ⟨items, hitems, hread⟩ := Option.bind_eq_some_iff.mp hread
    obtain ⟨tokens, htokens, hpure⟩ := Option.bind_eq_some_iff.mp hread
    cases hpure
    exact Bits.serializes.holds_array hitems htokens b (by simpa using hb)

theorem Json.serializes_option : Serializes (Json.ofOption Json.ofUInt64)
    (fun j => Json.optional? Json.uint64? (some j)) fun n => n.toList.flatMap fun _ => [] :=
  Json.serializes_uint64.option fun _ => Json.noConfusion

theorem Address.serializes_option : Serializes (Json.ofOption Address.toJson)
    (fun j => Json.optional? Address.ofJson? (some j)) fun a => a.toList.flatMap fun _ => [] :=
  Address.serializes.option fun _ => Json.noConfusion

theorem Bits.serializes_option : Serializes (Json.ofOption Bits.toJson)
    (fun j => Json.optional? Bits.ofJson? (some j)) fun b => b.toList.flatMap fun b => [b] :=
  Bits.serializes.option fun _ => Json.noConfusion

/-! ### Memory -/

namespace Cells

/-- The bit-strings of memory cells. -/
def bits (c : Cells) : List Bits :=
  c.entries.flatMap fun e => e.2.tokens

theorem mem_bits {c : Cells} {b : Bits} :
    b ∈ c.bits ↔ ∃ a w, c.get? a = some w ∧ b ∈ w.tokens := by
  unfold bits
  rw [List.mem_flatMap]
  constructor
  · rintro ⟨⟨a, w⟩, hmem, hb⟩
    exact ⟨a, w, mem_entries_iff.mp hmem, hb⟩
  · rintro ⟨a, w, hget, hb⟩
    exact ⟨(a, w), mem_entries_iff.mpr hget, hb⟩

theorem written_toJson (c : Cells) : c.toJson.Written := by
  refine .object ?_ ?_
  · intro member hmem
    obtain ⟨⟨a, w⟩, -, rfl⟩ := List.mem_map.mp hmem
    exact ⟨_, (Json.escape_of_isDigit fun _ => Json.isDigit_of_mem_toDigits).symm⟩
  · intro member hmem
    obtain ⟨⟨a, w⟩, -, rfl⟩ := List.mem_map.mp hmem
    exact Word.serializes.written w

/-- A word at an address above all others comes last. -/
theorem insertEntry_of_lt {a : Address} {w : Word} {es : List (Address × Word)}
    (h : ∀ e ∈ es, e.1 < a) : insertEntry a w es = es ++ [(a, w)] := by
  induction es with
  | nil => rfl
  | cons e rest ih =>
    obtain ⟨b, v⟩ := e
    obtain ⟨hb, hrest⟩ := List.forall_mem_cons.mp h
    have hnot : ¬ a < b := fun hlt => UInt64.lt_irrefl _ (UInt64.lt_trans hlt hb)
    have hne : a ≠ b := by
      rintro rfl
      exact UInt64.lt_irrefl _ hb
    rw [insertEntry, if_neg hnot, if_neg hne, ih hrest, List.cons_append]

/-- Reading the member of an entry stores its word. -/
theorem insertJson?_entry (c : Cells) (a : Address) (w : Word) :
    c.insertJson? (Nat.toDigits 10 a.slot.toNat, w.toJson) = some (c.insert a w) := by
  unfold insertJson?
  rw [Json.plainNat?_toDigits, Option.bind_some, Text.narrow?_eq_some_iff.mpr rfl,
    Word.serializes.reads]
  rfl

/-- **Members in the order of their slots** are stored one behind the other. -/
theorem foldlM_insertJson? {c d : Cells} {rest : List (Address × Word)}
    (h : d.entries = c.entries ++ rest) :
    (rest.map fun e => (Nat.toDigits 10 e.1.slot.toNat, e.2.toJson)).foldlM insertJson? c
      = some d := by
  -- The cells that have been read so far are a front part of those that were written.
  induction rest generalizing c with
  | nil =>
    rw [List.append_nil] at h
    obtain rfl : d = c := by
      cases c
      cases d
      cases h
      rfl
    rfl
  | cons e rest ih =>
    obtain ⟨a, w⟩ := e
    have hlast : ∀ e ∈ c.entries, e.1 < a := by
      have hincreasing := d.increasing
      rw [h, Increasing, List.pairwise_append] at hincreasing
      exact fun e he => hincreasing.2.2 e he (a, w) List.mem_cons_self
    have hinsert : (c.insert a w).entries = c.entries ++ [(a, w)] := insertEntry_of_lt hlast
    rw [List.map_cons, List.foldlM_cons, insertJson?_entry]
    apply ih
    rw [h, hinsert, List.append_assoc, List.singleton_append]

/-- What is in cells after reading was there before, or is the word of a member. -/
theorem exists_of_foldlM {members : List (List Char × Json)} {c d : Cells}
    (h : members.foldlM insertJson? c = some d) {a : Address} {w : Word}
    (hw : d.get? a = some w) :
    c.get? a = some w ∨ ∃ member ∈ members, Word.ofJson? member.2 = some w := by
  induction members generalizing c with
  | nil =>
    cases h
    exact .inl hw
  | cons member rest ih =>
    obtain ⟨c', hc', hrest⟩ := Option.bind_eq_some_iff.mp h
    rcases ih hrest with hget | ⟨other, hother, hread⟩
    · unfold insertJson? at hc'
      simp only [Option.bind_eq_bind, Option.bind_eq_some_iff] at hc'
      obtain ⟨slot, -, v, hv, hinsert⟩ := hc'
      cases hinsert
      rw [get?_insert] at hget
      split at hget
      · cases hget
        exact .inr ⟨member, List.mem_cons_self, hv⟩
      · exact .inl hget
    · exact .inr ⟨other, List.mem_cons_of_mem member hother, hread⟩

/-- **Memory cells.** -/
theorem serializes : Serializes toJson ofJson? bits where
  written := written_toJson
  reads c := foldlM_insertJson? (c := empty) (d := c) rfl
  holds j c hread b hb := by
    obtain ⟨a, w, hw, hb⟩ := mem_bits.mp hb
    cases j with
    | object members =>
      rcases exists_of_foldlM hread hw with hempty | ⟨⟨key, value⟩, hmember, hvalue⟩
      · cases hempty
      · exact (Word.serializes.holds value w hvalue b hb).of_within (.member hmember .self)
    | _ => cases hread

end Cells

/-- **Memory**, with the place of the next word and the capacity, whatever these are. -/
theorem Memory.serializes :
    Serializes Memory.toJson Memory.ofJson? fun m => m.cells.bits where
  written m := by
    apply Json.written_ofMembers
    simp only [List.forall_mem_cons]
    exact ⟨Cells.serializes.written _, Address.serializes_option.written _,
      Json.serializes_option.written _, nofun⟩
  reads m := by
    have hfields : m.toJson.record? ["cells", "next_slot", "max_slots"] =
        some [some m.cells.toJson, some (Json.ofOption Address.toJson m.next),
          some (Json.ofOption Json.ofUInt64 m.capacity)] :=
      Json.record?_ofMembers (by simp)
    unfold ofJson?
    rw [hfields]
    simp only [Option.bind_eq_bind, Option.bind_some, Cells.serializes.reads,
      Address.serializes_option.reads, Json.serializes_option.reads]
    rfl
  holds j m hread b hb := by
    obtain ⟨fields, hfields, hread⟩ := Option.bind_eq_some_iff.mp hread
    split at hread
    next cells next capacity =>
      simp only [Option.bind_eq_bind, Option.bind_eq_some_iff] at hread
      obtain ⟨c, hc, n, -, k, -, hpure⟩ := hread
      cases hpure
      have hwithin : cells.Within j := Json.within_of_record? hfields List.mem_cons_self
      exact (Cells.serializes.holds cells c hc b hb).of_within hwithin
    next => cases hread

/-! ### Registers -/

/-- The bit-strings that registers hold. -/
def Registers.bits (r : Registers) : List Bits :=
  r.slots.filterMap id

/-- **Registers.** -/
theorem Registers.serializes : Serializes Registers.toJson Registers.ofJson? Registers.bits where
  written r := by
    apply Json.written_ofMembers
    simp only [List.forall_mem_cons]
    exact ⟨Bits.serializes_option.written_array r.slots, nofun⟩
  reads r := by
    have hfields : r.toJson.record? ["slots"] =
        some [some (.array (r.slots.map (Json.ofOption Bits.toJson)))] :=
      Json.record?_ofMembers (by simp)
    have hslots : (r.slots.map (Json.ofOption Bits.toJson)).mapM
        (fun slot => Json.optional? Bits.ofJson? (some slot)) = some r.slots :=
      mapM_map_eq_some (g := Json.ofOption Bits.toJson) Bits.serializes_option.reads r.slots
    unfold ofJson?
    rw [hfields]
    simp only [Option.bind_eq_bind, Option.bind_some, Json.items?, hslots]
    rfl
  holds j r hread b hb := by
    obtain ⟨fields, hfields, hread⟩ := Option.bind_eq_some_iff.mp hread
    split at hread
    next slots =>
      simp only [Option.bind_eq_bind, Option.bind_eq_some_iff] at hread
      obtain ⟨items, hitems, values, hvalues, hpure⟩ := hread
      cases hpure
      have hwithin : slots.Within j := Json.within_of_record? hfields List.mem_cons_self
      have hvalue : b ∈ values.flatMap fun value => value.toList.flatMap fun b => [b] := by
        simpa [bits] using hb
      exact (Bits.serializes_option.holds_array hitems hvalues b hvalue).of_within hwithin
    next => cases hread

/-! ### Instructions -/

/-- The bit-strings of the source of a MOV. -/
def MovSource.bits : MovSource → List Bits
  | .immediate value => [value]
  | .address _ => []

/-- **Sources of a MOV.** -/
theorem MovSource.serializes : Serializes MovSource.toJson MovSource.ofJson? MovSource.bits where
  written src := by
    cases src with
    | immediate value =>
      apply Json.written_ofMembers
      simp only [List.forall_mem_cons]
      exact ⟨Bits.serializes.written value, nofun⟩
    | address addr =>
      apply Json.written_ofMembers
      simp only [List.forall_mem_cons]
      exact ⟨Address.serializes.written addr, nofun⟩
  reads src := by
    unfold ofJson? toJson
    cases src with
    | immediate value => simp [Json.tagged?_ofMembers, Bits.serializes.reads]
    | address addr => simp [Json.tagged?_ofMembers, Address.serializes.reads]
  holds j src hread b hb := by
    obtain ⟨tagged, htagged, hread⟩ := Option.bind_eq_some_iff.mp hread
    split at hread
    next content =>
      have hwithin : content.Within j := Json.within_of_tagged? htagged
      obtain ⟨value, hvalue, hpure⟩ := Option.bind_eq_some_iff.mp hread
      cases hpure
      exact (Bits.serializes.holds content value hvalue b hb).of_within hwithin
    next =>
      obtain ⟨addr, -, hpure⟩ := Option.bind_eq_some_iff.mp hread
      cases hpure
      cases hb
    next => cases hread

/-- The bit-strings of an instruction. -/
def Instruction.bits : Instruction → List Bits
  | .mov _ src => src.bits
  | _ => []

@[simp] theorem Opcode.ofName?_name (o : Opcode) : ofName? o.name = some o := by
  cases o with
  | arith op => cases op <;> rfl
  | _ => rfl

namespace Instruction

theorem written_operandsToJson (i : Instruction) : i.operandsToJson.Written := by
  cases i with
  | mov dst src =>
    apply Json.written_ofMembers
    simp only [List.forall_mem_cons]
    exact ⟨Json.written_ofUInt64 dst, MovSource.serializes.written src, nofun⟩
  | arith op lhs rhs dst =>
    apply Json.written_ofMembers
    simp only [List.forall_mem_cons]
    exact ⟨Json.written_ofUInt64 lhs, Json.written_ofUInt64 rhs, Json.written_ofUInt64 dst, nofun⟩
  | out src =>
    apply Json.written_ofMembers
    simp only [List.forall_mem_cons]
    exact ⟨Json.written_ofUInt64 src, nofun⟩
  | exit code =>
    apply Json.written_ofMembers
    simp only [List.forall_mem_cons]
    exact ⟨Json.written_ofUInt64 code, nofun⟩

/-- **Instructions.** -/
theorem serializes : Serializes toJson ofJson? bits where
  written i := by
    apply Json.written_ofMembers
    simp only [List.forall_mem_cons]
    exact ⟨written_operandsToJson i, nofun⟩
  reads i := by
    have htagged : i.toJson.tagged? = some (i.opcode.name, i.operandsToJson) :=
      Json.tagged?_ofMembers _ _
    unfold ofJson?
    rw [htagged]
    simp only [Option.bind_eq_bind, Option.bind_some, Opcode.ofName?_name]
    cases i with
    | mov dst src =>
      have hfields : (mov dst src).operandsToJson.record? ["dst", "src"] =
          some [some (Json.ofUInt64 dst), some src.toJson] :=
        Json.record?_ofMembers (by simp)
      simp [opcode, operandNames, hfields, Json.uint64?_ofUInt64, MovSource.serializes.reads]
    | arith op lhs rhs dst =>
      have hfields : (arith op lhs rhs dst).operandsToJson.record? ["lhs", "rhs", "dst"] =
          some [some (Json.ofUInt64 lhs), some (Json.ofUInt64 rhs), some (Json.ofUInt64 dst)] :=
        Json.record?_ofMembers (by simp)
      simp [opcode, operandNames, hfields, Json.uint64?_ofUInt64]
    | out src =>
      have hfields : (out src).operandsToJson.record? ["src"] =
          some [some (Json.ofUInt64 src)] :=
        Json.record?_ofMembers (by simp)
      simp [opcode, operandNames, hfields, Json.uint64?_ofUInt64]
    | exit code =>
      have hfields : (exit code).operandsToJson.record? ["code"] =
          some [some (Json.ofUInt64 code)] :=
        Json.record?_ofMembers (by simp)
      simp [opcode, operandNames, hfields, Json.uint64?_ofUInt64]
  holds j i hi b hb := by
    obtain ⟨⟨name, content⟩, htagged, hoperands⟩ := Option.bind_eq_some_iff.mp hi
    obtain ⟨o, -, hrecord⟩ := Option.bind_eq_some_iff.mp hoperands
    obtain ⟨fields, hfields, hread⟩ := Option.bind_eq_some_iff.mp hrecord
    have hcontent : content.Within j := Json.within_of_tagged? htagged
    split at hread
    case h_1 dst src =>
      simp only [Option.bind_eq_bind, Option.bind_eq_some_iff] at hread
      obtain ⟨d, -, s, hs, hpure⟩ := hread
      cases hpure
      have hsrc : src.Within content := Json.within_of_record? hfields (by simp)
      exact (MovSource.serializes.holds src s hs b hb).of_within (hsrc.trans hcontent)
    case h_2 =>
      simp only [Option.bind_eq_bind, Option.bind_eq_some_iff] at hread
      obtain ⟨_, -, _, -, _, -, hpure⟩ := hread
      cases hpure
      cases hb
    case h_3 | h_4 =>
      simp only [Option.bind_eq_bind, Option.bind_eq_some_iff] at hread
      obtain ⟨_, -, hpure⟩ := hread
      cases hpure
      cases hb
    case h_5 => cases hread

end Instruction

/-! ### Configurations and programs -/

/-- **Configurations**, valid or not. -/
theorem Config.serializes : Serializes Config.toJson Config.ofJson? fun _ => [] where
  written c := by
    apply Json.written_ofMembers
    simp only [List.forall_mem_cons]
    exact ⟨Json.written_ofUInt64 _, Json.written_ofUInt64 _, Json.written_ofUInt64 _,
      Json.serializes_option.written _, nofun⟩
  reads c := by
    have hfields : c.toJson.settings? ["register_count", "token_width", "min_instruction_len",
          "memory_max_slots"] =
        some [some (Json.ofUInt64 c.registerCount), some (Json.ofUInt64 c.tokenWidth),
          some (Json.ofUInt64 c.minInstructionLength),
          some (Json.ofOption Json.ofUInt64 c.memoryCapacity)] :=
      Json.settings?_ofMembers (by simp)
    unfold ofJson?
    rw [hfields]
    simp only [Option.bind_eq_bind, Option.bind_some, fieldOr, Json.uint64?_ofUInt64,
      Json.serializes_option.reads]
    rfl
  holds _ _ _ := nofun

namespace Program

/-- The bit-strings of a program. -/
def bits (p : Program) : List Bits :=
  p.words.flatMap fun e => e.2.tokens

/-- The entries of a program. -/
theorem serializes_entry : Serializes (fun e : Address × Word => .array [e.1.toJson, e.2.toJson])
    entryOfJson? (fun e => e.2.tokens) where
  written e := by
    apply Json.Written.array
    simp only [List.forall_mem_cons]
    exact ⟨Address.serializes.written e.1, Word.serializes.written e.2, nofun⟩
  reads e := by
    simp [entryOfJson?, Address.serializes.reads, Word.serializes.reads]
  holds j e hread b hb := by
    unfold entryOfJson? at hread
    split at hread
    next addr word =>
      simp only [Option.bind_eq_bind, Option.bind_eq_some_iff] at hread
      obtain ⟨a, -, w, hw, hpure⟩ := hread
      cases hpure
      exact (Word.serializes.holds word w hw b hb).of_within (.item (by simp) .self)
    next => cases hread

/-- **Programs**, in the order of their words. -/
theorem serializes : Serializes toJson ofJson? bits where
  written p := by
    apply Json.written_ofMembers
    simp only [List.forall_mem_cons]
    exact ⟨serializes_entry.written_array p.words, nofun⟩
  reads p := by
    have hfields : p.toJson.record? ["words"] =
        some [some (.array (p.words.map fun e => .array [e.1.toJson, e.2.toJson]))] :=
      Json.record?_ofMembers (by simp)
    have hwords : (p.words.map fun e => Json.array [e.1.toJson, e.2.toJson]).mapM entryOfJson? =
        some p.words :=
      mapM_map_eq_some serializes_entry.reads p.words
    unfold ofJson?
    rw [hfields]
    simp only [Option.bind_eq_bind, Option.bind_some, Json.items?, hwords]
    rfl
  holds j p hread b hb := by
    obtain ⟨fields, hfields, hread⟩ := Option.bind_eq_some_iff.mp hread
    split at hread
    next words =>
      simp only [Option.bind_eq_bind, Option.bind_eq_some_iff] at hread
      obtain ⟨items, hitems, entries, hentries, hpure⟩ := hread
      cases hpure
      have hwithin : words.Within j := Json.within_of_record? hfields List.mem_cons_self
      exact (serializes_entry.holds_array hitems hentries b hb).of_within hwithin
    next => cases hread

end Program

/-! ### Texts -/

/-- **Values of a kind survive as texts.** -/
structure SurvivesText {α : Type} (write : α → Json) (read : Json → Option α)
    (bits : α → List Bits) : Prop where
  /-- The compact text of a value is read as the value. -/
  roundTrip : ∀ x, (Json.parse? (write x).text).bind read = some x
  /-- Whatever text is read, the bit-strings of the value are strings in it that were checked. -/
  validated : ∀ s j x, Json.parse? s = some j → read j = some x →
    ∀ b ∈ bits x, j.Holds b ∧ Bits.parse b.text = .ok b

theorem Serializes.survivesText {α : Type} {write : α → Json} {read : Json → Option α}
    {bits : α → List Bits} (h : Serializes write read bits) : SurvivesText write read bits where
  roundTrip x := by
    rw [(h.written x).parse?_text, Option.bind_some, h.reads x]
  validated _ j x _ hread b hb := ⟨h.holds j x hread b hb, Bits.parse_text b⟩

/-- **Serialized state comes back unchanged.** The compact text of any bit-string, word, address,
    register file, memory, instruction, configuration or program is read as the same value, also if
    a memory contradicts itself or a configuration is not valid; and whatever text is read as one of
    these, the bit-strings of the value are strings of the text that passed the check of
    bit-strings. -/
theorem state_survives_text :
    SurvivesText Bits.toJson Bits.ofJson? (fun b => [b]) ∧
    SurvivesText Word.toJson Word.ofJson? Word.tokens ∧
    SurvivesText Address.toJson Address.ofJson? (fun _ => []) ∧
    SurvivesText Registers.toJson Registers.ofJson? Registers.bits ∧
    SurvivesText Memory.toJson Memory.ofJson? (fun m => m.cells.bits) ∧
    SurvivesText Instruction.toJson Instruction.ofJson? Instruction.bits ∧
    SurvivesText Config.toJson Config.ofJson? (fun _ => []) ∧
    SurvivesText Program.toJson Program.ofJson? Program.bits :=
  ⟨Bits.serializes.survivesText, Word.serializes.survivesText, Address.serializes.survivesText,
    Registers.serializes.survivesText, Memory.serializes.survivesText,
    Instruction.serializes.survivesText, Config.serializes.survivesText,
    Program.serializes.survivesText⟩

/-- A register with a digit that is none refuses the whole text. -/
example : (Json.parse? "\x7b\"slots\":[null,\"102\"]\x7d").bind Registers.ofJson? = none := by
  decide +kernel

end BitMachine
