import BitMachine.Proofs.Simulation
import BitMachine.Proofs.Statements

namespace BitMachine

/-!
# The translation of source texts

What the assembler computes, said by a reference walk over the statements of a text. The walk
knows no failure and no limit: it only counts slots.

* `Source.Listing` — the statements of the lines of a text;
* `Source.placements` — the reference walk: the items of statements with the numbers of their
  slots, and `Source.Fits`: these slots exist, and each is used once;
* `Source.Layout.apply_spec`, `Source.Layout.exists_apply` — a layout follows the walk from
  statement to statement, and it can go on as long as the slots fit;
* `Source.Translates` — the word of an item at its slot;
* `Source.assemble_translates` — the assembler accepts the texts whose slots fit, and gives the
  words of their items.
-/

namespace Source

/-! ### The statements of a text -/

/-- **The statements of lines** in their order. A line without code has none. -/
inductive Listing : List (List Char) → List Statement → Prop
  /-- No lines. -/
  | nil : Listing [] []
  /-- A line without code. -/
  | blank {line : List Char} {lines : List (List Char)} {statements : List Statement}
      (hline : Means line none) (h : Listing lines statements) : Listing (line :: lines) statements
  /-- A line with code. -/
  | code {line : List Char} {lines : List (List Char)} {statement : Statement}
      {statements : List Statement} (hline : Means line (some statement))
      (h : Listing lines statements) : Listing (line :: lines) (statement :: statements)

theorem Means.unique {line : List Char} {x y : Option Statement} (hx : Means line x)
    (hy : Means line y) : x = y := by
  have heq := (ofLine?_eq_ok_iff.mpr hx).symm.trans (ofLine?_eq_ok_iff.mpr hy)
  exact Except.ok.inj heq

/-- Lines have no two rows of statements. -/
theorem Listing.unique {lines : List (List Char)} {xs ys : List Statement} (hx : Listing lines xs)
    (hy : Listing lines ys) : xs = ys := by
  induction hx generalizing ys with
  | nil =>
    cases hy
    rfl
  | blank hline _ ih =>
    cases hy with
    | blank _ hrest => exact ih hrest
    | code hother _ => cases hline.unique hother
  | code hline _ ih =>
    cases hy with
    | blank hother _ => cases hline.unique hother
    | code hother hrest =>
      cases hline.unique hother
      rw [ih hrest]

/-! ### The reference walk -/

/-- **The slots of items.** The walk has a position. An ORG moves the position, and an item
    stands at it and moves it one slot further. -/
def placements (position : Nat) : List Statement → List (Nat × Item)
  | [] => []
  | .origin addr :: rest => placements addr.slot.toNat rest
  | .item item :: rest => (position, item) :: placements (position + 1) rest

/-- **The slots of items fit into memory.** -/
structure Fits (entries : List (Nat × Item)) : Prop where
  /-- All slots exist. -/
  inRange : ∀ entry ∈ entries, entry.1 < 2 ^ 64
  /-- No slot is used twice. -/
  distinct : (entries.map Prod.fst).Nodup

/-! ### Layouts follow the walk -/

namespace Layout

/-- The items with the numbers of their slots. -/
def entries (l : Layout) : List (Nat × Item) :=
  l.items.map fun (addr, item) => (addr.slot.toNat, item)

/-- The number of the next slot; past the last slot it is the number of no slot. -/
def position (l : Layout) : Nat :=
  match l.next with
  | some addr => addr.slot.toNat
  | none => 2 ^ 64

theorem map_fst_entries (l : Layout) :
    l.entries.map Prod.fst = (l.items.map Prod.fst).map (·.slot.toNat) := by
  unfold entries
  rw [List.map_map, List.map_map]
  rfl

/-- An address is given by the number of its slot. -/
theorem injective_toNat_slot : Function.Injective fun addr : Address => addr.slot.toNat := by
  rintro ⟨a⟩ ⟨b⟩ hab
  exact congrArg Address.mk (UInt64.toNat_inj.mp hab)

/-- The number of a slot decides whether the slot is used. -/
theorem mem_entries_iff {l : Layout} {addr : Address} :
    addr.slot.toNat ∈ l.entries.map Prod.fst ↔ (l.items.lookup addr).isSome = true := by
  rw [map_fst_entries, isSome_lookup_iff]
  exact List.mem_map_of_injective injective_toNat_slot

/-- The walk goes one slot further. -/
theorem position_next? (items : List (Address × Item)) (addr : Address) :
    (⟨items, addr.next?⟩ : Layout).position = addr.slot.toNat + 1 := by
  unfold position Address.next?
  by_cases hlast : addr = Address.last
  · rw [if_pos hlast, hlast, Address.toNat_last]
    rfl
  · have hslot : addr.slot ≠ Address.last.slot := fun heq => hlast (congrArg Address.mk heq)
    rw [if_neg hlast]
    exact Address.toNat_add_one hslot

/-- **An item stands at the position of the walk.** -/
theorem place_spec {l l' : Layout} {item : Item} (h : l.place item = .ok l') :
    l'.entries = l.entries ++ [(l.position, item)] ∧ l'.position = l.position + 1 := by
  unfold place at h
  split at h
  next => cases h
  next addr hnext =>
    split at h
    next => cases h
    next =>
      cases h
      have hposition : l.position = addr.slot.toNat := by rw [position, hnext]
      rw [hposition]
      exact ⟨by rw [entries, List.map_append]; rfl, position_next? _ addr⟩

/-- An item can be placed at a slot that exists and is not used. -/
theorem exists_place {l : Layout} (item : Item) (hroom : l.position < 2 ^ 64)
    (hfree : l.position ∉ l.entries.map Prod.fst) : ∃ l', l.place item = .ok l' := by
  unfold place
  unfold position at hroom hfree
  cases hnext : l.next with
  | none =>
    rw [hnext] at hroom
    exact absurd hroom (lt_irrefl _)
  | some addr =>
    rw [hnext] at hfree
    show ∃ l', (if (l.items.lookup addr).isSome = true then _ else _) = _
    rw [if_neg (fun hused => hfree (mem_entries_iff.mpr hused))]
    exact ⟨_, rfl⟩

/-- **Step.** A statement does to a layout what it does to the walk. -/
theorem apply_spec {l l' : Layout} {statement : Statement} (h : l.apply statement = .ok l')
    (rest : List Statement) :
    l'.entries ++ placements l'.position rest =
      l.entries ++ placements l.position (statement :: rest) := by
  cases statement with
  | origin addr =>
    cases h
    rfl
  | item item =>
    obtain ⟨hentries, hposition⟩ := place_spec h
    rw [hentries, hposition, List.append_assoc]
    rfl

/-- **Progress.** A statement has an effect if the walk from here on fits. -/
theorem exists_apply {l : Layout} {statement : Statement} {rest : List Statement}
    (h : Fits (l.entries ++ placements l.position (statement :: rest))) :
    ∃ l', l.apply statement = .ok l' := by
  cases statement with
  | origin addr => exact ⟨_, rfl⟩
  | item item =>
    refine exists_place item ?_ ?_
    · exact h.inRange (l.position, item) (List.mem_append_right _ List.mem_cons_self)
    · have hdistinct := h.distinct
      rw [List.map_append, List.nodup_append] at hdistinct
      intro hmem
      exact hdistinct.2.2 _ hmem _ List.mem_cons_self rfl

/-- The effect of statements in their order. -/
def applyAll (l : Layout) : List Statement → Except SourceFlaw Layout
  | [] => .ok l
  | statement :: rest => do (← l.apply statement).applyAll rest

/-- **Run.** What statements place is what the walk places. -/
theorem applyAll_spec {l l' : Layout} {statements : List Statement}
    (h : l.applyAll statements = .ok l') :
    l'.entries = l.entries ++ placements l.position statements := by
  -- What is placed and what is still to be placed make up the walk, whatever the layout.
  induction statements generalizing l with
  | nil =>
    cases h
    exact (List.append_nil _).symm
  | cons statement rest ih =>
    obtain ⟨m, hm, hrest⟩ := bind_eq_ok.mp h
    rw [ih hrest, apply_spec hm]

/-- Statements have an effect if the walk fits. -/
theorem exists_applyAll {l : Layout} {statements : List Statement}
    (h : Fits (l.entries ++ placements l.position statements)) :
    ∃ l', l.applyAll statements = .ok l' := by
  induction statements generalizing l with
  | nil => exact ⟨l, rfl⟩
  | cons statement rest ih =>
    obtain ⟨m, hm⟩ := exists_apply h
    rw [← apply_spec hm] at h
    obtain ⟨l', hl'⟩ := ih h
    exact ⟨l', bind_eq_ok.mpr ⟨m, hm, hl'⟩⟩

/-- The slots of a layout exist, since their numbers are those of addresses. -/
theorem Distinct.fits {l : Layout} (h : l.Distinct) : Fits l.entries := by
  constructor
  · intro entry hentry
    obtain ⟨⟨addr, item⟩, -, rfl⟩ := List.mem_map.mp hentry
    exact addr.slot.toNat_lt
  · rw [map_fst_entries]
    exact h.map injective_toNat_slot

/-- The effect of a line is that of its statement. -/
theorem applyLine_eq_ok_iff {l l' : Layout} {line : List Char} :
    l.applyLine line = .ok l' ↔
      (Means line none ∧ l = l') ∨
        ∃ statement, Means line (some statement) ∧ l.apply statement = .ok l' := by
  unfold applyLine
  simp only [bind_eq_ok, ofLine?_eq_ok_iff]
  constructor
  · rintro ⟨statement?, hmeans, heffect⟩
    cases statement? with
    | none => exact .inl ⟨hmeans, Except.ok.inj heffect⟩
    | some statement => exact .inr ⟨statement, hmeans, heffect⟩
  · rintro (⟨hmeans, rfl⟩ | ⟨statement, hmeans, heffect⟩)
    · exact ⟨none, hmeans, rfl⟩
    · exact ⟨some statement, hmeans, heffect⟩

theorem applyLines_cons_eq_ok_iff {l l' : Layout} {number : Nat} {line : List Char}
    {rest : List (List Char)} :
    l.applyLines number (line :: rest) = .ok l' ↔
      ∃ m, l.applyLine line = .ok m ∧ m.applyLines (number + 1) rest = .ok l' := by
  rw [applyLines]
  cases l.applyLine line with
  | error flaw => simp
  | ok m => simp

/-- **The effect of lines is that of their statements.** -/
theorem applyLines_eq_ok_iff {l l' : Layout} {number : Nat} {lines : List (List Char)} :
    l.applyLines number lines = .ok l' ↔
      ∃ statements, Listing lines statements ∧ l.applyAll statements = .ok l' := by
  induction lines generalizing l number with
  | nil =>
    constructor
    · intro h
      cases h
      exact ⟨[], .nil, rfl⟩
    · rintro ⟨statements, hlisting, heffect⟩
      cases hlisting
      cases heffect
      rfl
  | cons line rest ih =>
    simp only [applyLines_cons_eq_ok_iff, applyLine_eq_ok_iff, ih]
    constructor
    · rintro ⟨m, ⟨hmeans, rfl⟩ | ⟨statement, hmeans, hm⟩, statements, hlisting, heffect⟩
      · exact ⟨statements, .blank hmeans hlisting, heffect⟩
      · exact ⟨statement :: statements, .code hmeans hlisting, bind_eq_ok.mpr ⟨m, hm, heffect⟩⟩
    · rintro ⟨statements, hlisting, heffect⟩
      cases hlisting with
      | blank hmeans hrest => exact ⟨l, .inl ⟨hmeans, rfl⟩, statements, hrest, heffect⟩
      | code hmeans hrest =>
        obtain ⟨m, hm, heffect⟩ := bind_eq_ok.mp heffect
        exact ⟨m, .inr ⟨_, hmeans, hm⟩, _, hrest, heffect⟩

end Layout

/-- The layout of a text is the one that its statements make. -/
theorem layout_eq_ok_iff {source : String} {items : List (Address × Item)} :
    layout source = .ok items ↔ ∃ statements l, Listing (Text.lines source.toList) statements ∧
      Layout.applyAll {} statements = .ok l ∧ l.items = items := by
  unfold layout
  simp only [bind_eq_ok, Layout.applyLines_eq_ok_iff]
  constructor
  · rintro ⟨l, ⟨statements, hlisting, hl⟩, hitems⟩
    exact ⟨statements, l, hlisting, hl, Except.ok.inj hitems⟩
  · rintro ⟨statements, l, hlisting, hl, rfl⟩
    exact ⟨l, ⟨statements, hlisting, hl⟩, rfl⟩

/-- **The layout of a text is its reference walk**, and it exists if the walk fits. -/
theorem layout_spec (source : String) :
    ((∃ items, layout source = .ok items) ↔
      ∃ statements, Listing (Text.lines source.toList) statements ∧
        Fits (placements 1 statements)) ∧
    ∀ items statements, layout source = .ok items →
      Listing (Text.lines source.toList) statements →
      (items.map fun (addr, item) => (addr.slot.toNat, item)) = placements 1 statements := by
  have hwalk : ∀ items statements, layout source = .ok items →
      Listing (Text.lines source.toList) statements →
      (items.map fun (addr, item) => (addr.slot.toNat, item)) = placements 1 statements := by
    intro items statements hlayout hlisting
    -- The statements are those of the lines, so they are the ones that made the layout.
    obtain ⟨others, l, hothers, hl, rfl⟩ := layout_eq_ok_iff.mp hlayout
    rw [hlisting.unique hothers]
    exact Layout.applyAll_spec hl
  refine ⟨⟨?_, ?_⟩, hwalk⟩
  · rintro ⟨items, hlayout⟩
    obtain ⟨statements, -, hlisting, -, -⟩ := layout_eq_ok_iff.mp hlayout
    have hfits := Layout.Distinct.fits (l := ⟨items, none⟩) (layout_nodup hlayout)
    refine ⟨statements, hlisting, ?_⟩
    rwa [← hwalk items statements hlayout hlisting]
  · rintro ⟨statements, hlisting, hfits⟩
    obtain ⟨l, hl⟩ := Layout.exists_applyAll (l := {}) hfits
    exact ⟨l.items, layout_eq_ok_iff.mpr ⟨statements, l, hlisting, hl, rfl⟩⟩

/-! ### The words of items -/

/-- **The digits of a number**, with zeros in front up to a width and no more than that. -/
structure IsPadded (width value : Nat) (token : Bits) : Prop where
  /-- There is no sign mark. -/
  unsigned : token.negative = false
  /-- The digits stand for the number. -/
  magnitude : token.magnitude = value
  /-- The width, or as many digits as the number has. -/
  width : token.width = max width (value.log2 + 1)

theorem length_binaryDigits (n : Nat) : (binaryDigits n).length = n.log2 + 1 := by
  induction n using binaryDigits.induct with
  | case1 n h =>
    rw [binaryDigits, if_pos h, Nat.log2_def, if_neg (by omega)]
    rfl
  | case2 n h ih =>
    rw [binaryDigits, if_neg h, List.length_append, ih, Nat.log2_def n, if_pos (by omega)]
    rfl

theorem isPadded_encodeUnsigned (width : Nat) (value : UInt64) :
    IsPadded width value.toNat (encodeUnsigned value width) := by
  refine ⟨rfl, magnitude_encodeUnsigned value width, ?_⟩
  show (padDigits width (binaryDigits value.toNat)).length = _
  rw [length_padDigits, length_binaryDigits]

/-- **What the word of an item has to be.** -/
inductive Item.Denotes (width : Nat) : Item → Word → Prop
  /-- The word of data is one token, its number. -/
  | data {value : UInt64} {token : Bits} (htoken : IsPadded width value.toNat token) :
      Denotes width (.data value) ⟨[token]⟩
  /-- The word of an instruction is the encoded instruction, and decoding gives it back. -/
  | instruction {item : Item} {i : Instruction} {w : Word} (hi : item.instruction? width = some i)
      (hword : w = i.encode width) (hdecode : Instruction.decode w = .ok i) : Denotes width item w

theorem Item.denotes_word (width : Nat) (item : Item) : item.Denotes width (item.word width) := by
  cases hi : item.instruction? width with
  | some i => exact .instruction hi (word_eq_encode hi) (decode_word hi)
  | none =>
    cases item with
    | data value => exact .data (isPadded_encodeUnsigned width value)
    | _ => cases hi

/-- **An item at a slot and its word at an address.** -/
structure Translates (width : Nat) (entry : Nat × Item) (row : Address × Word) : Prop where
  /-- The address is that of the slot. -/
  slot : row.1.slot.toNat = entry.1
  /-- The word is that of the item. -/
  word : entry.2.Denotes width row.2

theorem translates_programOf (width : Nat) (items : List (Address × Item)) :
    List.Forall₂ (Translates width) (items.map fun (addr, item) => (addr.slot.toNat, item))
      (programOf items width).words := by
  unfold programOf
  rw [List.forall₂_map_left_iff, List.forall₂_map_right_iff, List.forall₂_same]
  rintro ⟨addr, item⟩ -
  exact ⟨rfl, item.denotes_word width⟩

/-! ### Programs -/

theorem assemble_eq_ok_iff {source : String} {width : Nat} {p : Program} :
    assemble source width = .ok p ↔
      ∃ items, layout source = .ok items ∧ programOf items width = p := by
  unfold assemble
  rw [bind_eq_ok]
  constructor
  · rintro ⟨items, hlayout, hprogram⟩
    exact ⟨items, hlayout, Except.ok.inj hprogram⟩
  · rintro ⟨items, hlayout, rfl⟩
    exact ⟨items, hlayout, rfl⟩

/-- **The assembler computes the reference translation.** A text can be assembled exactly if its
    lines mean statements and their slots fit. The program then has one word for each item, in
    the order of the lines, at the slot where the walk puts it. -/
theorem assemble_translates (source : String) (width : Nat) :
    ((∃ p, assemble source width = .ok p) ↔
      ∃ statements, Listing (Text.lines source.toList) statements ∧
        Fits (placements 1 statements)) ∧
    ∀ p statements, assemble source width = .ok p →
      Listing (Text.lines source.toList) statements →
      List.Forall₂ (Translates width) (placements 1 statements) p.words := by
  obtain ⟨haccept, hwalk⟩ := layout_spec source
  constructor
  · rw [← haccept]
    constructor
    · rintro ⟨p, hp⟩
      obtain ⟨items, hlayout, -⟩ := assemble_eq_ok_iff.mp hp
      exact ⟨items, hlayout⟩
    · rintro ⟨items, hlayout⟩
      exact ⟨_, assemble_eq_ok_iff.mpr ⟨items, hlayout, rfl⟩⟩
  · intro p statements hp hlisting
    obtain ⟨items, hlayout, rfl⟩ := assemble_eq_ok_iff.mp hp
    rw [← hwalk items statements hlayout hlisting]
    exact translates_programOf width items

/-- A comment, both separators, letters of either case, and an ORG: the words stand at the slots
    1, 9 and 10. -/
theorem assemble_translates_moved :
    let source := "# start\nmov REG0 $7\norg\t0x9 # far\n$42\n\nExt\t$0"
    ∃ p statements, assemble source 4 = .ok p ∧ Listing (Text.lines source.toList) statements ∧
      Fits (placements 1 statements) ∧
      List.Forall₂ (Translates 4) (placements 1 statements) p.words ∧
      p.words.map (·.1.slot) = [1, 9, 10] := by
  intro source
  let items : List (Address × Item) := [(⟨1⟩, .loadValue 0 7), (⟨9⟩, .data 42), (⟨10⟩, .exit 0)]
  have hlayout : layout source = .ok items := by decide +kernel
  have hasm : assemble source 4 = .ok (programOf items 4) :=
    assemble_eq_ok_iff.mpr ⟨items, hlayout, rfl⟩
  obtain ⟨haccept, hexact⟩ := assemble_translates source 4
  obtain ⟨statements, hlisting, hfits⟩ := haccept.mp ⟨_, hasm⟩
  exact ⟨_, statements, hasm, hlisting, hfits, hexact _ _ hasm hlisting, rfl⟩

end Source

end BitMachine
