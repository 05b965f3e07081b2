import BitMachine.Proofs.PrintedLines
import BitMachine.Proofs.Translation

namespace BitMachine

/-!
# Disassembled programs are assembled again

The disassembly of an assembled program, with an ORG in front of each word, is a source text of
the same program, exactly if its numbers are below 2^63. The numbers from there on are written in
binary, which no source text may do.

* `Source.placements_moved` and `Source.listing_movedLines_iff` — items that are placed by an ORG
  each stand where they are put, and their lines list them;
* `Source.slot_ne_zero_of_layout` — no item of a source text stands at slot 0;
* `Program.reassembly` and `Program.ValuesFit` — the text of a program, and the programs whose
  numbers are below 2^63;
* `Source.layout_reassembly_iff` — the layout of the text of a layout;
* `Source.assemble_reassembly` — the round trip, and the refusal where there is none.
-/

/-! ### The text of a program -/

/-- **The text of a program**: for each word in order the line of an ORG with its address and the
    line of its disassembly. -/
def Program.reassembly (p : Program) : String :=
  String.join (p.words.map fun (addr, w) =>
    s!"ORG {addr.text}\n{w.disassemble canonicalLength}\n")

/-- **The numbers of a word**: the token of data, and the value of a MOV. -/
inductive Word.Carries (w : Word) : Bits → Prop
  /-- The token of data. -/
  | data {token : Bits} (h : w.tokens = [token]) : Carries w token
  /-- The value of a MOV. -/
  | immediate {dst : UInt64} {value : Bits}
      (h : Instruction.decode w = .ok (.mov dst (.immediate value))) : Carries w value

/-- **All numbers of a program are at most 2^63 - 1.** -/
def Program.ValuesFit (p : Program) : Prop :=
  ∀ row ∈ p.words, ∀ b, row.2.Carries b → b.value ≤ 2 ^ 63 - 1

namespace Source

open Text

/-! ### Items that are placed by an ORG each -/

/-- The lines for items: for each item the line of an ORG and the line of its tokens. -/
def movedLines (width : Nat) (items : List (Address × Item)) : List (List Char) :=
  items.flatMap fun (addr, item) =>
    [[' '].intercalate (originPieces addr), [' '].intercalate (item.pieces width)]

/-- The statements for items: for each item an ORG and the item. -/
def moved (items : List (Address × Item)) : List Statement :=
  items.flatMap fun (addr, item) => [.origin addr, .item item]

/-- **Items that are placed by an ORG each** stand where they are put, wherever the walk is. -/
theorem placements_moved (position : Nat) (items : List (Address × Item)) :
    placements position (moved items) =
      items.map fun (addr, item) => (addr.slot.toNat, item) := by
  -- Each ORG forgets the position before it, so the walk may start anywhere.
  induction items generalizing position with
  | nil => rfl
  | cons row rest ih =>
    obtain ⟨addr, item⟩ := row
    show (addr.slot.toNat, item) :: placements (addr.slot.toNat + 1) (moved rest) = _
    rw [ih]
    rfl

/-- A line of plain tokens comes with a statement that they say. -/
theorem listing_line_iff {ts : List (List Char)} (h : ∀ t ∈ ts, Plain t) (hne : ts ≠ [])
    {lines : List (List Char)} {statements : List Statement} :
    Listing ([' '].intercalate ts :: lines) statements ↔
      ∃ statement rest, Says ts statement ∧ Listing lines rest ∧
        statements = statement :: rest := by
  constructor
  · intro hlisting
    cases hlisting with
    | blank hline _ =>
      obtain ⟨statement, -, hnone⟩ := (means_intercalate_iff h hne).mp hline
      cases hnone
    | @code _ _ statement rest hline hrest =>
      obtain ⟨other, hsaid, hsome⟩ := (means_intercalate_iff h hne).mp hline
      cases hsome
      exact ⟨statement, rest, hsaid, hrest, rfl⟩
  · rintro ⟨statement, rest, hsaid, hrest, rfl⟩
    exact .code ((means_intercalate_iff h hne).mpr ⟨statement, hsaid, rfl⟩) hrest

/-- **The lines for items list their statements**, if all their numbers can be read, and otherwise
    nothing. -/
theorem listing_movedLines_iff (width : Nat) {items : List (Address × Item)}
    (hslots : ∀ row ∈ items, row.1.slot ≠ 0) {statements : List Statement} :
    Listing (movedLines width items) statements ↔
      (∀ row ∈ items, row.2.Readable) ∧ statements = moved items := by
  induction items generalizing statements with
  | nil =>
    constructor
    · intro hlisting
      cases hlisting
      exact ⟨nofun, rfl⟩
    · rintro ⟨-, rfl⟩
      exact .nil
  | cons row rest ih =>
    obtain ⟨addr, item⟩ := row
    have haddr : addr.slot ≠ 0 := hslots (addr, item) List.mem_cons_self
    have hih : ∀ others, Listing (movedLines width rest) others ↔
        (∀ row ∈ rest, row.2.Readable) ∧ others = moved rest :=
      fun others => ih fun row hrow => hslots row (List.mem_cons_of_mem _ hrow)
    have hpieces : item.pieces width ≠ [] := by cases item <;> exact List.cons_ne_nil _ _
    show Listing ([' '].intercalate (originPieces addr) ::
      [' '].intercalate (item.pieces width) :: movedLines width rest) statements ↔ _
    simp only [listing_line_iff (plain_originPieces addr) (List.cons_ne_nil _ _),
      listing_line_iff (item.plain_pieces width) hpieces, says_originPieces_iff haddr,
      item.says_pieces_iff width, hih, List.forall_mem_cons]
    -- The two lines of the item have come off the listing, one after the other.
    constructor
    · rintro ⟨_, _, rfl, ⟨_, _, ⟨hitem, rfl⟩, ⟨hrest, rfl⟩, rfl⟩, rfl⟩
      exact ⟨⟨hitem, hrest⟩, rfl⟩
    · rintro ⟨⟨hitem, hrest⟩, rfl⟩
      exact ⟨_, _, rfl, ⟨_, _, ⟨hitem, rfl⟩, ⟨hrest, rfl⟩, rfl⟩, rfl⟩

/-! ### The slots of a layout -/

/-- No line says that an item stands at slot 0. -/
theorem Means.origin_ne_zero {line : List Char} {addr : Address}
    (h : Means line (some (.origin addr))) : addr.slot ≠ 0 := by
  cases h with
  | code _ _ _ hsaid =>
    cases hsaid with
    | named _ _ hsuits =>
      cases hsuits with
      | origin hslot => exact hslot

theorem Listing.origin_ne_zero {lines : List (List Char)} {statements : List Statement}
    (h : Listing lines statements) {addr : Address} (hmem : .origin addr ∈ statements) :
    addr.slot ≠ 0 := by
  induction h with
  | nil => cases hmem
  | blank _ _ ih => exact ih hmem
  | code hline _ ih =>
    rcases List.mem_cons.mp hmem with rfl | hmem
    · exact hline.origin_ne_zero
    · exact ih hmem

/-- The walk stays clear of slot 0. -/
theorem one_le_of_mem_placements {position : Nat} (hposition : 1 ≤ position)
    {statements : List Statement} (h : ∀ addr, .origin addr ∈ statements → addr.slot ≠ 0) :
    ∀ entry ∈ placements position statements, 1 ≤ entry.1 := by
  induction statements generalizing position with
  | nil => exact nofun
  | cons statement rest ih =>
    have hrest : ∀ addr, .origin addr ∈ rest → addr.slot ≠ 0 :=
      fun addr hmem => h addr (List.mem_cons_of_mem _ hmem)
    cases statement with
    | origin addr =>
      -- The walk goes on from the address of the ORG.
      have hslot : addr.slot ≠ 0 := h addr List.mem_cons_self
      have hone : 1 ≤ addr.slot.toNat := by
        rw [Nat.one_le_iff_ne_zero]
        exact fun hzero => hslot (UInt64.toNat_inj.mp hzero)
      exact ih hone hrest
    | item item =>
      refine List.forall_mem_cons.mpr ⟨hposition, ih ?_ hrest⟩
      omega

/-- **No item of a source text stands at slot 0.** -/
theorem slot_ne_zero_of_layout {source : String} {items : List (Address × Item)}
    (h : layout source = .ok items) : ∀ row ∈ items, row.1.slot ≠ 0 := by
  obtain ⟨statements, -, hlisting, -, -⟩ := layout_eq_ok_iff.mp h
  have hentries := (layout_spec source).2 items statements h hlisting
  rintro ⟨addr, item⟩ hrow hzero
  have hentry : (addr.slot.toNat, item) ∈ placements 1 statements := by
    rw [← hentries]
    exact List.mem_map_of_mem hrow
  have hone : 1 ≤ addr.slot.toNat :=
    one_le_of_mem_placements le_rfl (fun _ hmem => hlisting.origin_ne_zero hmem) _ hentry
  rw [show addr.slot = 0 from hzero] at hone
  exact absurd hone (by decide)

/-! ### Programs -/

/-- A word of one token is no instruction. -/
theorem decode_singleton (token : Bits) (i : Instruction) :
    Instruction.decode ⟨[token]⟩ ≠ .ok i := by
  intro h
  obtain ⟨-, -, -, hreads⟩ := Instruction.decode_eq_ok_iff.mp h
  cases hreads

/-- The numbers of the word of an item. -/
theorem Item.carries_word_iff {width : Nat} {item : Item} {b : Bits} :
    (item.word width).Carries b ↔
      ∃ value, item.value? = some value ∧ b = encodeUnsigned value width := by
  constructor
  · intro h
    -- Data is no instruction, and an instruction has more tokens than one.
    cases hi : item.instruction? width with
    | none =>
      cases item with
      | data value =>
        cases h with
        | data htoken =>
          cases htoken
          exact ⟨value, rfl, rfl⟩
        | immediate hdecode => exact absurd hdecode (decode_singleton _ _)
      | _ => cases hi
    | some i =>
      have hsize := two_le_size_word hi
      have hword := decode_word hi
      cases h with
      | data htoken =>
        unfold Word.size at hsize
        rw [htoken] at hsize
        exact absurd hsize (by simp)
      | immediate hdecode =>
        rw [hdecode] at hword
        cases hword
        cases item with
        | loadValue dst value =>
          cases hi
          exact ⟨value, rfl, rfl⟩
        | _ => cases hi
  · rintro ⟨value, hvalue, rfl⟩
    cases item with
    | data other =>
      cases hvalue
      exact .data rfl
    | loadValue dst other =>
      cases hvalue
      exact .immediate (decode_word rfl)
    | _ => cases hvalue

/-- The numbers of an assembled program fit exactly if its items can be read. -/
theorem valuesFit_programOf_iff (items : List (Address × Item)) (width : Nat) :
    (programOf items width).ValuesFit ↔ ∀ row ∈ items, row.2.Readable := by
  have hvalue : ∀ value : UInt64, (encodeUnsigned value width).value ≤ 2 ^ 63 - 1 ↔
      value.toNat < signedLimit := by
    intro value
    rw [Bits.value_of_unsigned rfl, magnitude_encodeUnsigned]
    unfold signedLimit
    omega
  unfold Program.ValuesFit programOf
  simp only [List.forall_mem_map, Item.carries_word_iff]
  constructor
  · intro hfit row hrow value hsome
    exact (hvalue value).mp (hfit row hrow _ ⟨value, hsome, rfl⟩)
  · rintro hread row hrow _ ⟨value, hsome, rfl⟩
    exact (hvalue value).mpr (hread row hrow value hsome)

/-- The text of a program has the lines for its items. -/
theorem toList_reassembly (items : List (Address × Item)) (width : Nat) :
    (programOf items width).reassembly.toList =
      (movedLines width items).flatMap (· ++ ['\n']) := by
  have hrow : ∀ (addr : Address) (item : Item),
      s!"ORG {addr.text}\n{(item.word width).disassemble canonicalLength}\n".toList =
        [' '].intercalate (originPieces addr) ++ '\n' ::
          ([' '].intercalate (item.pieces width) ++ ['\n']) := by
    intro addr item
    rw [← item.toList_disassemble_word width]
    simp [toString_text, originPieces, List.intercalate_cons_cons]
  unfold Program.reassembly programOf movedLines
  rw [String.toList_join, List.map_map, List.flatMap_assoc]
  simp only [List.flatMap_map, Function.comp_def, hrow, List.flatMap_cons, List.flatMap_nil,
    List.append_assoc, List.singleton_append, List.append_nil]

/-- **The lines of the text of a program.** -/
theorem lines_reassembly (items : List (Address × Item)) (width : Nat) :
    Text.lines (programOf items width).reassembly.toList = movedLines width items := by
  rw [toList_reassembly]
  refine lines_flatMap fun line hline => ?_
  obtain ⟨⟨addr, item⟩, -, hmem⟩ := List.mem_flatMap.mp hline
  rcases List.mem_cons.mp hmem with rfl | hmem
  · exact unbroken_line (plain_originPieces addr)
  · rw [List.mem_singleton.mp hmem]
    exact unbroken_line (item.plain_pieces width)

/-- **The layout of the text of a layout** is the same layout, if its items can be read, and there
    is none otherwise. -/
theorem layout_reassembly_iff {items : List (Address × Item)} (width : Nat)
    (hdistinct : (items.map Prod.fst).Nodup) (hslots : ∀ row ∈ items, row.1.slot ≠ 0)
    {others : List (Address × Item)} :
    layout (programOf items width).reassembly = .ok others ↔
      (∀ row ∈ items, row.2.Readable) ∧ others = items := by
  obtain ⟨haccept, hwalk⟩ := layout_spec (programOf items width).reassembly
  rw [lines_reassembly] at haccept hwalk
  simp only [listing_movedLines_iff width hslots] at haccept hwalk
  -- An item and the number of its slot are an item and its address.
  have hinjective : Function.Injective fun row : Address × Item => (row.1.slot.toNat, row.2) :=
    Layout.injective_toNat_slot.prodMap Function.injective_id
  have hsame : ∀ others, layout (programOf items width).reassembly = .ok others →
      (∀ row ∈ items, row.2.Readable) → others = items := by
    intro others hlayout hread
    have hentries := hwalk others (moved items) hlayout ⟨hread, rfl⟩
    rw [placements_moved] at hentries
    exact hinjective.list_map hentries
  constructor
  · intro hlayout
    obtain ⟨_, ⟨hread, -⟩, -⟩ := haccept.mp ⟨others, hlayout⟩
    exact ⟨hread, hsame others hlayout hread⟩
  · rintro ⟨hread, rfl⟩
    -- The addresses are distinct, so no item is put where another one stands.
    have hfits : Fits (placements 1 (moved others)) := by
      rw [placements_moved]
      exact Layout.Distinct.fits (l := ⟨others, none⟩) hdistinct
    obtain ⟨found, hfound⟩ := haccept.mpr ⟨moved others, ⟨hread, rfl⟩, hfits⟩
    rwa [hsame found hfound hread] at hfound

/-- **Disassembly is assembled again, exactly below 2^63.** The text that has the address and the
    disassembly of each word of an assembled program is assembled to that program if all numbers of
    the program are at most 2^63 - 1. If one of them is larger, the text is refused. -/
theorem assemble_reassembly (source : String) (width : Nat) (p : Program)
    (h : assemble source width = .ok p) :
    (assemble p.reassembly width = .ok p ↔ p.ValuesFit) ∧
      (¬ p.ValuesFit → ∃ e, assemble p.reassembly width = .error e) := by
  obtain ⟨items, hlayout, rfl⟩ := assemble_eq_ok_iff.mp h
  have hagain : ∀ {others}, layout (programOf items width).reassembly = .ok others ↔
      (∀ row ∈ items, row.2.Readable) ∧ others = items :=
    layout_reassembly_iff width (layout_nodup hlayout) (slot_ne_zero_of_layout hlayout)
  rw [valuesFit_programOf_iff]
  constructor
  · rw [assemble_eq_ok_iff]
    constructor
    · rintro ⟨others, hothers, -⟩
      exact (hagain.mp hothers).1
    · intro hread
      exact ⟨items, hagain.mpr ⟨hread, rfl⟩, rfl⟩
  · intro hunread
    cases hresult : assemble (programOf items width).reassembly width with
    | error e => exact ⟨e, rfl⟩
    | ok q =>
      obtain ⟨others, hothers, -⟩ := assemble_eq_ok_iff.mp hresult
      exact absurd (hagain.mp hothers).1 hunread

/-- The number 2^63 - 1 comes back, as data and in a MOV behind an ORG, and 2^63 does not. -/
theorem assemble_reassembly_limit :
    let source := "$9223372036854775807\nORG 0x9\nMOV reg1 $9223372036854775807"
    let large := "MOV reg1 $7\nDAT $9223372036854775808"
    ∃ p q e, assemble source 4 = .ok p ∧ assemble p.reassembly 4 = .ok p ∧
      assemble large 4 = .ok q ∧ assemble q.reassembly 4 = .error e := by
  intro source large
  let items : List (Address × Item) :=
    [(⟨1⟩, .data 9223372036854775807), (⟨9⟩, .loadValue 1 9223372036854775807)]
  let others : List (Address × Item) := [(⟨1⟩, .loadValue 1 7), (⟨2⟩, .data 9223372036854775808)]
  have hlayout : layout source = .ok items := by decide +kernel
  have hlarge : layout large = .ok others := by decide +kernel
  have hp : assemble source 4 = .ok (programOf items 4) :=
    assemble_eq_ok_iff.mpr ⟨items, hlayout, rfl⟩
  have hq : assemble large 4 = .ok (programOf others 4) :=
    assemble_eq_ok_iff.mpr ⟨others, hlarge, rfl⟩
  have hfit : (programOf items 4).ValuesFit := by
    have hlimit : (9223372036854775807 : UInt64).toNat < signedLimit := by decide
    rw [valuesFit_programOf_iff]
    refine List.forall_mem_cons.mpr ⟨?_, List.forall_mem_cons.mpr ⟨?_, nofun⟩⟩
    · rintro _ ⟨⟩
      exact hlimit
    · rintro _ ⟨⟩
      exact hlimit
  have hunfit : ¬ (programOf others 4).ValuesFit := by
    rw [valuesFit_programOf_iff]
    intro hread
    exact absurd (hread (⟨2⟩, .data 9223372036854775808) (by simp [others]) _ rfl) (by decide)
  obtain ⟨e, he⟩ := (assemble_reassembly large 4 _ hq).2 hunfit
  exact ⟨_, _, e, hp, (assemble_reassembly source 4 _ hp).1.mpr hfit, hq, he⟩

end Source

end BitMachine
