import BitMachine.Proofs.Translation

namespace BitMachine

/-!
# The spellings of mnemonics

Operands are read in ASCII lower case, and the first token of a line in the upper case of all
scripts. So a line that is assembled is ASCII text, apart from two characters that look like
letters of a mnemonic and have these letters as their upper-case forms:

* `Text.IsAscii` — texts of ASCII characters, and `Source.Operand.Spells.isAscii`: operands are;
* `Text.HasCapital` — characters and their capital letters, and
  `Text.uppercase?_eq_some_iff`: upper-case forms without ligatures, letter by letter;
* `Source.Mnemonic.names_iff` — names, letter by letter, and `Source.Mnemonic.LookAlike`: those
  that are not ASCII;
* `Source.ofTokens?_congr_name` — a name is read as the spelling that it stands for;
* `Source.assemble_spellings` — **how the lines of an assembled text are written**.
-/

/-! ### ASCII -/

namespace Text

/-- A text of ASCII characters. -/
def IsAscii (cs : List Char) : Prop :=
  ∀ c ∈ cs, c.toNat < 0x80

instance (cs : List Char) : Decidable (IsAscii cs) :=
  List.decidableBAll _ cs

/-- A character whose lower-case form is ASCII is ASCII itself. -/
theorem lt_of_toLower_lt {c : Char} (h : c.toLower.toNat < 0x80) : c.toNat < 0x80 := by
  unfold Char.toLower at h
  split at h
  next hupper =>
    have hhigh : c.val.toNat ≤ 90 := hupper.2
    show c.val.toNat < 128
    omega
  next => exact h

theorem IsAscii.of_map_toLower {cs : List Char} (h : IsAscii (cs.map Char.toLower)) :
    IsAscii cs :=
  fun _ hc => lt_of_toLower_lt (h _ (List.mem_map_of_mem hc))

theorem isAscii_of_isDigit {cs : List Char} (h : ∀ c ∈ cs, c.isDigit = true) : IsAscii cs := by
  intro c hc
  have hhigh : c.val.toNat ≤ 57 := (Char.isDigit_iff_toNat.mp (h c hc)).2
  show c.val.toNat < 128
  omega

/-! ### Upper-case forms -/

/-- **Characters and their capital letters**, as far as these are ASCII letters. -/
inductive HasCapital : Char → Char → Prop
  /-- The letter in either case. -/
  | ascii {c : Char} (hc : c.toNat < 0x80) : HasCapital c c.toUpper
  /-- The dotless i. -/
  | dotless : HasCapital 'ı' 'I'
  /-- The long s. -/
  | long : HasCapital 'ſ' 'S'

/-- The upper-case forms that are more than one letter. -/
def ligatures : List (List Char) :=
  [['S', 'S'], ['F', 'F'], ['F', 'I'], ['F', 'L'], ['F', 'F', 'I'], ['F', 'F', 'L'], ['S', 'T']]

theorem HasCapital.upperAscii?_eq {c letter : Char} (h : HasCapital c letter) :
    upperAscii? c = some [letter] := by
  cases h with
  | ascii hc =>
    unfold upperAscii?
    -- None of the characters in the table is ASCII.
    split
    all_goals first
      | exact absurd hc (by decide)
      | exact if_pos hc
  | dotless | long => rfl

/-- The upper-case form of a character is one letter, or a ligature. -/
theorem upperAscii?_cases {c : Char} {part : List Char} (h : upperAscii? c = some part) :
    (∃ letter, part = [letter] ∧ HasCapital c letter) ∨ part ∈ ligatures := by
  unfold upperAscii? at h
  split at h
  case h_1 =>
    cases h
    exact .inl ⟨'I', rfl, .dotless⟩
  case h_2 =>
    cases h
    exact .inl ⟨'S', rfl, .long⟩
  case h_11 =>
    split at h
    next hc =>
      cases h
      exact .inl ⟨c.toUpper, rfl, .ascii hc⟩
    next => cases h
  all_goals
    cases h
    right
    decide

theorem uppercase?_cons_eq_some_iff {c : Char} {cs upper : List Char} :
    uppercase? (c :: cs) = some upper ↔ ∃ part rest,
      upperAscii? c = some part ∧ uppercase? cs = some rest ∧ upper = part ++ rest := by
  unfold uppercase?
  rw [List.mapM_cons]
  constructor
  · intro h
    obtain ⟨parts, hparts, rfl⟩ := Option.map_eq_some_iff.mp h
    simp only [Option.bind_eq_bind, Option.bind_eq_some_iff] at hparts
    obtain ⟨part, hpart, others, hothers, hpure⟩ := hparts
    cases hpure
    exact ⟨part, others.flatten, hpart, Option.map_eq_some_iff.mpr ⟨others, hothers, rfl⟩, rfl⟩
  · rintro ⟨part, rest, hpart, hrest, rfl⟩
    obtain ⟨others, hothers, rfl⟩ := Option.map_eq_some_iff.mp hrest
    rw [hpart, hothers]
    rfl

/-- **Upper-case forms without ligatures** are read off letter by letter. -/
theorem uppercase?_eq_some_iff {token upper : List Char}
    (hplain : ∀ part ∈ ligatures, ¬ part <:+: upper) :
    uppercase? token = some upper ↔ List.Forall₂ HasCapital token upper := by
  induction token generalizing upper with
  | nil =>
    rw [List.forall₂_nil_left_iff]
    constructor
    · intro h
      exact (Option.some.inj h).symm
    · rintro rfl
      rfl
  | cons c cs ih =>
    rw [uppercase?_cons_eq_some_iff, List.forall₂_cons_left_iff]
    have hrest (front rest : List Char) (heq : upper = front ++ rest) :
        ∀ part ∈ ligatures, ¬ part <:+: rest := by
      intro part hpart hinside
      rw [heq] at hplain
      exact hplain part hpart (hinside.trans (List.suffix_append front rest).isInfix)
    constructor
    · rintro ⟨part, rest, hpart, hupper, rfl⟩
      rcases upperAscii?_cases hpart with ⟨letter, rfl, hletter⟩ | hligature
      · exact ⟨letter, rest, hletter, (ih (hrest _ rest rfl)).mp hupper, rfl⟩
      · exact absurd (List.prefix_append part rest).isInfix (hplain part hligature)
    · rintro ⟨letter, rest, hletter, hothers, rfl⟩
      have hupper := (ih (hrest [letter] rest rfl)).mpr hothers
      exact ⟨[letter], rest, hletter.upperAscii?_eq, hupper, rfl⟩

end Text

namespace Source

open Text (IsAscii HasCapital)

/-- **Operands are ASCII texts.** -/
theorem Operand.Spells.isAscii {token : List Char} {operand : Operand} (h : Spells token operand) :
    IsAscii token := by
  cases h with
  | @intro letters digits kind value hletters hdigits =>
    have hlower : IsAscii (letters.map Char.toLower) := by
      generalize letters.map Char.toLower = lower at hletters
      cases hletters <;> decide
    intro c hc
    rcases List.mem_append.mp hc with hc | hc
    · exact hlower.of_map_toLower c hc
    · exact Text.isAscii_of_isDigit hdigits.isDigit c hc

/-! ### Mnemonics -/

namespace Mnemonic

/-- **Names.** A token names a mnemonic if its characters have the capital letters of a spelling. -/
theorem names_iff {token : List Char} {mnemonic : Mnemonic} {spelling : String} :
    Names token mnemonic spelling ↔
      (spelling, mnemonic) ∈ spellings ∧ List.Forall₂ HasCapital token spelling.toList := by
  -- No spelling has a ligature in it.
  have htable : ∀ entry ∈ spellings, ∀ part ∈ Text.ligatures, ¬ part <:+: entry.1.toList := by
    decide +kernel
  constructor
  · rintro ⟨hupper, hmem⟩
    exact ⟨hmem, (Text.uppercase?_eq_some_iff (htable _ hmem)).mp hupper⟩
  · rintro ⟨hmem, hcapitals⟩
    exact ⟨(Text.uppercase?_eq_some_iff (htable _ hmem)).mpr hcapitals, hmem⟩

/-- **Names that are not ASCII**: SUB with a long s, and DIV or EXIT with a dotless i. -/
inductive LookAlike (token : List Char) : Prop
  /-- The S is long. -/
  | long (hmem : 'ſ' ∈ token) (hcapitals : List.Forall₂ HasCapital token "SUB".toList)
  /-- The I has no dot. -/
  | dotless {spelling : String} (hmem : 'ı' ∈ token) (hspelling : spelling ∈ ["DIV", "EXIT"])
      (hcapitals : List.Forall₂ HasCapital token spelling.toList)

/-- What is not ASCII in a name is one of the two characters. -/
theorem isAscii_or_mem {token letters : List Char} (h : List.Forall₂ HasCapital token letters) :
    IsAscii token ∨ ('ſ' ∈ token ∧ 'S' ∈ letters) ∨ ('ı' ∈ token ∧ 'I' ∈ letters) := by
  induction h with
  | nil => exact .inl nofun
  | cons hc _ ih =>
    cases hc with
    | ascii hc =>
      rcases ih with hrest | ⟨hlong, hs⟩ | ⟨hdotless, hi⟩
      · exact .inl (List.forall_mem_cons.mpr ⟨hc, hrest⟩)
      · exact .inr (.inl ⟨List.mem_cons_of_mem _ hlong, List.mem_cons_of_mem _ hs⟩)
      · exact .inr (.inr ⟨List.mem_cons_of_mem _ hdotless, List.mem_cons_of_mem _ hi⟩)
    | dotless => exact .inr (.inr ⟨List.mem_cons_self, List.mem_cons_self⟩)
    | long => exact .inr (.inl ⟨List.mem_cons_self, List.mem_cons_self⟩)

/-- **A name is an ASCII text or a look-alike.** -/
theorem Names.isAscii_or_lookAlike {token : List Char} {mnemonic : Mnemonic} {spelling : String}
    (h : Names token mnemonic spelling) : IsAscii token ∨ LookAlike token := by
  obtain ⟨hmem, hcapitals⟩ := names_iff.mp h
  have hlong : ∀ entry ∈ spellings, 'S' ∈ entry.1.toList → entry.1 = "SUB" := by decide
  have hdotless : ∀ entry ∈ spellings, 'I' ∈ entry.1.toList → entry.1 ∈ ["DIV", "EXIT"] := by
    decide
  rcases isAscii_or_mem hcapitals with hascii | ⟨hc, hs⟩ | ⟨hc, hi⟩
  · exact .inl hascii
  · right
    obtain rfl : spelling = "SUB" := hlong _ hmem hs
    exact .long hc hcapitals
  · exact .inr (.dotless hc (hdotless _ hmem hi) hcapitals)

end Mnemonic

/-- **Look-alikes are read as what they look like**: a line that starts with a name is read as the
    line that starts with the spelling in the table. -/
theorem ofTokens?_congr_name {head : List Char} {mnemonic : Mnemonic} {spelling : String}
    (h : Mnemonic.Names head mnemonic spelling) (rest : List (List Char)) :
    Statement.ofTokens? (head :: rest) = Statement.ofTokens? (spelling.toList :: rest) := by
  have htable : ∀ entry ∈ Mnemonic.spellings,
      Text.uppercase? entry.1.toList = some entry.1.toList := by
    decide +kernel
  have hself : Mnemonic.Names spelling.toList mnemonic spelling := ⟨htable _ h.mem, h.mem⟩
  rw [ofTokens?_cons, ofTokens?_cons, if_neg h.head?_ne, if_neg hself.head?_ne]
  unfold Statement.ofMnemonic
  rw [Mnemonic.ofToken?_eq_some_iff.mpr h, Mnemonic.ofToken?_eq_some_iff.mpr hself]

/-! ### Lines -/

/-- **The tokens of a line as they are written.** Each case has the operands in ASCII. -/
inductive WellSpelled : List (List Char) → Prop
  /-- There are none. -/
  | blank : WellSpelled []
  /-- A number. -/
  | number {token : List Char} {value : UInt64} (h : Operand.Spells token (.immediate value))
      (hascii : IsAscii token) : WellSpelled [token]
  /-- A mnemonic, letter by letter, and its operands. -/
  | named {head : List Char} {rest : List (List Char)} {spelling : String} {mnemonic : Mnemonic}
      (hmem : (spelling, mnemonic) ∈ Mnemonic.spellings)
      (hcapitals : List.Forall₂ HasCapital head spelling.toList)
      (hhead : IsAscii head ∨ Mnemonic.LookAlike head) (hrest : ∀ token ∈ rest, IsAscii token) :
      WellSpelled (head :: rest)

theorem isAscii_of_spells {tokens : List (List Char)} {operands : List Operand}
    (h : List.Forall₂ Operand.Spells tokens operands) : ∀ token ∈ tokens, IsAscii token := by
  induction h with
  | nil => exact nofun
  | cons hspells _ ih => exact List.forall_mem_cons.mpr ⟨hspells.isAscii, ih⟩

theorem Says.wellSpelled {tokens : List (List Char)} {statement : Statement}
    (h : Says tokens statement) : WellSpelled tokens := by
  cases h with
  | number hspells => exact .number hspells hspells.isAscii
  | named hhead hrest =>
    obtain ⟨hmem, hcapitals⟩ := Mnemonic.names_iff.mp hhead
    exact .named hmem hcapitals hhead.isAscii_or_lookAlike (isAscii_of_spells hrest)

/-- A line with a meaning falls into tokens that are written in this way. -/
theorem Means.wellSpelled {line : List Char} {statement? : Option Statement}
    (h : Means line statement?) : ∃ ts, tokens line = .ok ts ∧ WellSpelled ts := by
  cases h with
  | blank hcode => exact ⟨[], tokens_eq_ok_iff.mpr ⟨[], hcode, by simp [Unmixed], .nil⟩, .blank⟩
  | code hcode hunmixed htokens hsaid =>
    exact ⟨_, tokens_eq_ok_iff.mpr ⟨_, hcode, hunmixed, htokens⟩, hsaid.wellSpelled⟩

theorem Listing.means {lines : List (List Char)} {statements : List Statement}
    (h : Listing lines statements) : ∀ line ∈ lines, ∃ statement?, Means line statement? := by
  induction h with
  | nil => exact nofun
  | blank hline _ ih | code hline _ ih => exact List.forall_mem_cons.mpr ⟨⟨_, hline⟩, ih⟩

/-- **How the lines of an assembled text are written.** Let a source text be assembled at any
    width. Then each of its lines falls into tokens: none, one number, or a mnemonic and operands.
    Numbers and operands are ASCII texts, and so is a mnemonic, which is then one of the spellings
    in letters of either case; but SUB may have a long s, and DIV and EXIT may have a dotless i. -/
theorem assemble_spellings {source : String} {width : Nat} {p : Program}
    (h : assemble source width = .ok p) :
    ∀ line ∈ Text.lines source.toList, ∃ ts, tokens line = .ok ts ∧ WellSpelled ts := by
  obtain ⟨items, hitems, -⟩ := bind_eq_ok.mp h
  obtain ⟨statements, -, hlisting, -⟩ := layout_eq_ok_iff.mp hitems
  intro line hline
  obtain ⟨statement?, hmeans⟩ := hlisting.means line hline
  exact hmeans.wellSpelled

/-- An EXIT in letters of both cases, with a dotless i. -/
theorem assemble_spellings_dotless :
    ∃ p, assemble "EXıt $0" 4 = .ok p ∧
      ∃ ts, tokens "EXıt $0".toList = .ok ts ∧ WellSpelled ts := by
  obtain ⟨p, hp⟩ : ∃ p, assemble "EXıt $0" 4 = .ok p := by
    have hlayout : layout "EXıt $0" = .ok [(⟨1⟩, .exit 0)] := by decide +kernel
    exact ⟨programOf [(⟨1⟩, .exit 0)] 4, by rw [assemble, hlayout]; rfl⟩
  have hline : "EXıt $0".toList ∈ Text.lines "EXıt $0".toList := by decide +kernel
  exact ⟨p, hp, assemble_spellings hp _ hline⟩

/-- **A look-alike of SUB**, with a long s, is assembled. -/
theorem assemble_lookAlike :
    ∃ p ts, assemble "ſub reg0 reg1 reg2" 4 = .ok p ∧
      tokens "ſub reg0 reg1 reg2".toList = .ok ts ∧ ¬ ∀ token ∈ ts, IsAscii token := by
  have hlayout : layout "ſub reg0 reg1 reg2" = .ok [(⟨1⟩, .arith .sub 0 1 2)] := by
    decide +kernel
  refine ⟨programOf [(⟨1⟩, .arith .sub 0 1 2)] 4,
    ["ſub".toList, "reg0".toList, "reg1".toList, "reg2".toList], ?_, ?_, ?_⟩
  · rw [assemble, hlayout]
    rfl
  · decide +kernel
  · decide

end Source

end BitMachine
