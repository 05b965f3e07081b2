import BitMachine.Address
import BitMachine.Proofs.Results
import BitMachine.Proofs.Spacing
import BitMachine.Word

namespace BitMachine

/-!
# Literals are read back

The texts that stand for numbers, bit-strings, words and addresses, and the characters that they
are written with:

* `Text.Numeral` — decimal digits and the 64-bit number that they stand for, and
  `Text.readUInt64?_eq_some_iff`: the numerals are what is read as a number;
* `Bits.ofChars_chars`, `Word.ofChars_text`, `Address.parse_text` — the text of a value stands
  for the value, and `Address.parse_eq_ok_iff`: `0x` and a numeral are what is read as an address;
* `Bits.mem_chars`, `Word.mem_toList_text`, `Address.mem_toList_text` — the characters of texts.
-/

/-! ### Numerals -/

namespace Text

/-- **Decimal digits and the 64-bit number that they stand for.** -/
structure Numeral (digits : List Char) (value : UInt64) : Prop where
  /-- There is a digit. -/
  ne_nil : digits ≠ []
  /-- All characters are ASCII digits. -/
  isDigit : ∀ c ∈ digits, c.isDigit = true
  /-- They stand for the number. -/
  value_eq : Nat.ofDigitChars 10 digits 0 = value.toNat

theorem readDecimal?_eq_some_iff {cs : List Char} {n : Nat} :
    readDecimal? cs = some n ↔
      cs ≠ [] ∧ (∀ c ∈ cs, c.isDigit = true) ∧ Nat.ofDigitChars 10 cs 0 = n := by
  unfold readDecimal?
  by_cases h : cs ≠ [] ∧ ∀ c ∈ cs, c.isDigit = true
  · rw [if_pos (by simpa using h), Option.some.injEq]
    exact ⟨fun hn => ⟨h.1, h.2, hn⟩, fun hn => hn.2.2⟩
  · rw [if_neg (by simpa using h)]
    exact ⟨nofun, fun hn => absurd ⟨hn.1, hn.2.1⟩ h⟩

theorem narrow?_eq_some_iff {n : Nat} {value : UInt64} :
    narrow? n = some value ↔ n = value.toNat := by
  unfold narrow?
  constructor
  · intro h
    split at h
    next hlt =>
      cases h
      exact UInt64.toNat_ofNatLT.symm
    next => cases h
  · rintro rfl
    rw [dif_pos value.toNat_lt, UInt64.ofNatLT_toNat]

/-- **Numerals are what is read as a number.** -/
theorem readUInt64?_eq_some_iff {cs : List Char} {value : UInt64} :
    readUInt64? cs = some value ↔ Numeral cs value := by
  unfold readUInt64?
  rw [Option.bind_eq_some_iff]
  constructor
  · rintro ⟨n, hread, hnarrow⟩
    obtain ⟨hne, hdigits, hn⟩ := readDecimal?_eq_some_iff.mp hread
    exact ⟨hne, hdigits, hn.trans (narrow?_eq_some_iff.mp hnarrow)⟩
  · rintro ⟨hne, hdigits, hvalue⟩
    exact ⟨_, readDecimal?_eq_some_iff.mpr ⟨hne, hdigits, rfl⟩, narrow?_eq_some_iff.mpr hvalue⟩

theorem isBlank_of_isDigit {c : Char} (h : c.isDigit = true) : isBlank c = false := by
  obtain ⟨hlow, hhigh⟩ := Char.isDigit_iff_toNat.mp h
  have hlow' : 48 ≤ c.toNat := hlow
  have hhigh' : c.toNat ≤ 57 := hhigh
  unfold isBlank
  simp
  omega

end Text

/-! ### Bit-strings -/

theorem readDigit_digitChar (d : Bool) : readDigit (digitChar d) = .ok d := by
  cases d <;> rfl

theorem readDigits_map_digitChar (ds : List Bool) : readDigits (ds.map digitChar) = .ok ds := by
  unfold readDigits
  rw [mapM_eq_ok, List.forall₂_map_left_iff, List.forall₂_same]
  exact fun d _ => readDigit_digitChar d

namespace Bits

theorem ofDigits_digits (b : Bits) : ofDigits b.negative b.digits = .ok b := by
  obtain ⟨negative, digits, hne⟩ := b
  cases digits with
  | nil => exact absurd rfl hne
  | cons d ds => rfl

/-- The sign mark is told from the digits. -/
theorem splitSign_chars (b : Bits) : splitSign b.chars = (b.negative, b.digitChars) := by
  unfold chars digitChars
  cases hneg : b.negative with
  | true => rfl
  | false =>
    obtain ⟨d, ds, hds⟩ := List.exists_cons_of_ne_nil b.digits_ne_nil
    rw [hds]
    cases d <;> rfl

/-- **The characters of a bit-string** stand for it. -/
theorem ofChars_chars (b : Bits) : ofChars b.chars = .ok b := by
  unfold ofChars
  rw [splitSign_chars]
  show (readDigits (b.digits.map digitChar) >>= ofDigits b.negative) = .ok b
  rw [readDigits_map_digitChar, ok_bind, ofDigits_digits]

/-- **The text of a bit-string** stands for it. -/
theorem parse_text (b : Bits) : Bits.parse b.text = .ok b := by
  unfold Bits.parse text
  rw [String.toList_ofList, ofChars_chars]

/-- The characters that bit-strings are written with. -/
theorem mem_chars {b : Bits} {c : Char} (h : c ∈ b.chars) : c = '-' ∨ c = '0' ∨ c = '1' := by
  have hdigits : c ∈ b.digitChars → c = '0' ∨ c = '1' := by
    intro hmem
    obtain ⟨d, -, rfl⟩ := List.mem_map.mp hmem
    cases d
    · exact .inl rfl
    · exact .inr rfl
  unfold chars at h
  split at h
  · rcases List.mem_cons.mp h with rfl | hmem
    · exact .inl rfl
    · exact .inr (hdigits hmem)
  · exact .inr (hdigits h)

theorem chars_ne_nil (b : Bits) : b.chars ≠ [] := by
  have hdigits : b.digitChars ≠ [] := by
    unfold digitChars
    simpa using b.digits_ne_nil
  unfold chars
  split
  · exact List.cons_ne_nil _ _
  · exact hdigits

end Bits

/-! ### Words -/

/-- The characters of the text of a word. -/
theorem Word.toList_text (w : Word) :
    w.text.toList = [' '].intercalate (w.tokens.map Bits.chars) := by
  unfold Word.text Bits.text
  rw [String.toList_intercalate, List.map_map]
  simp [Function.comp_def]

/-- Only the empty word has no text. -/
theorem Word.toList_text_ne_nil {w : Word} (h : w.isEmpty = false) : w.text.toList ≠ [] := by
  obtain ⟨tokens⟩ := w
  cases tokens with
  | nil => cases h
  | cons b bs =>
    rw [Word.toList_text]
    exact Text.intercalate_ne_nil ' ' b.chars_ne_nil _

/-- Tokens are texts without blanks. -/
theorem Word.isBlank_of_mem_tokens {w : Word} {t : List Char} (h : t ∈ w.tokens.map Bits.chars) :
    t ≠ [] ∧ ∀ c ∈ t, Text.isBlank c = false := by
  obtain ⟨b, -, rfl⟩ := List.mem_map.mp h
  refine ⟨b.chars_ne_nil, fun c hc => ?_⟩
  rcases Bits.mem_chars hc with rfl | rfl | rfl <;> rfl

/-- **The text of a word** stands for it, also after a blank. -/
theorem Word.ofChars_text (w : Word) : Word.ofChars (' ' :: w.text.toList) = .ok w := by
  have hblank : Text.isBlank ' ' = true := rfl
  have hspaced := Text.spaced_intercalate hblank fun t ht => Word.isBlank_of_mem_tokens (w := w) ht
  have hwords : Text.words (' ' :: w.text.toList) = w.tokens.map Bits.chars := by
    rw [Word.toList_text]
    exact (Text.Spaced.separator rfl hspaced).pieces_eq
  unfold Word.ofChars
  rw [hwords, bind_eq_ok]
  refine ⟨w.tokens, ?_, rfl⟩
  rw [mapM_eq_ok, List.forall₂_map_left_iff, List.forall₂_same]
  exact fun b _ => b.ofChars_chars

/-- The characters that words are written with. -/
theorem Word.mem_toList_text {w : Word} {c : Char} (h : c ∈ w.text.toList) :
    c = ' ' ∨ c = '-' ∨ c = '0' ∨ c = '1' := by
  rw [Word.toList_text] at h
  rcases Text.mem_intercalate h with rfl | ⟨t, ht, hmem⟩
  · exact .inl rfl
  · obtain ⟨b, -, rfl⟩ := List.mem_map.mp ht
    exact .inr (Bits.mem_chars hmem)

/-! ### Addresses -/

namespace Address

/-- The characters of the text of an address. -/
theorem toList_text (a : Address) :
    a.text.toList = '0' :: 'x' :: Nat.toDigits 10 a.slot.toNat := by
  show (toString "0x" ++ toString a.slot.toNat).toList = _
  rw [String.toList_append]
  show ['0', 'x'] ++ (Nat.repr a.slot.toNat).toList = _
  rw [Nat.repr, String.toList_ofList]
  rfl

theorem numeral_toDigits (n : UInt64) : Text.Numeral (Nat.toDigits 10 n.toNat) n := by
  refine ⟨Nat.toDigits_ne_nil, fun c hc => ?_, Nat.ofDigitChars_toDigits (by decide) (by decide)⟩
  exact Nat.isDigit_of_mem_toDigits (by decide) (by decide) hc

theorem ofChars?_eq_some_iff {cs : List Char} {a : Address} :
    ofChars? cs = some a ↔ ∃ digits, cs = '0' :: 'x' :: digits ∧ Text.Numeral digits a.slot := by
  constructor
  · intro h
    unfold ofChars? at h
    split at h
    next digits =>
      obtain ⟨slot, hslot, rfl⟩ := Option.map_eq_some_iff.mp h
      exact ⟨digits, rfl, Text.readUInt64?_eq_some_iff.mp hslot⟩
    next => cases h
  · rintro ⟨digits, rfl, hnumeral⟩
    rw [ofChars?, Text.readUInt64?_eq_some_iff.mpr hnumeral]
    rfl

/-- **What is read as an address** is `0x` and the numeral of a slot. -/
theorem parse_eq_ok_iff {s : String} {a : Address} :
    Address.parse s = .ok a ↔
      ∃ digits, s.toList = '0' :: 'x' :: digits ∧ Text.Numeral digits a.slot := by
  rw [← ofChars?_eq_some_iff]
  unfold Address.parse
  cases ofChars? s.toList with
  | none => simp
  | some a' => simp

/-- **The text of an address** stands for it. -/
theorem parse_text (a : Address) : Address.parse a.text = .ok a :=
  parse_eq_ok_iff.mpr ⟨_, toList_text a, numeral_toDigits a.slot⟩

/-- Different addresses have different texts. -/
theorem text_inj {a b : Address} : a.text = b.text ↔ a = b := by
  constructor
  · intro h
    have hparse := parse_text a
    rw [h, parse_text b] at hparse
    exact (Except.ok.inj hparse).symm
  · rintro rfl
    rfl

/-- The characters that addresses are written with. -/
theorem mem_toList_text {a : Address} {c : Char} (h : c ∈ a.text.toList) :
    c = 'x' ∨ c.isDigit = true := by
  rw [toList_text, List.mem_cons, List.mem_cons] at h
  rcases h with rfl | rfl | hmem
  · exact .inr rfl
  · exact .inl rfl
  · exact .inr ((numeral_toDigits a.slot).isDigit c hmem)

/-- There are no blanks in an address. -/
theorem isBlank_of_mem_text {a : Address} {c : Char} (h : c ∈ a.text.toList) :
    Text.isBlank c = false := by
  rcases mem_toList_text h with rfl | hdigit
  · rfl
  · exact Text.isBlank_of_isDigit hdigit

end Address

end BitMachine
