import BitMachine.Proofs.BinaryNumerals

namespace BitMachine

/-!
# Literals of integers

Texts that stand for integers, described by their characters: binary numerals, and binary numerals
with a sign mark in front.

* `IsLiteral` — a literal and the integer that it stands for, and `isLiteral_iff`: the literals are
  the texts of bit-strings;
* `IsCanonical` — the literal of an integer without zeros in front and without a sign mark at zero;
* `Bits.isCanonical_ofInt`, `IsCanonical.unique` — every integer has one.
-/

/-- **A literal and its integer.** A binary numeral stands for its number, and with a sign mark in
    front for the negative of its number. -/
inductive IsLiteral : String → Int → Prop
  /-- There is no sign mark. -/
  | unmarked {s : String} (hs : IsBinary s) : IsLiteral s (binaryValue s)
  /-- There is a sign mark in front. -/
  | marked {s : String} (hs : IsBinary s) : IsLiteral ("-" ++ s) (-(binaryValue s : Int))

/-- **The canonical literal of an integer.** Zero is the digit zero; other numbers start with a
    one, and a negative one has a sign mark in front of it. -/
inductive IsCanonical : String → Int → Prop
  /-- The literal of zero. -/
  | zero : IsCanonical "0" 0
  /-- The literal of a positive number. -/
  | positive {s : String} {v : Int} (hv : 0 < v) (hs : IsBinary s)
      (hone : s.toList.head? = some '1') (hvalue : binaryValue s = v) : IsCanonical s v
  /-- The literal of a negative number. -/
  | negative {s : String} {v : Int} (hv : v < 0) (hs : IsBinary s)
      (hone : s.toList.head? = some '1') (hvalue : binaryValue s = -v) : IsCanonical ("-" ++ s) v

/-! ### The texts of bit-strings -/

namespace Bits

/-- The digits of a bit-string without its sign mark. -/
def unmarked (b : Bits) : Bits :=
  { b with negative := false }

/-- The text of a bit-string is that of its digits, after a sign mark if there is one. -/
theorem text_eq (b : Bits) :
    b.text = if b.negative then "-" ++ b.unmarked.text else b.unmarked.text := by
  rw [← String.toList_inj]
  cases hneg : b.negative <;> simp [text, chars, digitChars, unmarked, signMark, hneg]

theorem isBinary_unmarked (b : Bits) : IsBinary b.unmarked.text :=
  isBinary_text rfl

theorem binaryValue_unmarked (b : Bits) : binaryValue b.unmarked.text = b.magnitude :=
  binaryValue_text rfl

/-- **The text of a bit-string** is a literal of its value. -/
theorem isLiteral_text (b : Bits) : IsLiteral b.text b.value := by
  rw [text_eq, value, ← binaryValue_unmarked]
  cases b.negative
  · exact .unmarked b.isBinary_unmarked
  · exact .marked b.isBinary_unmarked

theorem unmarked_eq {b : Bits} (h : b.negative = false) : b.unmarked = b := by
  unfold unmarked
  rw [← h]

end Bits

/-- **The literals** are the texts of bit-strings, and stand for their values. -/
theorem isLiteral_iff {s : String} {v : Int} :
    IsLiteral s v ↔ ∃ b : Bits, b.text = s ∧ b.value = v := by
  constructor
  · intro h
    cases h with
    | unmarked hs =>
      obtain ⟨b, hneg, rfl⟩ := Bits.exists_text_eq_iff.mpr hs
      exact ⟨b, rfl, by rw [Bits.value_of_unsigned hneg, Bits.binaryValue_text hneg]⟩
    | marked hs =>
      obtain ⟨b, hneg, rfl⟩ := Bits.exists_text_eq_iff.mpr hs
      refine ⟨{ b with negative := true }, ?_, ?_⟩
      · rw [Bits.text_eq, if_pos rfl]
        show "-" ++ b.unmarked.text = _
        rw [Bits.unmarked_eq hneg]
      · rw [Bits.value, if_pos rfl, Bits.binaryValue_text hneg]
        rfl
  · rintro ⟨b, rfl, rfl⟩
    exact b.isLiteral_text

/-! ### Canonical literals -/

/-- The digits of an integer other than zero start with a one. -/
theorem Bits.head?_unmarked_ofInt {v : Int} (h : v ≠ 0) :
    (ofInt v).unmarked.text.toList.head? = some '1' := by
  rw [head?_text_eq_one_iff rfl]
  exact binaryDigits_eq_true_cons (Int.natAbs_ne_zero.mpr h)

/-- **Every integer has a canonical literal**, the text of its bit-string. -/
theorem Bits.isCanonical_ofInt (v : Int) : IsCanonical (ofInt v).text v := by
  have hdigits : IsBinary (ofInt v).unmarked.text := (ofInt v).isBinary_unmarked
  have hvalue : binaryValue (ofInt v).unmarked.text = v.natAbs := by
    rw [binaryValue_unmarked, magnitude_ofInt]
  rw [text_eq, negative_ofInt]
  rcases Int.lt_trichotomy v 0 with hneg | rfl | hpos
  · rw [if_pos (by simpa using hneg)]
    refine .negative hneg hdigits (head?_unmarked_ofInt (by omega)) ?_
    rw [hvalue]
    omega
  · have htext : (ofInt 0).unmarked.text = "0" := (text_eq_zero_iff rfl).mpr binaryDigits_zero
    rw [if_neg (by decide), htext]
    exact .zero
  · rw [if_neg (by simp; omega)]
    refine .positive hpos hdigits (head?_unmarked_ofInt (by omega)) ?_
    rw [hvalue]
    omega

/-- **An integer has one canonical literal.** -/
theorem IsCanonical.unique {s t : String} {v : Int} (hs : IsCanonical s v)
    (ht : IsCanonical t v) : s = t := by
  -- The sign of the integer decides which kind of literal both of them are.
  cases hs with
  | zero =>
    cases ht with
    | zero => rfl
    | positive hv => exact absurd hv (by decide)
    | negative hv => exact absurd hv (by decide)
  | positive hv hs hone hvalue =>
    cases ht with
    | zero => exact absurd hv (by decide)
    | positive _ ht hone' hvalue' =>
      exact IsShortest.unique ⟨hs, .inr hone⟩ ⟨ht, .inr hone'⟩ (by omega)
    | negative hv' => omega
  | negative hv hs hone hvalue =>
    cases ht with
    | zero => exact absurd hv (by decide)
    | positive hv' => omega
    | negative _ ht hone' hvalue' =>
      congr 1
      exact IsShortest.unique ⟨hs, .inr hone⟩ ⟨ht, .inr hone'⟩ (by omega)

end BitMachine
