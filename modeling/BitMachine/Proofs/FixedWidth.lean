import BitMachine.Proofs.LiteralDecoding
import Mathlib.Data.Nat.Size

namespace BitMachine

/-!
# Numbers at a width

A number is written with zeros in front up to a width, and a row of digits is all that is needed to
write its number again:

* `digits_eq_of_digitsValue_eq` — rows of one length with one value are the same;
* `length_binaryDigits_eq_size` — the digits of a number, counted;
* `encodeUnsigned_width` — a bit-string is its number at its own width;
* `encode_decode_inverse` — **encoding and decoding are inverse**, in both directions.
-/

/-! ### Rows of one length -/

/-- **Rows of one length** with one value are the same. The first digits agree since each of them
    counts for more than the rest of a row can. -/
theorem digits_eq_of_digitsValue_eq {ds es : List Bool} (hlen : ds.length = es.length)
    (hvalue : digitsValue ds = digitsValue es) : ds = es := by
  induction ds generalizing es with
  | nil => exact (List.length_eq_zero_iff.mp hlen.symm).symm
  | cons d ds ih =>
    cases es with
    | nil => cases hlen
    | cons e es =>
      have hlen' : ds.length = es.length := Nat.succ.inj hlen
      have hds : digitsValue ds < 2 ^ es.length := hlen' ▸ digitsValue_lt ds
      have hes := digitsValue_lt es
      rw [digitsValue_cons, digitsValue_cons, hlen'] at hvalue
      have hde : d = e := by
        cases d <;> cases e <;> simp at hvalue ⊢ <;> omega
      subst hde
      rw [ih hlen' (by omega)]

/-- **The digits of a number** are its significant bits, and one digit for zero. -/
theorem length_binaryDigits_eq_size (n : Nat) : (binaryDigits n).length = max 1 n.size := by
  by_cases hn : n = 0
  · subst hn
    rw [binaryDigits_zero]
    rfl
  · obtain ⟨rest, hrest⟩ := binaryDigits_eq_true_cons hn
    have hlow : 2 ^ rest.length ≤ n := by
      rw [← digitsValue_binaryDigits n, hrest]
      exact le_digitsValue_true_cons rest
    have hhigh : n < 2 ^ (rest.length + 1) := by
      have hlt := digitsValue_lt (binaryDigits n)
      rwa [digitsValue_binaryDigits, hrest, List.length_cons] at hlt
    have hsize : n.size = rest.length + 1 :=
      Nat.le_antisymm (Nat.size_le.mpr hhigh) (Nat.lt_size.mpr hlow)
    rw [hrest, hsize, List.length_cons]
    omega

/-! ### Encoded numbers -/

theorem width_encodeUnsigned (v : UInt64) (width : Nat) :
    (encodeUnsigned v width).width = max (max width 1) v.toNat.size := by
  show (padDigits width (binaryDigits v.toNat)).length = _
  rw [length_padDigits, length_binaryDigits_eq_size]
  omega

/-- **A bit-string is its number at its own width.** Nothing is cut off and no zero is added. -/
theorem encodeUnsigned_width {b : Bits} {v : UInt64} (hneg : b.negative = false)
    (hv : b.magnitude = v.toNat) : encodeUnsigned v b.width = b := by
  obtain ⟨negative, digits, hne⟩ := b
  cases hneg
  have hpos : 1 ≤ digits.length := List.length_pos_iff.mpr hne
  have hsize : v.toNat.size ≤ digits.length := by
    rw [Nat.size_le, ← hv]
    exact digitsValue_lt digits
  have hlen : (padDigits digits.length (binaryDigits v.toNat)).length = digits.length := by
    rw [length_padDigits, length_binaryDigits_eq_size]
    omega
  have hdigits : padDigits digits.length (binaryDigits v.toNat) = digits := by
    apply digits_eq_of_digitsValue_eq hlen
    rw [digitsValue_padDigits, digitsValue_binaryDigits]
    exact hv.symm
  show (⟨false, padDigits digits.length (binaryDigits v.toNat), _⟩ : Bits) = _
  simp only [hdigits]

theorem length_text_of_unsigned {b : Bits} (h : b.negative = false) : b.text.length = b.width := by
  rw [← String.length_toList, Bits.toList_text_of_unsigned h, List.length_map]
  rfl

/-- **A numeral is its number at its own length.** -/
theorem exists_encodeUnsigned_eq {s : String} (hs : IsBinary s) (hlt : binaryValue s < 2 ^ 64) :
    ∃ v, decodeUnsigned s = .ok v ∧ (encodeUnsigned v s.length).text = s := by
  obtain ⟨b, hneg, rfl⟩ := Bits.exists_text_eq_iff.mpr hs
  have hmagnitude : b.magnitude < 2 ^ 64 := by rwa [← Bits.binaryValue_text hneg]
  refine ⟨UInt64.ofNatLT b.magnitude hmagnitude, ?_, ?_⟩
  · rw [decodeUnsigned_text, Bits.unsigned_of_lt hneg hmagnitude]
  · rw [length_text_of_unsigned hneg, encodeUnsigned_width hneg UInt64.toNat_ofNatLT.symm]

/-- **A number has one numeral of each length**, or none. -/
theorem IsBinary.unique_of_length {s t : String} (hs : IsBinary s) (ht : IsBinary t)
    (hlen : s.length = t.length) (hvalue : binaryValue s = binaryValue t) : s = t := by
  obtain ⟨a, ha, rfl⟩ := Bits.exists_text_eq_iff.mpr hs
  obtain ⟨b, hb, rfl⟩ := Bits.exists_text_eq_iff.mpr ht
  rw [length_text_of_unsigned ha, length_text_of_unsigned hb] at hlen
  rw [Bits.binaryValue_text ha, Bits.binaryValue_text hb] at hvalue
  exact Bits.text_congr ha hb (digits_eq_of_digitsValue_eq hlen hvalue)

/-- **Encoding and decoding are inverse**, in both directions. A number is encoded as a binary
    numeral with the width asked for, at least one digit and no fewer than its significant bits,
    and is decoded again. A binary numeral below 2^64 is what its number is encoded as at its
    length, and no other numeral of that length stands for the number. -/
theorem encode_decode_inverse :
    (∀ (v : UInt64) (width : Nat),
      IsBinary (encodeUnsigned v width).text ∧
        Bits.parse (encodeUnsigned v width).text = .ok (encodeUnsigned v width) ∧
        (encodeUnsigned v width).text.length = max (max width 1) v.toNat.size ∧
        decodeUnsigned (encodeUnsigned v width).text = .ok v) ∧
    (∀ s, IsBinary s → binaryValue s < 2 ^ 64 →
      ∃ v, decodeUnsigned s = .ok v ∧ (encodeUnsigned v s.length).text = s) ∧
    (∀ s t, IsBinary s → IsBinary t → s.length = t.length → binaryValue s = binaryValue t →
      s = t) := by
  refine ⟨fun v width => ?_, fun s hs hlt => exists_encodeUnsigned_eq hs hlt,
    fun s t hs ht hlen hvalue => hs.unique_of_length ht hlen hvalue⟩
  have hneg := negative_encodeUnsigned v width
  refine ⟨Bits.isBinary_text hneg, Bits.parse_text _, ?_, ?_⟩
  · rw [length_text_of_unsigned hneg, width_encodeUnsigned]
  · rw [decodeUnsigned_text, unsigned_encodeUnsigned]

/-- Five, with two zeros in front: the zeros come back at the length of the numeral, and no other
    numeral of that length stands for five. -/
theorem encode_decode_inverse_zeros :
    IsBinary "00101" ∧ binaryValue "00101" < 2 ^ 64 ∧
      (∃ v, decodeUnsigned "00101" = .ok v ∧ (encodeUnsigned v 5).text = "00101") ∧
      (encodeUnsigned 5 5).text = "00101" := by
  have hfive : decodeUnsigned "00101" = .ok 5 := by decide +kernel
  obtain ⟨hbinary, hlt, -⟩ := decodeUnsigned_eq_ok_iff.mp hfive
  obtain ⟨hencode, hdecode, hunique⟩ := encode_decode_inverse
  obtain ⟨hencoded, -, hlen, -⟩ := hencode 5 5
  have hvalue : binaryValue (encodeUnsigned 5 5).text = 5 := by
    rw [Bits.binaryValue_text rfl, magnitude_encodeUnsigned]
    rfl
  refine ⟨hbinary, hlt, hdecode _ hbinary hlt, hunique _ _ hencoded hbinary ?_ hvalue⟩
  rw [hlen]
  decide

end BitMachine
