import BitMachine.Proofs.DigitValue

namespace BitMachine

/-!
# Addition and subtraction of digit rows

The digit loops compute sums and differences of the numbers that their operands stand for:

* `lowValue_rippleAdd`, `lowValue_rippleSub` — the two loops over columns, with the carry or the
  borrow that runs through them;
* `isSmaller_iff` — the comparison of rows is the comparison of their values;
* `Bits.sumOf_eq_ofInt`, `Bits.differenceOf_eq_ofInt` — the exact results at every length,
  without zeros in front and without a sign mark at zero.
-/

/-! ### Rows with the least significant digit first -/

/-- The number that a row of digits stands for, least significant digit first. -/
def lowValue : List Bool → Nat
  | [] => 0
  | d :: ds => d.toNat + 2 * lowValue ds

theorem digitsValue_reverse (ds : List Bool) : digitsValue ds.reverse = lowValue ds := by
  induction ds with
  | nil => rfl
  | cons d ds ih =>
    rw [List.reverse_cons, digitsValue_concat, ih, lowValue, Nat.add_comm]

theorem lowValue_reverse (ds : List Bool) : lowValue ds.reverse = digitsValue ds := by
  rw [← digitsValue_reverse, List.reverse_reverse]

theorem lowValue_lt (ds : List Bool) : lowValue ds < 2 ^ ds.length := by
  rw [← digitsValue_reverse, ← List.length_reverse]
  exact digitsValue_lt ds.reverse

/-! ### The two digit loops -/

/-- **Sum of columns.** The digits that the adder writes stand for the sum of both rows and the
    carry into them. The carry runs through the induction. -/
theorem lowValue_rippleAdd (carry : Bool) (cols : List (Bool × Bool)) :
    lowValue (rippleAdd carry cols)
      = carry.toNat + lowValue (cols.map Prod.fst) + lowValue (cols.map Prod.snd) := by
  induction cols generalizing carry with
  | nil => cases carry <;> rfl
  | cons col rest ih =>
    obtain ⟨x, y⟩ := col
    simp only [rippleAdd, lowValue, List.map_cons, ih]
    -- What is left is the table of a full adder.
    cases x <;> cases y <;> cases carry <;>
      simp only [Bool.toNat_false, Bool.toNat_true, Bool.xor_false, Bool.xor_true, Bool.not_true,
        Bool.not_false, Bool.and_true, Bool.and_false, Bool.or_false, Bool.or_true] <;> omega

theorem length_rippleSub (borrow : Bool) (cols : List (Bool × Bool)) :
    (rippleSub borrow cols).1.length = cols.length := by
  induction cols generalizing borrow with
  | nil => rfl
  | cons col rest ih =>
    obtain ⟨x, y⟩ := col
    simp [rippleSub, ih]

/-- **Difference of columns.** What is subtracted and the digits that are written add up to the
    upper row and the borrow that is left over, which counts in units of the next place. -/
theorem lowValue_rippleSub (borrow : Bool) (cols : List (Bool × Bool)) :
    lowValue (rippleSub borrow cols).1 + lowValue (cols.map Prod.snd) + borrow.toNat
      = lowValue (cols.map Prod.fst) + (rippleSub borrow cols).2.toNat * 2 ^ cols.length := by
  induction cols generalizing borrow with
  | nil => cases borrow <;> rfl
  | cons col rest ih =>
    obtain ⟨x, y⟩ := col
    -- The borrow out of this column goes into the rest.
    have hrest := ih (!x && (y || borrow) || y && borrow)
    simp only [rippleSub, lowValue, List.map_cons, List.length_cons, pow_succ, ← Nat.mul_assoc]
    cases x <;> cases y <;> cases borrow <;>
      simp only [Bool.toNat_false, Bool.toNat_true, Bool.xor_false, Bool.xor_true, Bool.not_true,
        Bool.not_false, Bool.and_true, Bool.and_false, Bool.or_false, Bool.or_true] at hrest ⊢ <;>
      omega

/-- When the upper row is the larger one no borrow is left over, and the digits that are written
    stand for the difference. -/
theorem lowValue_rippleSub_of_le {cols : List (Bool × Bool)}
    (h : lowValue (cols.map Prod.snd) ≤ lowValue (cols.map Prod.fst)) :
    (rippleSub false cols).2 = false ∧
      lowValue (rippleSub false cols).1
        = lowValue (cols.map Prod.fst) - lowValue (cols.map Prod.snd) := by
  have hsum := lowValue_rippleSub false cols
  have hlt := lowValue_lt (rippleSub false cols).1
  rw [length_rippleSub] at hlt
  cases hout : (rippleSub false cols).2
  · simp only [hout, Bool.toNat_false, Nat.zero_mul, Nat.add_zero] at hsum
    exact ⟨rfl, by omega⟩
  · -- A borrow left over would take the digits past their row.
    simp only [hout, Bool.toNat_true, Bool.toNat_false, Nat.one_mul, Nat.add_zero] at hsum
    omega

/-! ### Columns -/

theorem map_fst_columns (a b : List Bool) :
    (columns a b).map Prod.fst = (padDigits (max a.length b.length) a).reverse := by
  -- Both rows are padded to one width, so the zip cuts nothing off.
  unfold columns
  refine List.map_fst_zip ?_
  simp only [List.length_reverse, length_padDigits]
  omega

theorem map_snd_columns (a b : List Bool) :
    (columns a b).map Prod.snd = (padDigits (max a.length b.length) b).reverse := by
  unfold columns
  refine List.map_snd_zip ?_
  simp only [List.length_reverse, length_padDigits]
  omega

theorem lowValue_fst_columns (a b : List Bool) :
    lowValue ((columns a b).map Prod.fst) = digitsValue a := by
  rw [map_fst_columns, lowValue_reverse, digitsValue_padDigits]

theorem lowValue_snd_columns (a b : List Bool) :
    lowValue ((columns a b).map Prod.snd) = digitsValue b := by
  rw [map_snd_columns, lowValue_reverse, digitsValue_padDigits]

/-! ### Comparison -/

/-- Among rows of one length the lexicographic order is the order of the values. -/
theorem precedes_iff {a b : List Bool} (h : a.length = b.length) :
    precedes a b = true ↔ digitsValue a < digitsValue b := by
  induction a generalizing b with
  | nil =>
    obtain rfl := List.length_eq_zero_iff.mp h.symm
    simp [precedes]
  | cons x xs ih =>
    cases b with
    | nil => cases h
    | cons y ys =>
      have hlen : xs.length = ys.length := Nat.succ.inj h
      have hx : digitsValue xs < 2 ^ ys.length := hlen ▸ digitsValue_lt xs
      have hy := digitsValue_lt ys
      rw [digitsValue_cons, digitsValue_cons, hlen]
      cases x <;> cases y <;> simp [precedes, ih hlen] <;> omega

/-- A row without zeros in front is at least the place of its first digit. -/
theorem le_digitsValue_stripZeros {ds : List Bool} (h : stripZeros ds ≠ []) :
    2 ^ ((stripZeros ds).length - 1) ≤ digitsValue ds := by
  rcases stripZeros_eq_nil_or_cons ds with hnil | ⟨rest, hcons⟩
  · exact absurd hnil h
  · rw [← digitsValue_stripZeros ds, hcons]
    simpa using le_digitsValue_true_cons rest

/-- A row with fewer significant digits has the smaller value. -/
theorem digitsValue_lt_of_length_lt {a b : List Bool}
    (h : (stripZeros a).length < (stripZeros b).length) : digitsValue a < digitsValue b := by
  have hb : stripZeros b ≠ [] := fun hnil => by simp [hnil] at h
  calc digitsValue a
      = digitsValue (stripZeros a) := (digitsValue_stripZeros a).symm
    _ < 2 ^ (stripZeros a).length := digitsValue_lt _
    _ ≤ 2 ^ ((stripZeros b).length - 1) := Nat.pow_le_pow_right (by decide) (by omega)
    _ ≤ digitsValue b := le_digitsValue_stripZeros hb

/-- **Comparison of rows.** The row that is found to be smaller is the one of the smaller
    value. -/
theorem isSmaller_iff (a b : List Bool) :
    isSmaller a b = true ↔ digitsValue a < digitsValue b := by
  unfold isSmaller
  -- The number of significant digits decides, unless it is the same.
  rcases Nat.lt_trichotomy (stripZeros a).length (stripZeros b).length with h | h | h
  · have hv := digitsValue_lt_of_length_lt h
    have hne : ¬ (stripZeros a).length = (stripZeros b).length := by omega
    simp [hne, h, hv]
  · have hp := precedes_iff h
    simp only [digitsValue_stripZeros] at hp
    simp [h, hp]
  · have hv := digitsValue_lt_of_length_lt h
    have hne : ¬ (stripZeros a).length = (stripZeros b).length := by omega
    simp [hne]
    omega

/-! ### Sums and differences of bit-strings -/

namespace Bits

/-- **Exact sum**, at every length of the operands. -/
theorem sumOf_eq_ofInt (a b : List Bool) :
    sumOf a b = ofInt ((digitsValue a : Int) + digitsValue b) := by
  rw [sumOf, canonical_eq_ofInt, digitsValue_reverse, lowValue_rippleAdd, lowValue_fst_columns,
    lowValue_snd_columns]
  simp

/-- The digits of the larger row less the smaller one. -/
theorem lowValue_sub_columns {a b : List Bool} (h : digitsValue b ≤ digitsValue a) :
    lowValue (rippleSub false (columns a b)).1 = digitsValue a - digitsValue b := by
  have hle : lowValue ((columns a b).map Prod.snd) ≤ lowValue ((columns a b).map Prod.fst) := by
    rw [lowValue_snd_columns, lowValue_fst_columns]
    exact h
  rw [(lowValue_rippleSub_of_le hle).2, lowValue_snd_columns, lowValue_fst_columns]

/-- **Exact difference**, at every length of the operands. -/
theorem differenceOf_eq_ofInt (a b : List Bool) :
    differenceOf a b = ofInt ((digitsValue a : Int) - digitsValue b) := by
  unfold differenceOf
  by_cases h : digitsValue a < digitsValue b
  · -- The rows are exchanged, and the sign mark is set.
    rw [if_pos ((isSmaller_iff a b).mpr h), canonical_eq_ofInt, digitsValue_reverse,
      lowValue_sub_columns (Nat.le_of_lt h), if_pos rfl]
    congr 1
    omega
  · rw [if_neg (fun hs => h ((isSmaller_iff a b).mp hs)), canonical_eq_ofInt,
      digitsValue_reverse, lowValue_sub_columns (by omega), if_neg Bool.false_ne_true]
    congr 1
    omega

end Bits

end BitMachine
