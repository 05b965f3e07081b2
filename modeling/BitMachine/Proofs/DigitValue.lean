import BitMachine.Bits.Arithmetic
import Mathlib.Data.List.Induction
import Mathlib.Tactic.Ring

namespace BitMachine

/-!
# Values of digit rows

A row of digits and a bit-string stand for a number, whatever zeros stand in front:

* `digitsValue_append` — the value of a row read from the front, and `digitsValue_lt`, its bound;
* `stripZeros_eq_significant` — a number has one row without zeros in front, hence
  `stripZeros_congr`: rows of one value differ in these zeros only;
* `Bits.value` — the signed value of a bit-string, without any bound, and `Bits.IsProper` — no
  sign mark in front of a zero;
* `Bits.ofInt` — the one bit-string of an integer without zeros in front, and
  `Bits.canonical_eq_ofInt`;
* `Bits.unsigned_eq_ok_iff`, `Bits.signed_of_fits`, `Bits.signed_of_not_fits` — the 64-bit
  readings in terms of the value.
-/

/-! ### Rows of digits -/

@[simp] theorem digitsValue_nil : digitsValue [] = 0 := rfl

/-- A digit at the end doubles what stands before it. -/
theorem digitsValue_concat (ds : List Bool) (d : Bool) :
    digitsValue (ds ++ [d]) = 2 * digitsValue ds + d.toNat := by
  simp [digitsValue]

/-- **Value of a row in two parts.** The front part counts in units of the place that the rear
    part ends at. -/
theorem digitsValue_append (ds es : List Bool) :
    digitsValue (ds ++ es) = digitsValue ds * 2 ^ es.length + digitsValue es := by
  induction es using List.reverseRecOn with
  | nil => simp
  | append_singleton es e ih =>
    rw [← List.append_assoc, digitsValue_concat, digitsValue_concat, ih, List.length_append,
      List.length_singleton, pow_succ]
    ring

theorem digitsValue_cons (d : Bool) (ds : List Bool) :
    digitsValue (d :: ds) = d.toNat * 2 ^ ds.length + digitsValue ds := by
  have h := digitsValue_append [d] ds
  rw [List.singleton_append] at h
  rw [h]
  simp [digitsValue]

/-- A row of `n` digits stands for a number below `2 ^ n`. -/
theorem digitsValue_lt (ds : List Bool) : digitsValue ds < 2 ^ ds.length := by
  induction ds with
  | nil => simp
  | cons d ds ih =>
    rw [digitsValue_cons, List.length_cons, pow_succ]
    cases d <;> simp only [Bool.toNat_false, Bool.toNat_true] <;> omega

@[simp] theorem digitsValue_false_cons (ds : List Bool) :
    digitsValue (false :: ds) = digitsValue ds := by
  simp [digitsValue_cons]

/-- A one in front makes the value at least the place of that one. -/
theorem le_digitsValue_true_cons (ds : List Bool) :
    2 ^ ds.length ≤ digitsValue (true :: ds) := by
  simp [digitsValue_cons]

/-! ### Zeros in front -/

@[simp] theorem stripZeros_nil : stripZeros [] = [] := rfl

@[simp] theorem stripZeros_false_cons (ds : List Bool) :
    stripZeros (false :: ds) = stripZeros ds := by
  simp [stripZeros]

@[simp] theorem stripZeros_true_cons (ds : List Bool) :
    stripZeros (true :: ds) = true :: ds := by
  simp [stripZeros]

@[simp] theorem digitsValue_stripZeros (ds : List Bool) :
    digitsValue (stripZeros ds) = digitsValue ds := by
  induction ds with
  | nil => rfl
  | cons d ds ih => cases d <;> simp [ih]

@[simp] theorem digitsValue_padDigits (width : Nat) (ds : List Bool) :
    digitsValue (padDigits width ds) = digitsValue ds := by
  unfold padDigits
  induction width - ds.length with
  | zero => simp
  | succ n ih => simpa [List.replicate_succ] using ih

theorem length_padDigits (width : Nat) (ds : List Bool) :
    (padDigits width ds).length = max width ds.length := by
  simp only [padDigits, List.length_append, List.length_replicate]
  omega

/-- A row is its significant part or starts with a one once the zeros in front are gone. -/
theorem stripZeros_eq_nil_or_cons (ds : List Bool) :
    stripZeros ds = [] ∨ ∃ rest, stripZeros ds = true :: rest := by
  induction ds with
  | nil => exact .inl rfl
  | cons d ds ih =>
    cases d
    · simpa using ih
    · exact .inr ⟨ds, by simp⟩

/-- The digits of a number without any zero in front; zero has none. -/
def significantDigits (n : Nat) : List Bool :=
  if n = 0 then [] else binaryDigits n

/-- The last digit of a number split off. -/
theorem significantDigits_concat (n : Nat) (d : Bool) (h : 2 * n + d.toNat ≠ 0) :
    significantDigits (2 * n + d.toNat) = significantDigits n ++ [d] := by
  have hd : d.toNat ≤ 1 := Bool.toNat_le d
  rw [significantDigits, if_neg h, binaryDigits]
  split
  · have hn : n = 0 := by omega
    subst hn
    cases d
    · simp at h
    · rfl
  · have hn : n ≠ 0 := by omega
    have hhalf : (2 * n + d.toNat) / 2 = n := by omega
    have hlast : (2 * n + d.toNat) % 2 = d.toNat := by omega
    rw [significantDigits, if_neg hn, hhalf, hlast]
    cases d <;> rfl

/-- Stripping a row from which a digit is split off. -/
theorem stripZeros_concat (ds : List Bool) (d : Bool) :
    stripZeros (ds ++ [d]) = if stripZeros ds = [] then stripZeros [d] else stripZeros ds ++ [d] := by
  induction ds with
  | nil => simp
  | cons e ds ih => cases e <;> simp [ih]

theorem stripZeros_eq_nil_iff (ds : List Bool) : stripZeros ds = [] ↔ digitsValue ds = 0 := by
  rw [← digitsValue_stripZeros]
  rcases stripZeros_eq_nil_or_cons ds with h | ⟨rest, h⟩
  · simp [h]
  · have hle := le_digitsValue_true_cons rest
    have hpos : 0 < 2 ^ rest.length := Nat.two_pow_pos _
    rw [h]
    simp
    omega

/-- **One row per number.** What is left of a row after its zeros in front is decided by its
    value. The induction splits off the last digit, as `binaryDigits` does. -/
theorem stripZeros_eq_significant (ds : List Bool) :
    stripZeros ds = significantDigits (digitsValue ds) := by
  induction ds using List.reverseRecOn with
  | nil => rfl
  | append_singleton ds d ih =>
    rw [digitsValue_concat, stripZeros_concat]
    by_cases hz : 2 * digitsValue ds + d.toNat = 0
    · -- Nothing is left of a row of zeros.
      have hv : digitsValue ds = 0 := by omega
      have hd : d = false := by cases d <;> simp_all
      rw [if_pos ((stripZeros_eq_nil_iff ds).mpr hv), hz, hd]
      rfl
    · rw [significantDigits_concat _ _ hz, ← ih]
      split
      next hnil =>
        -- The last digit is the only one that counts, and it is a one.
        have hv : digitsValue ds = 0 := (stripZeros_eq_nil_iff ds).mp hnil
        have hd : d = true := by cases d <;> simp_all
        rw [hnil, hd]
        rfl
      next => rfl

/-- Rows of one value differ in the zeros in front only. -/
theorem stripZeros_congr {ds es : List Bool} (h : digitsValue ds = digitsValue es) :
    stripZeros ds = stripZeros es := by
  rw [stripZeros_eq_significant, stripZeros_eq_significant, h]

/-- The digits of a number stand for that number. -/
@[simp] theorem digitsValue_binaryDigits (n : Nat) : digitsValue (binaryDigits n) = n := by
  induction n using binaryDigits.induct with
  | case1 n h =>
    rw [binaryDigits, if_pos h]
    obtain rfl | rfl : n = 0 ∨ n = 1 := by omega
    · rfl
    · rfl
  | case2 n h ih =>
    rw [binaryDigits, if_neg h, digitsValue_concat, ih]
    rcases Nat.mod_two_eq_zero_or_one n with hm | hm <;> simp [hm] <;> omega

theorem binaryDigits_zero : binaryDigits 0 = [false] := by
  rw [binaryDigits]
  rfl

/-- The digits of a number other than zero start with a one. -/
theorem binaryDigits_eq_true_cons {n : Nat} (h : n ≠ 0) :
    ∃ rest, binaryDigits n = true :: rest := by
  have hs := stripZeros_eq_significant (binaryDigits n)
  rw [digitsValue_binaryDigits, significantDigits, if_neg h] at hs
  rcases stripZeros_eq_nil_or_cons (binaryDigits n) with hnil | ⟨rest, hcons⟩
  · exact absurd (hs.symm.trans hnil) (binaryDigits_ne_nil n)
  · exact ⟨rest, hs.symm.trans hcons⟩

/-- A row that starts with a one is the row of its number. -/
theorem binaryDigits_digitsValue_true_cons (rest : List Bool) :
    binaryDigits (digitsValue (true :: rest)) = true :: rest := by
  have hs := stripZeros_eq_significant (true :: rest)
  have hle := le_digitsValue_true_cons rest
  have hpos : 0 < 2 ^ rest.length := Nat.two_pow_pos _
  rw [stripZeros_true_cons, significantDigits, if_neg (by omega)] at hs
  exact hs.symm

/-! ### Bit-strings -/

namespace Bits

/-- The signed number that a bit-string stands for, of any size. -/
def value (b : Bits) : Int :=
  if b.negative then -(b.magnitude : Int) else b.magnitude

/-- A sign mark stands in front of a number other than zero only. -/
def IsProper (b : Bits) : Prop :=
  b.negative = true → b.magnitude ≠ 0

theorem value_of_unsigned {b : Bits} (h : b.negative = false) : b.value = b.magnitude := by
  simp [value, h]

/-- In a proper bit-string the sign mark says that the value is negative. -/
theorem negative_iff_value_neg {b : Bits} (h : b.IsProper) : b.negative = true ↔ b.value < 0 := by
  unfold value
  cases hn : b.negative
  · simp
  · have := h hn
    simp
    omega

/-- The bit-string of an integer without zeros in front, the sign mark before a negative one. -/
def ofInt (v : Int) : Bits :=
  ⟨decide (v < 0), binaryDigits v.natAbs, binaryDigits_ne_nil _⟩

@[simp] theorem magnitude_ofInt (v : Int) : (ofInt v).magnitude = v.natAbs := by
  simp [ofInt, magnitude]

@[simp] theorem negative_ofInt (v : Int) : (ofInt v).negative = decide (v < 0) := rfl

@[simp] theorem value_ofInt (v : Int) : (ofInt v).value = v := by
  rw [value, negative_ofInt, magnitude_ofInt]
  by_cases h : v < 0
  · rw [if_pos (decide_eq_true h)]
    omega
  · rw [if_neg (by simpa using h)]
    omega

theorem isProper_ofInt (v : Int) : (ofInt v).IsProper := by
  intro hn
  rw [negative_ofInt, decide_eq_true_eq] at hn
  rw [magnitude_ofInt]
  omega

/-- A natural number has no sign mark. -/
theorem ofNat_eq_ofInt (n : Nat) : ofNat n = ofInt n := by
  have h : ¬ (n : Int) < 0 := by omega
  simp [ofNat, ofInt, h]

/-- **Canonical digits.** Digits and a sign mark make the one bit-string of their value without
    zeros in front; the sign mark is dropped from zero. -/
theorem canonical_eq_ofInt (negative : Bool) (ds : List Bool) :
    canonical negative ds
      = ofInt (if negative then -(digitsValue ds : Int) else digitsValue ds) := by
  have hs := stripZeros_eq_significant ds
  by_cases hz : digitsValue ds = 0
  · -- Zero is the digit zero, with whatever sign mark it was asked for.
    have hnil := (stripZeros_eq_nil_iff ds).mpr hz
    simp only [canonical, hnil, hz]
    cases negative <;> rfl
  · rw [significantDigits, if_neg hz] at hs
    unfold canonical
    split
    next hnil => exact absurd ((stripZeros_eq_nil_iff ds).mp hnil) hz
    next d rest hcons =>
      rw [hcons] at hs
      cases negative
      · have hpos : ¬ (digitsValue ds : Int) < 0 := by omega
        simp [ofInt, hs, hpos]
      · have hpos : 0 < digitsValue ds := by omega
        simp [ofInt, hs, hpos]

theorem isProper_of_unsigned {b : Bits} (h : b.negative = false) : b.IsProper := by
  simp [IsProper, h]

/-! ### The 64-bit readings -/

theorem unsigned_of_lt {b : Bits} (hn : b.negative = false) (hlt : b.magnitude < UInt64.size) :
    b.unsigned = .ok (UInt64.ofNatLT b.magnitude hlt) := by
  simp [unsigned, hn, hlt]

/-- The reading without a sign succeeds on the unmarked bit-strings below 2^64. -/
theorem unsigned_eq_ok_iff {b : Bits} {v : UInt64} :
    b.unsigned = .ok v ↔ b.negative = false ∧ b.magnitude = v.toNat := by
  constructor
  · intro h
    unfold unsigned at h
    split at h
    · cases h
    split at h
    next hn hlt =>
      cases h
      exact ⟨by simpa using hn, by simp⟩
    next => cases h
  · rintro ⟨hn, hv⟩
    have hlt : b.magnitude < UInt64.size := hv ▸ v.toNat_lt
    rw [unsigned_of_lt hn hlt]
    congr 1
    apply UInt64.toNat_inj.mp
    simpa using hv

/-- Whether a number fits in 64 bits with a sign. -/
def FitsSigned (v : Int) : Prop :=
  -(signedLimit : Int) ≤ v ∧ v < signedLimit

instance (v : Int) : Decidable (FitsSigned v) :=
  inferInstanceAs (Decidable (_ ∧ _))

theorem signed_of_fits {b : Bits} (h : FitsSigned b.value) : b.signed = .ok b.value := by
  unfold FitsSigned value at *
  unfold signed signedValue
  have hsize : signedLimit < UInt64.size := by decide
  cases hn : b.negative <;> simp only [hn, if_true, if_false, Bool.false_eq_true] at h ⊢
  · rw [if_pos (by omega), if_pos (by omega)]
  · rw [if_pos (by omega), if_pos (by omega)]

/-- Outside the signed 64-bit range the reading fails; a magnitude that does not even fit
    without a sign is quoted without the mark. -/
theorem signed_of_not_fits {b : Bits} (h : ¬ FitsSigned b.value) :
    b.signed = .error
      (.overflow (if b.magnitude < UInt64.size then b.text else b.digitText)) := by
  unfold FitsSigned value at h
  unfold signed signedValue
  have hlimit : 0 < signedLimit := by decide
  cases hn : b.negative <;> simp only [hn, if_true, if_false, Bool.false_eq_true] at h ⊢
  · split
    · rw [if_neg (by omega)]
    · rfl
  · split
    · rw [if_neg (by omega)]
    · rfl

end Bits

@[simp] theorem magnitude_encodeUnsigned (v : UInt64) (width : Nat) :
    (encodeUnsigned v width).magnitude = v.toNat := by
  simp [encodeUnsigned, Bits.magnitude]

@[simp] theorem negative_encodeUnsigned (v : UInt64) (width : Nat) :
    (encodeUnsigned v width).negative = false := rfl

/-- **Padding is read over.** An encoded number is read back, whatever its width. -/
@[simp] theorem unsigned_encodeUnsigned (v : UInt64) (width : Nat) :
    (encodeUnsigned v width).unsigned = .ok v := by
  rw [Bits.unsigned_eq_ok_iff]
  exact ⟨negative_encodeUnsigned v width, magnitude_encodeUnsigned v width⟩

end BitMachine
