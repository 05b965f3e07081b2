import BitMachine.Proofs.BinaryNumerals
import BitMachine.Proofs.Ripple

namespace BitMachine

/-!
# Sums of literals

The sum of two texts is exact at every length, and so is what is said about texts that cannot be
added:

* `operands_eq_ok_iff`, `operands_eq_error_iff` — an operation on two literals reads the left one,
  then the right one;
* `Bits.add_of_unsigned` — bit-strings without sign marks have their exact sum;
* `addLiterals_exact` — **the sum of two literals**.
-/

/-! ### Operands -/

section Operands

variable {f : Bits → Bits → Except LiteralError Bits} {a b : String}

/-- **An operation on numbers.** An operation that computes its result from the numbers of
    bit-strings without sign marks succeeds exactly on binary numerals, and computes it from their
    numbers. -/
theorem operands_eq_ok_iff {g : Nat → Nat → Bits}
    (hf : ∀ x y : Bits, x.negative = false → y.negative = false →
      f x y = .ok (g x.magnitude y.magnitude)) {r : Bits} :
    (do let x ← Bits.parseUnsigned a
        let y ← Bits.parseUnsigned b
        f x y) = .ok r ↔
      IsBinary a ∧ IsBinary b ∧ r = g (binaryValue a) (binaryValue b) := by
  simp only [bind_eq_ok, Bits.parseUnsigned_eq_ok_iff]
  constructor
  · rintro ⟨x, ⟨hx, rfl⟩, y, ⟨hy, rfl⟩, hr⟩
    rw [hf x y hx hy] at hr
    cases hr
    refine ⟨Bits.isBinary_text hx, Bits.isBinary_text hy, ?_⟩
    rw [Bits.binaryValue_text hx, Bits.binaryValue_text hy]
  · rintro ⟨ha, hb, rfl⟩
    obtain ⟨x, hx, rfl⟩ := Bits.exists_text_eq_iff.mpr ha
    obtain ⟨y, hy, rfl⟩ := Bits.exists_text_eq_iff.mpr hb
    refine ⟨x, ⟨hx, rfl⟩, y, ⟨hy, rfl⟩, ?_⟩
    rw [hf x y hx hy, Bits.binaryValue_text hx, Bits.binaryValue_text hy]

/-- **The left operand is read first.** An operation that takes all bit-strings without sign marks
    fails for what is wrong with the left literal, or else for what is wrong with the right one. -/
theorem operands_eq_error_iff {e : LiteralError}
    (hf : ∀ x y : Bits, x.negative = false → y.negative = false → ∃ r, f x y = .ok r) :
    (do let x ← Bits.parseUnsigned a
        let y ← Bits.parseUnsigned b
        f x y) = .error e ↔
      Malformed a e ∨ (IsBinary a ∧ Malformed b e) := by
  rw [bind_eq_error, Bits.parseUnsigned_eq_error_iff, ← Bits.exists_parseUnsigned_iff]
  constructor
  · rintro (ha | ⟨x, hx, hrest⟩)
    · exact .inl ha
    · rcases bind_eq_error.mp hrest with hb | ⟨y, hy, he⟩
      · exact .inr ⟨⟨x, hx⟩, Bits.parseUnsigned_eq_error_iff.mp hb⟩
      · -- Both literals have been read, and then the operation does not fail.
        obtain ⟨r, hr⟩ := hf x y (Bits.parseUnsigned_eq_ok_iff.mp hx).1
          (Bits.parseUnsigned_eq_ok_iff.mp hy).1
        cases he.symm.trans hr
  · rintro (ha | ⟨⟨x, hx⟩, hb⟩)
    · exact .inl ha
    · exact .inr ⟨x, hx, bind_eq_error.mpr (.inl (Bits.parseUnsigned_eq_error_iff.mpr hb))⟩

end Operands

/-! ### Sums -/

theorem Bits.add_of_unsigned {a b : Bits} (ha : a.negative = false) (hb : b.negative = false) :
    a.add b = .ok (ofNat (a.magnitude + b.magnitude)) := by
  unfold add unsignedDigits
  rw [ha, hb]
  show Except.ok (sumOf a.digits b.digits) = _
  rw [sumOf_eq_ofInt, ofNat_eq_ofInt]
  rfl

/-- **Which literals have a sum**, and which bit-string it is. -/
theorem addLiterals_eq_ok_iff {a b : String} {r : Bits} :
    addLiterals a b = .ok r ↔
      IsBinary a ∧ IsBinary b ∧ r = Bits.ofNat (binaryValue a + binaryValue b) :=
  operands_eq_ok_iff (g := fun m n => Bits.ofNat (m + n)) fun _ _ => Bits.add_of_unsigned

theorem addLiterals_eq_error_iff {a b : String} {e : LiteralError} :
    addLiterals a b = .error e ↔ Malformed a e ∨ (IsBinary a ∧ Malformed b e) :=
  operands_eq_error_iff fun _ _ hx hy => ⟨_, Bits.add_of_unsigned hx hy⟩

/-- **The sum of two literals** is exact at every length. Two texts have a sum exactly if both are
    binary numerals, whatever zeros stand in front of them. The text of the sum is then the one
    numeral without zeros in front that stands for the sum of their numbers, and it is read back as
    the sum. Otherwise the error says what is wrong with the left text, or else with the right
    one. -/
theorem addLiterals_exact (a b : String) :
    ((∃ r, addLiterals a b = .ok r) ↔ IsBinary a ∧ IsBinary b) ∧
      (∀ r, addLiterals a b = .ok r →
        IsShortest r.text ∧ binaryValue r.text = binaryValue a + binaryValue b ∧
          (∀ s, IsShortest s → binaryValue s = binaryValue a + binaryValue b → s = r.text) ∧
          Bits.parse r.text = .ok r) ∧
      (∀ e, addLiterals a b = .error e ↔ Malformed a e ∨ (IsBinary a ∧ Malformed b e)) := by
  refine ⟨?_, ?_, fun e => addLiterals_eq_error_iff⟩
  · simp only [addLiterals_eq_ok_iff]
    constructor
    · rintro ⟨r, ha, hb, -⟩
      exact ⟨ha, hb⟩
    · rintro ⟨ha, hb⟩
      exact ⟨_, ha, hb, rfl⟩
  · intro r hr
    obtain ⟨-, -, rfl⟩ := addLiterals_eq_ok_iff.mp hr
    refine ⟨Bits.isShortest_ofNat _, Bits.binaryValue_ofNat _, ?_, Bits.parse_text _⟩
    intro s hs hvalue
    apply hs.unique (Bits.isShortest_ofNat _)
    rw [hvalue, Bits.binaryValue_ofNat]

/-- Three, with a zero in front, and one: the carry runs through to a third digit. -/
theorem addLiterals_exact_carry :
    ∃ r, addLiterals "011" "1" = .ok r ∧ r.text = "100" ∧ IsShortest r.text ∧
      binaryValue r.text = 4 := by
  have hsum : addLiterals "011" "1" = .ok ⟨false, [true, false, false], List.cons_ne_nil _ _⟩ := by
    decide +kernel
  obtain ⟨-, hok, -⟩ := addLiterals_exact "011" "1"
  obtain ⟨hshortest, hvalue, -, -⟩ := hok _ hsum
  exact ⟨_, hsum, rfl, hshortest, hvalue⟩

end BitMachine
