import BitMachine.Proofs.IntegerLiterals
import BitMachine.Proofs.LiteralArithmetic

namespace BitMachine

/-!
# Differences of literals

The difference of two texts is exact at every length, with a sign mark where it is negative. The
loop over digits is compared with the one that subtracts in integers, column by column:

* `borrowColumns` — subtraction of columns in integers, which may borrow two from the next column;
* `borrowColumns_eq` — its digits and its borrows are zeros and ones, those of `rippleSub`;
* `Subtracts` — a subtraction of the smaller number from the larger one that leaves no borrow;
* `subLiterals_exact` — **the difference of two literals**.
-/

/-! ### Subtraction in integers -/

/-- One column of a subtraction: the upper digit less the lower one and the borrow. A digit below
    zero borrows two from the next column. -/
def borrowColumn (borrow x y : Int) : Int × Int :=
  let d := x - (y + borrow)
  if d < 0 then (d + 2, 1) else (d, 0)

/-- The digits of a subtraction of columns, least significant first, given the borrow into them,
    and the borrow that is left over. -/
def borrowColumns (borrow : Int) : List (Int × Int) → List Int × Int
  | [] => ([], borrow)
  | (x, y) :: rest =>
    let (d, next) := borrowColumn borrow x y
    let (ds, out) := borrowColumns next rest
    (d :: ds, out)

/-- The numbers of the digits in a column. -/
def columnNumbers (column : Bool × Bool) : Int × Int :=
  (column.1.toInt, column.2.toInt)

/-- A column of binary digits has a binary digit as its difference, and borrows one or nothing. -/
theorem borrowColumn_eq (borrow x y : Bool) :
    borrowColumn borrow.toInt x.toInt y.toInt
      = ((x ^^ y ^^ borrow).toInt, (!x && (y || borrow) || y && borrow).toInt) := by
  cases x <;> cases y <;> cases borrow <;> rfl

/-- **Subtraction in integers** writes the digits of the digit loop and leaves its borrow. -/
theorem borrowColumns_eq (borrow : Bool) (cols : List (Bool × Bool)) :
    borrowColumns borrow.toInt (cols.map columnNumbers)
      = ((rippleSub borrow cols).1.map Bool.toInt, (rippleSub borrow cols).2.toInt) := by
  induction cols generalizing borrow with
  | nil => rfl
  | cons col rest ih =>
    obtain ⟨x, y⟩ := col
    simp only [List.map_cons, columnNumbers, borrowColumns, borrowColumn_eq, ih, rippleSub]

theorem toInt_eq_zero_or_one (d : Bool) : d.toInt = 0 ∨ d.toInt = 1 := by
  cases d <;> simp

/-! ### The columns of a difference -/

/-- The columns that a difference is computed on: the digits of the larger number, over those of
    the smaller one. -/
def differenceColumns (a b : List Bool) : List (Bool × Bool) :=
  if isSmaller a b then columns b a else columns a b

/-- The larger number is the upper one. -/
theorem lowValue_differenceColumns (a b : List Bool) :
    lowValue ((differenceColumns a b).map Prod.snd)
      ≤ lowValue ((differenceColumns a b).map Prod.fst) := by
  unfold differenceColumns
  split
  next h =>
    rw [lowValue_fst_columns, lowValue_snd_columns]
    exact Nat.le_of_lt ((isSmaller_iff a b).mp h)
  next h =>
    rw [lowValue_fst_columns, lowValue_snd_columns]
    exact Nat.le_of_not_lt fun hlt => h ((isSmaller_iff a b).mpr hlt)

/-- **No borrow is left over** from a difference. -/
theorem rippleSub_differenceColumns (a b : List Bool) :
    (rippleSub false (differenceColumns a b)).2 = false :=
  (lowValue_rippleSub_of_le (lowValue_differenceColumns a b)).1

theorem Bits.differenceOf_eq_canonical (a b : List Bool) :
    differenceOf a b
      = canonical (isSmaller a b) (rippleSub false (differenceColumns a b)).1.reverse := by
  unfold differenceOf differenceColumns
  cases isSmaller a b <;> rfl

/-- The subtraction of the smaller of two numbers from the larger one, in integers. -/
def subtraction (a b : Bits) : List Int × Int :=
  borrowColumns 0 ((differenceColumns a.digits b.digits).map columnNumbers)

theorem subtraction_eq (a b : Bits) :
    subtraction a b
      = ((rippleSub false (differenceColumns a.digits b.digits)).1.map Bool.toInt, 0) := by
  have hloop := borrowColumns_eq false (differenceColumns a.digits b.digits)
  rw [rippleSub_differenceColumns] at hloop
  exact hloop

/-- **A difference that is subtracted digit by digit.** -/
structure Subtracts (a b r : Bits) : Prop where
  /-- No borrow is left over. -/
  borrow : (subtraction a b).2 = 0
  /-- Every digit is zero or one. -/
  digit : ∀ d ∈ (subtraction a b).1, d = 0 ∨ d = 1
  /-- The result is written with these digits, and with a sign mark if the numbers were
      exchanged. -/
  result : ∃ ds : List Bool, ds.map Bool.toInt = (subtraction a b).1 ∧
    r = Bits.canonical (isSmaller a.digits b.digits) ds.reverse

theorem subtracts_differenceOf (a b : Bits) :
    Subtracts a b (Bits.differenceOf a.digits b.digits) where
  borrow := by rw [subtraction_eq]
  digit := by
    rw [subtraction_eq]
    intro d hd
    obtain ⟨digit, -, rfl⟩ := List.mem_map.mp hd
    exact toInt_eq_zero_or_one digit
  result := by
    rw [subtraction_eq]
    exact ⟨_, rfl, Bits.differenceOf_eq_canonical _ _⟩

/-! ### Differences -/

theorem Bits.sub_eq_differenceOf {a b : Bits} (ha : a.negative = false)
    (hb : b.negative = false) : a.sub b = .ok (differenceOf a.digits b.digits) := by
  unfold sub unsignedDigits
  rw [ha, hb]
  rfl

theorem Bits.sub_of_unsigned {a b : Bits} (ha : a.negative = false) (hb : b.negative = false) :
    a.sub b = .ok (ofInt ((a.magnitude : Int) - b.magnitude)) := by
  rw [sub_eq_differenceOf ha hb, differenceOf_eq_ofInt]
  rfl

/-- **Which literals have a difference**, and which bit-string it is. -/
theorem subLiterals_eq_ok_iff {a b : String} {r : Bits} :
    subLiterals a b = .ok r ↔
      IsBinary a ∧ IsBinary b ∧ r = Bits.ofInt ((binaryValue a : Int) - binaryValue b) :=
  operands_eq_ok_iff (g := fun m n => Bits.ofInt ((m : Int) - n)) fun _ _ => Bits.sub_of_unsigned

theorem subLiterals_eq_error_iff {a b : String} {e : LiteralError} :
    subLiterals a b = .error e ↔ Malformed a e ∨ (IsBinary a ∧ Malformed b e) :=
  operands_eq_error_iff fun _ _ hx hy => ⟨_, Bits.sub_of_unsigned hx hy⟩

/-- A difference is the result of a subtraction of the two numbers. -/
theorem exists_subtracts {a b : String} {r : Bits} (h : subLiterals a b = .ok r) :
    ∃ x y : Bits, x.text = a ∧ y.text = b ∧ Subtracts x y r := by
  obtain ⟨x, hx, hrest⟩ := bind_eq_ok.mp h
  obtain ⟨y, hy, hr⟩ := bind_eq_ok.mp hrest
  obtain ⟨hxneg, rfl⟩ := Bits.parseUnsigned_eq_ok_iff.mp hx
  obtain ⟨hyneg, rfl⟩ := Bits.parseUnsigned_eq_ok_iff.mp hy
  rw [Bits.sub_eq_differenceOf hxneg hyneg] at hr
  cases hr
  exact ⟨x, y, rfl, rfl, subtracts_differenceOf x y⟩

/-- **The difference of two literals** is exact at every length. Two texts have a difference exactly
    if both are binary numerals, whatever zeros stand in front of them. The text of the difference
    is then the one canonical literal of the difference of their numbers, it is read back as the
    difference, and exchanging the texts gives the canonical literal of the negative. The digit loop
    ends without a borrow and writes zeros and ones only. Otherwise the error is the one that the
    sum has: it says what is wrong with the left text, or else with the right one. -/
theorem subLiterals_exact (a b : String) :
    ((∃ r, subLiterals a b = .ok r) ↔ IsBinary a ∧ IsBinary b) ∧
      (∀ r, subLiterals a b = .ok r →
        IsCanonical r.text ((binaryValue a : Int) - binaryValue b) ∧
          (∀ s, IsCanonical s ((binaryValue a : Int) - binaryValue b) → s = r.text) ∧
          Bits.parse r.text = .ok r ∧
          (∃ x y : Bits, x.text = a ∧ y.text = b ∧ Subtracts x y r) ∧
          ∃ r', subLiterals b a = .ok r' ∧
            IsCanonical r'.text (-((binaryValue a : Int) - binaryValue b))) ∧
      (∀ e, subLiterals a b = .error e ↔ Malformed a e ∨ (IsBinary a ∧ Malformed b e)) ∧
      (∀ e, subLiterals a b = .error e ↔ addLiterals a b = .error e) := by
  refine ⟨?_, ?_, fun e => subLiterals_eq_error_iff, fun e => ?_⟩
  · simp only [subLiterals_eq_ok_iff]
    constructor
    · rintro ⟨r, ha, hb, -⟩
      exact ⟨ha, hb⟩
    · rintro ⟨ha, hb⟩
      exact ⟨_, ha, hb, rfl⟩
  · intro r hr
    have hsub := exists_subtracts hr
    obtain ⟨ha, hb, rfl⟩ := subLiterals_eq_ok_iff.mp hr
    have hcanonical := Bits.isCanonical_ofInt ((binaryValue a : Int) - binaryValue b)
    refine ⟨hcanonical, fun s hs => hs.unique hcanonical, Bits.parse_text _, hsub, ?_⟩
    refine ⟨_, subLiterals_eq_ok_iff.mpr ⟨hb, ha, rfl⟩, ?_⟩
    rw [Int.neg_sub]
    exact Bits.isCanonical_ofInt _
  · rw [subLiterals_eq_error_iff, addLiterals_eq_error_iff]

/-- Three, with zeros in front, less seven: the numbers are exchanged, and the sign mark is set. -/
theorem subLiterals_exact_exchanged :
    ∃ r, subLiterals "0011" "111" = .ok r ∧ r.text = "-100" ∧ IsCanonical r.text (-4) ∧
      ∃ r', subLiterals "111" "0011" = .ok r' ∧ IsCanonical r'.text 4 := by
  have hdifference :
      subLiterals "0011" "111" = .ok ⟨true, [true, false, false], List.cons_ne_nil _ _⟩ := by
    decide +kernel
  obtain ⟨-, hok, -⟩ := subLiterals_exact "0011" "111"
  obtain ⟨hcanonical, -, -, -, hreverse⟩ := hok _ hdifference
  exact ⟨_, hdifference, rfl, hcanonical, hreverse⟩

end BitMachine
