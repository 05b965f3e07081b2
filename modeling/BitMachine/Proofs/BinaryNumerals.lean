import BitMachine.Proofs.DigitValue
import BitMachine.Proofs.Literals

namespace BitMachine

/-!
# Binary numerals

Texts that stand for numbers, described by their characters, and what the reader of literals
without sign marks makes of a text:

* `IsBinary` and `binaryValue` — a text of binary digits and the number that it stands for;
* `Malformed` — the first thing that is wrong with a text of another kind;
* `Bits.parseUnsigned_eq_ok_iff`, `Bits.parseUnsigned_eq_error_iff` — the reader takes texts of
  binary digits and refuses the others for that thing;
* `IsShortest` and `IsShortest.unique` — a number has one numeral without zeros in front.
-/

/-! ### Texts of binary digits -/

/-- A character that is a binary digit. -/
def IsBinaryDigit (c : Char) : Prop :=
  c = '0' ∨ c = '1'

/-- **A binary numeral**: one or more binary digits. -/
def IsBinary (s : String) : Prop :=
  s ≠ "" ∧ ∀ c ∈ s.toList, IsBinaryDigit c

/-- The number that a binary numeral stands for, most significant digit first. -/
def binaryValue (s : String) : Nat :=
  s.toList.foldl (fun n c => 2 * n + if c = '1' then 1 else 0) 0

/-- **What is wrong** with a text that is no binary numeral. A sign mark in front counts first. -/
inductive Malformed : String → LiteralError → Prop
  /-- It starts with a sign mark. -/
  | signed {s : String} (hsign : s.toList.head? = some '-') : Malformed s (.signed s)
  /-- It is empty. -/
  | empty : Malformed "" .empty
  /-- It has no sign mark in front, and this is its first character that is no binary digit. -/
  | digit {s : String} {front rear : List Char} {c : Char} (hsign : s.toList.head? ≠ some '-')
      (hsplit : s.toList = front ++ c :: rear) (hfront : ∀ d ∈ front, IsBinaryDigit d)
      (hc : ¬ IsBinaryDigit c) : Malformed s (.invalidDigit c)

/-- **A numeral without zeros in front**: the numeral `0`, or one that starts with a one. -/
def IsShortest (s : String) : Prop :=
  IsBinary s ∧ (s = "0" ∨ s.toList.head? = some '1')

theorem Malformed.not_isBinary {s : String} {e : LiteralError} (h : Malformed s e) :
    ¬ IsBinary s := by
  rintro ⟨hne, hdigits⟩
  cases h with
  | signed hsign =>
    have hdigit := hdigits '-' (List.mem_of_head? hsign)
    simp [IsBinaryDigit] at hdigit
  | empty => exact hne rfl
  | digit _ hsplit _ hc =>
    apply hc
    apply hdigits
    simp [hsplit]

/-! ### Reading digits -/

theorem isBinaryDigit_digitChar (d : Bool) : IsBinaryDigit (digitChar d) := by
  cases d <;> simp [IsBinaryDigit, digitChar]

theorem readDigit_eq_ok_iff {c : Char} {d : Bool} : readDigit c = .ok d ↔ c = digitChar d := by
  constructor
  · intro h
    unfold readDigit at h
    split at h
    next hc =>
      cases h
      exact hc
    split at h
    next hc =>
      cases h
      exact hc
    next => cases h
  · rintro rfl
    exact readDigit_digitChar d

theorem readDigit_eq_error_iff {c : Char} {e : LiteralError} :
    readDigit c = .error e ↔ ¬ IsBinaryDigit c ∧ e = .invalidDigit c := by
  unfold readDigit IsBinaryDigit
  by_cases h0 : c = '0'
  · simp [h0]
  · by_cases h1 : c = '1'
    · simp [h1]
    · simp [h0, h1, eq_comm]

theorem exists_readDigit_eq_ok_iff {c : Char} : (∃ d, readDigit c = .ok d) ↔ IsBinaryDigit c := by
  constructor
  · rintro ⟨d, hd⟩
    rw [readDigit_eq_ok_iff.mp hd]
    exact isBinaryDigit_digitChar d
  · rintro (rfl | rfl)
    · exact ⟨false, rfl⟩
    · exact ⟨true, rfl⟩

theorem readDigits_eq_ok_iff {cs : List Char} {ds : List Bool} :
    readDigits cs = .ok ds ↔ cs = ds.map digitChar := by
  unfold readDigits
  rw [mapM_eq_ok]
  simp only [readDigit_eq_ok_iff]
  rw [← List.forall₂_map_right_iff (R := Eq), List.forall₂_eq_eq_eq]

/-- The first character that is no digit is reported. -/
theorem readDigits_eq_error_iff {cs : List Char} {e : LiteralError} :
    readDigits cs = .error e ↔
      ∃ front c rear, cs = front ++ c :: rear ∧ (∀ d ∈ front, IsBinaryDigit d) ∧
        ¬ IsBinaryDigit c ∧ e = .invalidDigit c := by
  unfold readDigits
  rw [mapM_eq_error]
  simp only [exists_readDigit_eq_ok_iff, readDigit_eq_error_iff]

/-! ### Reading literals -/

namespace Bits

variable {s : String} {b : Bits} {e : LiteralError}

theorem ofDigits_eq_ok_iff {negative : Bool} {ds : List Bool} :
    ofDigits negative ds = .ok b ↔ b.negative = negative ∧ b.digits = ds := by
  constructor
  · intro h
    cases ds with
    | nil => cases h
    | cons d ds =>
      cases h
      exact ⟨rfl, rfl⟩
  · rintro ⟨rfl, rfl⟩
    exact b.ofDigits_digits

/-- **What is read as a bit-string** are its characters. -/
theorem ofChars_eq_ok_iff {cs : List Char} : ofChars cs = .ok b ↔ cs = b.chars := by
  constructor
  · intro h
    cases cs with
    | nil => cases h
    | cons c cs =>
      -- The sign mark is all that is not read as a digit.
      by_cases hc : c = signMark
      · rw [ofChars, splitSign, if_pos hc] at h
        obtain ⟨ds, hread, hds⟩ := bind_eq_ok.mp h
        obtain ⟨hneg, rfl⟩ := ofDigits_eq_ok_iff.mp hds
        rw [chars, hneg, if_pos rfl, hc, readDigits_eq_ok_iff.mp hread]
        rfl
      · rw [ofChars, splitSign, if_neg hc] at h
        obtain ⟨ds, hread, hds⟩ := bind_eq_ok.mp h
        obtain ⟨hneg, rfl⟩ := ofDigits_eq_ok_iff.mp hds
        rw [chars, hneg, readDigits_eq_ok_iff.mp hread]
        rfl
  · rintro rfl
    exact b.ofChars_chars

theorem parse_eq_ok_iff : Bits.parse s = .ok b ↔ b.text = s := by
  rw [Bits.parse, ofChars_eq_ok_iff, ← String.toList_inj, text, String.toList_ofList, eq_comm]

/-- The sign mark is seen in the characters. -/
theorem signMark_mem_chars : signMark ∈ b.chars ↔ b.negative = true := by
  have hdigits : signMark ∉ b.digitChars := by
    rw [digitChars, List.mem_map]
    rintro ⟨d, -, hd⟩
    cases d <;> cases hd
  unfold chars
  cases b.negative with
  | true => simp
  | false => simpa using hdigits

theorem ofDigits_eq_error_iff {negative : Bool} {ds : List Bool} :
    ofDigits negative ds = .error e ↔ ds = [] ∧ e = .empty := by
  cases ds with
  | nil => simp [ofDigits, eq_comm]
  | cons d ds => simp [ofDigits]

theorem toList_text_of_unsigned (h : b.negative = false) :
    b.text.toList = b.digits.map digitChar := by
  simp [text, chars, digitChars, h]

theorem splitSign_cons_of_ne {c : Char} (hc : c ≠ '-') (cs : List Char) :
    splitSign (c :: cs) = (false, c :: cs) :=
  if_neg hc

/-- The reader of literals without sign marks looks for the sign mark first. -/
theorem parseUnsigned_eq (s : String) :
    parseUnsigned s
      = if s.toList.head? = some '-' then .error (.signed s)
        else readDigits s.toList >>= ofDigits false := by
  unfold parseUnsigned
  cases s.toList with
  | nil => rfl
  | cons c cs =>
    by_cases hc : c = '-'
    · subst hc
      rfl
    · simp only [splitSign_cons_of_ne hc, List.head?_cons, Option.some.injEq, hc, if_false]
      rfl

/-- Without a sign mark the digits are all of the text. -/
theorem text_congr {a : Bits} (ha : a.negative = false) (hb : b.negative = false)
    (hdigits : a.digits = b.digits) : a.text = b.text := by
  rw [← String.toList_inj, toList_text_of_unsigned ha, toList_text_of_unsigned hb, hdigits]

theorem head?_text_of_unsigned (h : b.negative = false) : b.text.toList.head? ≠ some '-' := by
  rw [toList_text_of_unsigned h, List.head?_map]
  obtain ⟨d, ds, hds⟩ := List.exists_cons_of_ne_nil b.digits_ne_nil
  rw [hds]
  cases d <;> simp [digitChar]

/-- **What the reader takes** are the texts of bit-strings without sign marks. -/
theorem parseUnsigned_eq_ok_iff :
    parseUnsigned s = .ok b ↔ b.negative = false ∧ b.text = s := by
  rw [parseUnsigned_eq]
  constructor
  · intro h
    split at h
    · cases h
    · obtain ⟨ds, hread, hds⟩ := bind_eq_ok.mp h
      obtain ⟨hneg, rfl⟩ := ofDigits_eq_ok_iff.mp hds
      refine ⟨hneg, ?_⟩
      rw [← String.toList_inj, toList_text_of_unsigned hneg, readDigits_eq_ok_iff.mp hread]
  · rintro ⟨hneg, rfl⟩
    rw [if_neg (head?_text_of_unsigned hneg), bind_eq_ok]
    exact ⟨b.digits, readDigits_eq_ok_iff.mpr (toList_text_of_unsigned hneg),
      ofDigits_eq_ok_iff.mpr ⟨hneg, rfl⟩⟩

/-- **What the reader refuses** are the other texts, for the first thing that is wrong. -/
theorem parseUnsigned_eq_error_iff : parseUnsigned s = .error e ↔ Malformed s e := by
  rw [parseUnsigned_eq]
  constructor
  · intro h
    split at h
    next hsign =>
      cases h
      exact .signed hsign
    next hsign =>
      rcases bind_eq_error.mp h with hread | ⟨ds, hread, hds⟩
      · obtain ⟨front, c, rear, hsplit, hfront, hc, rfl⟩ := readDigits_eq_error_iff.mp hread
        exact .digit hsign hsplit hfront hc
      · -- All characters are digits, so there are none.
        obtain ⟨rfl, rfl⟩ := ofDigits_eq_error_iff.mp hds
        obtain rfl : s = "" := String.toList_inj.mp (readDigits_eq_ok_iff.mp hread)
        exact .empty
  · intro h
    cases h with
    | signed hsign => exact if_pos hsign
    | empty => rfl
    | digit hsign hsplit hfront hc =>
      rw [if_neg hsign, bind_eq_error]
      exact .inl (readDigits_eq_error_iff.mpr ⟨_, _, _, hsplit, hfront, hc, rfl⟩)

/-- The text of a bit-string without a sign mark is a binary numeral. -/
theorem isBinary_text (h : b.negative = false) : IsBinary b.text := by
  constructor
  · intro hempty
    have hchars := toList_text_of_unsigned h
    rw [hempty] at hchars
    exact b.digits_ne_nil (List.map_eq_nil_iff.mp hchars.symm)
  · intro c hc
    rw [toList_text_of_unsigned h] at hc
    obtain ⟨d, -, rfl⟩ := List.mem_map.mp hc
    exact isBinaryDigit_digitChar d

/-- **Binary numerals are read**, and nothing else is. -/
theorem exists_parseUnsigned_iff : (∃ b, parseUnsigned s = .ok b) ↔ IsBinary s := by
  constructor
  · rintro ⟨b, hb⟩
    obtain ⟨hneg, rfl⟩ := parseUnsigned_eq_ok_iff.mp hb
    exact isBinary_text hneg
  · intro h
    cases hread : parseUnsigned s with
    | ok b => exact ⟨b, rfl⟩
    | error e => exact absurd h (parseUnsigned_eq_error_iff.mp hread).not_isBinary

/-- Binary numerals are the texts of bit-strings without sign marks. -/
theorem exists_text_eq_iff : (∃ b : Bits, b.negative = false ∧ b.text = s) ↔ IsBinary s := by
  rw [← exists_parseUnsigned_iff]
  simp only [parseUnsigned_eq_ok_iff]

theorem binaryValue_text (h : b.negative = false) : binaryValue b.text = b.magnitude := by
  have hdigit (d : Bool) : (if digitChar d = '1' then 1 else 0) = d.toNat := by
    cases d <;> rfl
  unfold binaryValue
  rw [toList_text_of_unsigned h, List.foldl_map]
  simp only [hdigit]
  rfl

/-! ### Shortest numerals -/

theorem text_eq_zero_iff (h : b.negative = false) : b.text = "0" ↔ b.digits = [false] := by
  have hzero : "0".toList = ['0'] := rfl
  rw [← String.toList_inj, toList_text_of_unsigned h, hzero, List.map_eq_singleton_iff]
  constructor
  · rintro ⟨d, hdigits, hd⟩
    rw [hdigits]
    cases d
    · rfl
    · simp [digitChar] at hd
  · intro hdigits
    exact ⟨false, hdigits, rfl⟩

theorem head?_text_eq_one_iff (h : b.negative = false) :
    b.text.toList.head? = some '1' ↔ ∃ rest, b.digits = true :: rest := by
  rw [toList_text_of_unsigned h]
  obtain ⟨d, ds, hds⟩ := List.exists_cons_of_ne_nil b.digits_ne_nil
  rw [hds]
  cases d <;> simp [digitChar]

/-- **The shortest numerals** are the texts of the digits of numbers. -/
theorem isShortest_text_iff (h : b.negative = false) :
    IsShortest b.text ↔ b.digits = binaryDigits b.magnitude := by
  unfold IsShortest
  rw [text_eq_zero_iff h, head?_text_eq_one_iff h]
  constructor
  · -- A row that starts with a one is all of the digits of its number; zero is the exception.
    rintro ⟨-, hzero | ⟨rest, hrest⟩⟩
    · rw [magnitude, hzero]
      exact binaryDigits_zero.symm
    · rw [magnitude, hrest]
      exact (binaryDigits_digitsValue_true_cons rest).symm
  · intro hdigits
    refine ⟨isBinary_text h, ?_⟩
    by_cases hz : b.magnitude = 0
    · left
      rw [hdigits, hz, binaryDigits_zero]
    · right
      rw [hdigits]
      exact binaryDigits_eq_true_cons hz

theorem magnitude_ofNat (n : Nat) : (ofNat n).magnitude = n :=
  digitsValue_binaryDigits n

theorem isShortest_ofNat (n : Nat) : IsShortest (ofNat n).text := by
  rw [isShortest_text_iff rfl, magnitude_ofNat]
  rfl

theorem binaryValue_ofNat (n : Nat) : binaryValue (ofNat n).text = n := by
  rw [binaryValue_text rfl, magnitude_ofNat]

end Bits

/-- **A number has one shortest numeral.** -/
theorem IsShortest.unique {s t : String} (hs : IsShortest s) (ht : IsShortest t)
    (hvalue : binaryValue s = binaryValue t) : s = t := by
  obtain ⟨a, ha, rfl⟩ := Bits.exists_text_eq_iff.mpr hs.1
  obtain ⟨b, hb, rfl⟩ := Bits.exists_text_eq_iff.mpr ht.1
  rw [Bits.binaryValue_text ha, Bits.binaryValue_text hb] at hvalue
  -- Both are written with the digits of the one number.
  apply Bits.text_congr ha hb
  rw [(Bits.isShortest_text_iff ha).mp hs, (Bits.isShortest_text_iff hb).mp ht, hvalue]

end BitMachine
