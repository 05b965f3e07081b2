import BitMachine.Proofs.IntegerLiterals

namespace BitMachine

/-!
# Decoding of literals

The 64-bit values of texts. A literal is decoded digit by digit, so a value that has become too
large is noticed before a wrong character further on:

* `Outgrows` — some digits in front extend a number to 2^64 or more, and `HasLargeFront`, the same
  for a text;
* `decodeUnsigned_eq` — a text is decoded as it is read, unless its front is too large;
* `decodeUnsigned_text`, `decodeSigned_text` — the texts of bit-strings have the values of the
  bit-strings;
* `decoders_exact` — **the representable literals**.
-/

/-! ### Digits that extend a number -/

/-- The number that binary digits extend a number to, most significant digit first. -/
def extendValue (n : Nat) (cs : List Char) : Nat :=
  cs.foldl (fun n c => 2 * n + if c = '1' then 1 else 0) n

theorem binaryValue_eq_extendValue (s : String) : binaryValue s = extendValue 0 s.toList := rfl

@[simp] theorem extendValue_nil (n : Nat) : extendValue n [] = n := rfl

theorem extendValue_digitChar_cons (n : Nat) (d : Bool) (cs : List Char) :
    extendValue n (digitChar d :: cs) = extendValue (2 * n + d.toNat) cs := by
  cases d <;> rfl

/-- Further digits do not make a number smaller. -/
theorem le_extendValue (n : Nat) (cs : List Char) : n ≤ extendValue n cs := by
  induction cs generalizing n with
  | nil => exact Nat.le_refl n
  | cons c cs ih =>
    have hrest := ih (2 * n + if c = '1' then 1 else 0)
    show n ≤ extendValue (2 * n + if c = '1' then 1 else 0) cs
    omega

theorem extendValue_append (n : Nat) (cs ds : List Char) :
    extendValue n (cs ++ ds) = extendValue (extendValue n cs) ds :=
  List.foldl_append

/-- Some digits in front extend a number to 2^64 or more. -/
def Outgrows (n : Nat) (cs : List Char) : Prop :=
  ∃ front rear, cs = front ++ rear ∧ (∀ c ∈ front, IsBinaryDigit c) ∧ 2 ^ 64 ≤ extendValue n front

theorem outgrows_of_le {n : Nat} (h : 2 ^ 64 ≤ n) (cs : List Char) : Outgrows n cs :=
  ⟨[], cs, rfl, by simp, h⟩

theorem not_outgrows_nil {n : Nat} (h : n < 2 ^ 64) : ¬ Outgrows n [] := by
  rintro ⟨front, rear, hsplit, -, hlarge⟩
  obtain ⟨rfl, -⟩ := List.append_eq_nil_iff.mp hsplit.symm
  exact absurd hlarge (Nat.not_le_of_lt h)

/-- A number below 2^64 is outgrown at a digit or after it. -/
theorem outgrows_digitChar_cons {n : Nat} (h : n < 2 ^ 64) (d : Bool) (cs : List Char) :
    Outgrows n (digitChar d :: cs) ↔ Outgrows (2 * n + d.toNat) cs := by
  constructor
  · rintro ⟨front, rear, hsplit, hfront, hlarge⟩
    rcases List.cons_eq_append_iff.mp hsplit with ⟨rfl, -⟩ | ⟨front', rfl, rfl⟩
    · exact absurd hlarge (Nat.not_le_of_lt h)
    · rw [extendValue_digitChar_cons] at hlarge
      exact ⟨front', rear, rfl, fun c hc => hfront c (List.mem_cons_of_mem _ hc), hlarge⟩
  · rintro ⟨front, rear, rfl, hfront, hlarge⟩
    refine ⟨digitChar d :: front, rear, rfl, ?_, ?_⟩
    · exact List.forall_mem_cons.mpr ⟨isBinaryDigit_digitChar d, hfront⟩
    · rwa [extendValue_digitChar_cons]

/-- A number below 2^64 is not outgrown at a character that is no digit. -/
theorem not_outgrows_cons {n : Nat} (h : n < 2 ^ 64) {c : Char} (hc : ¬ IsBinaryDigit c)
    (cs : List Char) : ¬ Outgrows n (c :: cs) := by
  rintro ⟨front, rear, hsplit, hfront, hlarge⟩
  rcases List.cons_eq_append_iff.mp hsplit with ⟨rfl, -⟩ | ⟨front', rfl, -⟩
  · exact absurd hlarge (Nat.not_le_of_lt h)
  · exact hc (hfront c List.mem_cons_self)

/-! ### The decoding loop -/

section Loop

variable {whole : String} {value : UInt64} {cs : List Char}

theorem decodeDigits_digitChar_cons (d : Bool) :
    decodeDigits whole value (digitChar d :: cs)
      = if h : 2 * value.toNat + d.toNat < UInt64.size then
          decodeDigits whole (UInt64.ofNatLT _ h) cs
        else .error (.overflow whole) := by
  rw [decodeDigits, readDigit_digitChar]
  rfl

theorem decodeDigits_cons_of_not_digit {c : Char} (hc : ¬ IsBinaryDigit c) :
    decodeDigits whole value (c :: cs) = .error (.invalidDigit c) := by
  rw [decodeDigits, readDigit_eq_error_iff.mpr ⟨hc, rfl⟩]
  rfl

theorem exists_eq_digitChar {c : Char} (hc : IsBinaryDigit c) : ∃ d, c = digitChar d := by
  obtain ⟨d, hd⟩ := exists_readDigit_eq_ok_iff.mpr hc
  exact ⟨d, readDigit_eq_ok_iff.mp hd⟩

/-- **Overflow.** The loop notices a value that is too large at the digit that makes it so. -/
theorem decodeDigits_of_outgrows (h : Outgrows value.toNat cs) :
    decodeDigits whole value cs = .error (.overflow whole) := by
  induction cs generalizing value with
  | nil => exact absurd h (not_outgrows_nil value.toNat_lt)
  | cons c cs ih =>
    by_cases hc : IsBinaryDigit c
    · obtain ⟨d, rfl⟩ := exists_eq_digitChar hc
      rw [decodeDigits_digitChar_cons]
      split
      next hlt =>
        apply ih
        rw [UInt64.toNat_ofNatLT]
        exact (outgrows_digitChar_cons value.toNat_lt d cs).mp h
      next => rfl
    · exact absurd h (not_outgrows_cons value.toNat_lt hc cs)

/-- **No overflow.** The loop reads the digits, and its value is what they extend the value before
    them to. -/
theorem decodeDigits_of_not_outgrows (h : ¬ Outgrows value.toNat cs) :
    decodeDigits whole value cs
      = (readDigits cs).map fun _ => UInt64.ofNat (extendValue value.toNat cs) := by
  induction cs generalizing value with
  | nil =>
    show Except.ok value = .ok (UInt64.ofNat value.toNat)
    rw [UInt64.ofNat_toNat]
  | cons c cs ih =>
    by_cases hc : IsBinaryDigit c
    · obtain ⟨d, rfl⟩ := exists_eq_digitChar hc
      rw [outgrows_digitChar_cons value.toNat_lt] at h
      have hlt : 2 * value.toNat + d.toNat < UInt64.size :=
        Nat.lt_of_not_le fun hle => h (outgrows_of_le hle cs)
      rw [decodeDigits_digitChar_cons, dif_pos hlt, ih (by rwa [UInt64.toNat_ofNatLT]),
        UInt64.toNat_ofNatLT, extendValue_digitChar_cons, readDigits, readDigits, List.mapM_cons,
        readDigit_digitChar, ok_bind]
      cases List.mapM readDigit cs <;> rfl
    · rw [decodeDigits_cons_of_not_digit hc, readDigits, List.mapM_cons,
        readDigit_eq_error_iff.mpr ⟨hc, rfl⟩]
      rfl

end Loop

/-! ### Unsigned literals -/

/-- Some front part of a text is a binary numeral of 2^64 or more. -/
def HasLargeFront (s : String) : Prop :=
  ∃ front rear, s = front ++ rear ∧ IsBinary front ∧ 2 ^ 64 ≤ binaryValue front

/-- **What is wrong** with a text that is no literal of an unsigned 64-bit number. A front part
    that is too large counts before a wrong character behind it. -/
inductive Unrepresentable : String → LiteralError → Prop
  /-- It starts with a sign mark. -/
  | signed {s : String} (hsign : s.toList.head? = some '-') : Unrepresentable s (.signed s)
  /-- It is empty. -/
  | empty : Unrepresentable "" .empty
  /-- Its front is too large. -/
  | overflow {s : String} (hlarge : HasLargeFront s) : Unrepresentable s (.overflow s)
  /-- Its front is not too large, and this is its first character that is no binary digit. -/
  | digit {s : String} {front rear : List Char} {c : Char} (hsign : s.toList.head? ≠ some '-')
      (hfits : ¬ HasLargeFront s) (hsplit : s.toList = front ++ c :: rear)
      (hfront : ∀ d ∈ front, IsBinaryDigit d) (hc : ¬ IsBinaryDigit c) :
      Unrepresentable s (.invalidDigit c)

theorem hasLargeFront_iff_outgrows {s : String} : HasLargeFront s ↔ Outgrows 0 s.toList := by
  constructor
  · rintro ⟨front, rear, rfl, hfront, hlarge⟩
    exact ⟨front.toList, rear.toList, String.toList_append, hfront.2, hlarge⟩
  · rintro ⟨front, rear, hsplit, hfront, hlarge⟩
    refine ⟨String.ofList front, String.ofList rear, ?_, ⟨?_, ?_⟩, ?_⟩
    · rw [← String.ofList_append, ← hsplit, String.ofList_toList]
    · intro hempty
      obtain rfl : front = [] := by simpa using congrArg String.toList hempty
      exact absurd hlarge (by decide)
    · rwa [String.toList_ofList]
    · rwa [binaryValue_eq_extendValue, String.toList_ofList]

/-- A binary numeral is too large at its front if it is too large. -/
theorem IsBinary.hasLargeFront_iff {s : String} (h : IsBinary s) :
    HasLargeFront s ↔ 2 ^ 64 ≤ binaryValue s := by
  constructor
  · rintro ⟨front, rear, rfl, -, hlarge⟩
    rw [binaryValue_eq_extendValue, String.toList_append, extendValue_append]
    exact Nat.le_trans hlarge (le_extendValue _ _)
  · intro hlarge
    exact ⟨s, "", String.append_empty.symm, h, hlarge⟩

/-- The decoder looks for the sign mark first, then for characters. -/
theorem decodeUnsigned_eq (s : String) :
    decodeUnsigned s
      = if s.toList.head? = some '-' then .error (.signed s)
        else if s.toList = [] then .error .empty
        else decodeDigits s 0 s.toList := by
  unfold decodeUnsigned
  cases s.toList with
  | nil => rfl
  | cons c cs =>
    by_cases hc : c = '-'
    · subst hc
      rfl
    · simp only [Bits.splitSign_cons_of_ne hc, List.head?_cons, Option.some.injEq, hc, if_false, reduceCtorEq]

theorem decodeUnsigned_of_hasLargeFront {s : String} (h : HasLargeFront s) :
    decodeUnsigned s = .error (.overflow s) := by
  have houtgrows := hasLargeFront_iff_outgrows.mp h
  -- Such a text has a digit in front.
  have hhead : s.toList.head? ≠ some '-' := by
    intro hsign
    obtain ⟨rest, hrest⟩ : ∃ rest, s.toList = '-' :: rest := List.head?_eq_some_iff.mp hsign
    rw [hrest] at houtgrows
    exact not_outgrows_cons (by decide) (by simp [IsBinaryDigit]) rest houtgrows
  have hne : s.toList ≠ [] := by
    intro hnil
    rw [hnil] at houtgrows
    exact not_outgrows_nil (by decide) houtgrows
  rw [decodeUnsigned_eq, if_neg hhead, if_neg hne]
  exact decodeDigits_of_outgrows houtgrows

/-- **Decoding is reading**, unless the front of the text is too large. -/
theorem decodeUnsigned_of_not_hasLargeFront {s : String} (h : ¬ HasLargeFront s) :
    decodeUnsigned s = (Bits.parseUnsigned s).map fun _ => UInt64.ofNat (binaryValue s) := by
  rw [decodeUnsigned_eq, Bits.parseUnsigned_eq]
  split
  · rfl
  · split
    next hnil =>
      rw [hnil]
      rfl
    next hne =>
      have houtgrows : ¬ Outgrows (0 : UInt64).toNat s.toList :=
        fun ho => h (hasLargeFront_iff_outgrows.mpr ho)
      rw [decodeDigits_of_not_outgrows houtgrows]
      cases hread : readDigits s.toList with
      | error e => rfl
      | ok ds =>
        cases ds with
        | nil => exact absurd (readDigits_eq_ok_iff.mp hread) hne
        | cons d ds => rfl

/-- **The unsigned literals** are the binary numerals below 2^64. -/
theorem decodeUnsigned_eq_ok_iff {s : String} {v : UInt64} :
    decodeUnsigned s = .ok v ↔
      IsBinary s ∧ binaryValue s < 2 ^ 64 ∧ v.toNat = binaryValue s := by
  by_cases hlarge : HasLargeFront s
  · rw [decodeUnsigned_of_hasLargeFront hlarge]
    refine ⟨nofun, ?_⟩
    rintro ⟨hs, hlt, -⟩
    exact absurd (hs.hasLargeFront_iff.mp hlarge) (Nat.not_le_of_lt hlt)
  · rw [decodeUnsigned_of_not_hasLargeFront hlarge, map_eq_ok]
    constructor
    · rintro ⟨b, hread, rfl⟩
      have hs := Bits.exists_parseUnsigned_iff.mp ⟨b, hread⟩
      have hlt : binaryValue s < 2 ^ 64 :=
        Nat.lt_of_not_le fun hle => hlarge (hs.hasLargeFront_iff.mpr hle)
      exact ⟨hs, hlt, UInt64.toNat_ofNat_of_lt hlt⟩
    · rintro ⟨hs, -, hv⟩
      obtain ⟨b, hread⟩ := Bits.exists_parseUnsigned_iff.mpr hs
      exact ⟨b, hread, by rw [← hv, UInt64.ofNat_toNat]⟩

/-- **What the decoder refuses** are the other texts, for the first thing that is wrong. -/
theorem decodeUnsigned_eq_error_iff {s : String} {e : LiteralError} :
    decodeUnsigned s = .error e ↔ Unrepresentable s e := by
  constructor
  · intro h
    by_cases hlarge : HasLargeFront s
    · rw [decodeUnsigned_of_hasLargeFront hlarge] at h
      cases h
      exact .overflow hlarge
    · rw [decodeUnsigned_of_not_hasLargeFront hlarge, map_eq_error,
        Bits.parseUnsigned_eq_error_iff] at h
      cases h with
      | signed hsign => exact .signed hsign
      | empty => exact .empty
      | digit hsign hsplit hfront hc => exact .digit hsign hlarge hsplit hfront hc
  · intro h
    cases h with
    | signed hsign => rw [decodeUnsigned_eq, if_pos hsign]
    | empty => rfl
    | overflow hlarge => exact decodeUnsigned_of_hasLargeFront hlarge
    | digit hsign hfits hsplit hfront hc =>
      rw [decodeUnsigned_of_not_hasLargeFront hfits, map_eq_error, Bits.parseUnsigned_eq_error_iff]
      exact .digit hsign hsplit hfront hc

/-- The decoder of texts and the reading of bit-strings agree. -/
theorem decodeUnsigned_text (b : Bits) : decodeUnsigned b.text = b.unsigned := by
  unfold Bits.unsigned
  cases hneg : b.negative with
  | true =>
    have hsign : b.text.toList.head? = some '-' := by
      rw [Bits.text, String.toList_ofList, Bits.chars, if_pos hneg]
      rfl
    rw [decodeUnsigned_eq, if_pos hsign]
    rfl
  | false =>
    have hb := Bits.isBinary_text hneg
    simp only [Bool.false_eq_true, if_false]
    split
    next hlt =>
      rw [decodeUnsigned_eq_ok_iff, Bits.binaryValue_text hneg]
      exact ⟨hb, hlt, UInt64.toNat_ofNatLT⟩
    next hge =>
      apply decodeUnsigned_of_hasLargeFront
      rw [hb.hasLargeFront_iff, Bits.binaryValue_text hneg]
      exact Nat.le_of_not_lt hge

/-! ### Signed literals -/

/-- The decoder of signed literals decodes the digits without the sign mark. -/
theorem decodeSigned_eq (s : String) :
    decodeSigned s
      = (decodeUnsigned (String.ofList (Bits.splitSign s.toList).2) >>= fun magnitude =>
          signedValue s (Bits.splitSign s.toList).1 magnitude.toNat) := rfl

/-- The decoder of texts and the signed reading of bit-strings agree. -/
theorem decodeSigned_text (b : Bits) : decodeSigned b.text = b.signed := by
  have hsplit : Bits.splitSign b.text.toList = (b.negative, b.digitChars) := by
    rw [Bits.text, String.toList_ofList, Bits.splitSign_chars]
  rw [decodeSigned_eq, hsplit]
  show (decodeUnsigned b.unmarked.text >>= _) = _
  rw [decodeUnsigned_text]
  unfold Bits.signed
  split
  next hlt =>
    have hunsigned : b.unmarked.unsigned = .ok (UInt64.ofNatLT b.magnitude hlt) := dif_pos hlt
    rw [hunsigned, ok_bind, UInt64.toNat_ofNatLT]
  next hge =>
    have hunsigned : b.unmarked.unsigned = .error (.overflow b.digitText) := dif_neg hge
    rw [hunsigned]
    rfl

/-- A text is its sign mark, if there is one, and what follows it. -/
theorem join_splitSign (cs : List Char) :
    (if (Bits.splitSign cs).1 then signMark :: (Bits.splitSign cs).2 else (Bits.splitSign cs).2)
      = cs := by
  cases cs with
  | nil => rfl
  | cons c cs =>
    by_cases hc : c = '-'
    · subst hc
      rfl
    · rw [Bits.splitSign_cons_of_ne hc]
      rfl

/-- A text with a binary numeral behind its sign mark is that of a bit-string. -/
theorem exists_text_eq_of_isBinary {s : String}
    (h : IsBinary (String.ofList (Bits.splitSign s.toList).2)) : ∃ b : Bits, b.text = s := by
  obtain ⟨b, hneg, hb⟩ := Bits.exists_text_eq_iff.mpr h
  have hbody : b.digitChars = (Bits.splitSign s.toList).2 := by
    rw [Bits.digitChars, ← Bits.toList_text_of_unsigned hneg, hb, String.toList_ofList]
  refine ⟨{ b with negative := (Bits.splitSign s.toList).1 }, ?_⟩
  rw [← String.toList_inj, Bits.text, String.toList_ofList]
  show (if (Bits.splitSign s.toList).1 then signMark :: b.digitChars else b.digitChars) = s.toList
  rw [hbody, join_splitSign]

/-- The range of signed values in powers of two. -/
theorem Bits.fitsSigned_iff {v : Int} : FitsSigned v ↔ -2 ^ 63 ≤ v ∧ v ≤ 2 ^ 63 - 1 := by
  unfold FitsSigned signedLimit
  omega

/-- **The signed literals** are the literals of the integers from -2^63 up to 2^63 - 1. -/
theorem decodeSigned_eq_ok_iff {s : String} {v : Int} :
    decodeSigned s = .ok v ↔ IsLiteral s v ∧ -2 ^ 63 ≤ v ∧ v ≤ 2 ^ 63 - 1 := by
  rw [← Bits.fitsSigned_iff]
  constructor
  · intro h
    -- The digits were decoded, so the text is that of a bit-string.
    obtain ⟨magnitude, hmagnitude, -⟩ := bind_eq_ok.mp (decodeSigned_eq s ▸ h)
    obtain ⟨b, rfl⟩ := exists_text_eq_of_isBinary (decodeUnsigned_eq_ok_iff.mp hmagnitude).1
    rw [decodeSigned_text] at h
    by_cases hfits : Bits.FitsSigned b.value
    · rw [Bits.signed_of_fits hfits] at h
      cases h
      exact ⟨b.isLiteral_text, hfits⟩
    · rw [Bits.signed_of_not_fits hfits] at h
      cases h
  · rintro ⟨hs, hfits⟩
    obtain ⟨b, rfl, rfl⟩ := isLiteral_iff.mp hs
    rw [decodeSigned_text, Bits.signed_of_fits hfits]

/-- **The text of a bit-string** is refused by the signed decoder only if its value is out of
    range. A magnitude that does not even fit without a sign is quoted without the mark. -/
theorem decodeSigned_text_eq_error_iff {b : Bits} {e : LiteralError} :
    decodeSigned b.text = .error e ↔
      ¬ (-2 ^ 63 ≤ b.value ∧ b.value ≤ 2 ^ 63 - 1) ∧
        e = .overflow (if b.magnitude < 2 ^ 64 then b.text else b.digitText) := by
  rw [decodeSigned_text, ← Bits.fitsSigned_iff]
  by_cases hfits : Bits.FitsSigned b.value
  · simp [Bits.signed_of_fits hfits, hfits]
  · rw [Bits.signed_of_not_fits hfits]
    constructor
    · intro h
      cases h
      exact ⟨hfits, rfl⟩
    · rintro ⟨-, rfl⟩
      rfl

/-- **The decoders accept exactly the representable literals.** An unsigned 64-bit number is
    decoded from the binary numerals that stand for it, whatever zeros stand in front of them; any
    other text is refused for a sign mark, for having no digits, for a front part of 2^64 or more,
    or else for its first wrong character. A signed number is decoded from its literals, both ends
    of the range included. The text of a bit-string is refused with a sign only if its value is out
    of that range, and then as an overflow. -/
theorem decoders_exact :
    (∀ s v, decodeUnsigned s = .ok v ↔
      IsBinary s ∧ binaryValue s < 2 ^ 64 ∧ v.toNat = binaryValue s) ∧
    (∀ s e, decodeUnsigned s = .error e ↔ Unrepresentable s e) ∧
    (∀ s v, decodeSigned s = .ok v ↔ IsLiteral s v ∧ -2 ^ 63 ≤ v ∧ v ≤ 2 ^ 63 - 1) ∧
    (∀ (b : Bits) e, decodeSigned b.text = .error e ↔
      ¬ (-2 ^ 63 ≤ b.value ∧ b.value ≤ 2 ^ 63 - 1) ∧
        e = .overflow (if b.magnitude < 2 ^ 64 then b.text else b.digitText)) :=
  ⟨fun _ _ => decodeUnsigned_eq_ok_iff, fun _ _ => decodeUnsigned_eq_error_iff,
    fun _ _ => decodeSigned_eq_ok_iff, fun _ _ => decodeSigned_text_eq_error_iff⟩

/-- Sixty-five ones overflow before the wrong character behind them is seen. -/
example : decodeUnsigned (String.ofList (List.replicate 65 '1' ++ ['x']))
    = .error (.overflow (String.ofList (List.replicate 65 '1' ++ ['x']))) := by
  decide +kernel

end BitMachine
