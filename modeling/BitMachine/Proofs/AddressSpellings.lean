import BitMachine.Proofs.Literals

namespace BitMachine

/-!
# The spellings of an address

An address is read from its text, and also from its text with zeros in front of the number:

* `Text.numeral_iff_exists_zeros` — the numerals of a number are its decimal digits behind any
  number of zeros;
* `Address.paddedText` — the text of an address with zeros in front of the number, and
  `Address.paddedText_inj`: different addresses or different numbers of zeros, different texts;
* `Address.parse_eq_ok_iff_padded` — these are the texts that are read as an address;
* `Address.parse_eq_ok_iff_text_iff` — what is read is the text of the address, but for the zeros;
* `Address.parse_passes_zeros` — all of it, with the refusal of all other texts.
-/

/-! ### Numerals with zeros in front -/

namespace Text

/-- A decimal digit is written for a number below ten. -/
theorem exists_digitChar_eq {c : Char} (h : c.isDigit = true) : ∃ d < 10, Nat.digitChar d = c := by
  obtain ⟨hlow, hhigh⟩ := Char.isDigit_iff_toNat.mp h
  change 48 ≤ c.toNat at hlow
  change c.toNat ≤ 57 at hhigh
  have hd : c.toNat - 48 < 10 := by omega
  refine ⟨c.toNat - 48, hd, Char.toNat_inj.mp ?_⟩
  rw [Nat.toNat_digitChar_of_lt_ten hd]
  omega

/-- **Digits behind a number** that is not zero make the digits of a larger one. -/
theorem toDigits_append {n : Nat} (hn : 0 < n) {cs : List Char}
    (hcs : ∀ c ∈ cs, c.isDigit = true) :
    Nat.toDigits 10 n ++ cs = Nat.toDigits 10 (Nat.ofDigitChars 10 cs n) := by
  induction cs generalizing n with
  | nil => rw [List.append_nil, Nat.ofDigitChars_nil]
  | cons c cs ih =>
    obtain ⟨hc, hrest⟩ := List.forall_mem_cons.mp hcs
    obtain ⟨d, hd, rfl⟩ := exists_digitChar_eq hc
    calc Nat.toDigits 10 n ++ Nat.digitChar d :: cs
        = (Nat.toDigits 10 n ++ Nat.toDigits 10 d) ++ cs := by
          rw [Nat.toDigits_of_lt_base hd, List.append_assoc, List.singleton_append]
      _ = Nat.toDigits 10 (10 * n + d) ++ cs := by
          rw [Nat.toDigits_append_toDigits (by decide) hn hd]
      _ = Nat.toDigits 10 (Nat.ofDigitChars 10 cs (10 * n + d)) := ih (by omega) hrest
      _ = Nat.toDigits 10 (Nat.ofDigitChars 10 (Nat.digitChar d :: cs) n) := by
          rw [Nat.ofDigitChars_cons_digitChar_of_lt_ten hd]

/-- **Digits are zeros and the digits of a number.** -/
theorem exists_zeros {cs : List Char} (hne : cs ≠ []) (hcs : ∀ c ∈ cs, c.isDigit = true) :
    ∃ zeros, cs = List.replicate zeros '0' ++ Nat.toDigits 10 (Nat.ofDigitChars 10 cs 0) := by
  induction cs with
  | nil => exact absurd rfl hne
  | cons c cs ih =>
    obtain ⟨hc, hrest⟩ := List.forall_mem_cons.mp hcs
    obtain ⟨d, hd, rfl⟩ := exists_digitChar_eq hc
    rw [Nat.ofDigitChars_cons_digitChar_of_lt_ten hd, Nat.mul_zero, Nat.zero_add]
    rcases Nat.eq_zero_or_pos d with rfl | hpos
    · -- A zero is the number itself if nothing follows.
      by_cases hlast : cs = []
      · exact ⟨0, by rw [hlast]; rfl⟩
      · obtain ⟨zeros, hzeros⟩ := ih hlast hrest
        exact ⟨zeros + 1, congrArg (List.cons '0') hzeros⟩
    · -- The first digit that is not zero opens the number.
      refine ⟨0, ?_⟩
      rw [← toDigits_append hpos hrest, Nat.toDigits_of_lt_base hd]
      rfl

/-- **The numerals of a number** are its digits behind any number of zeros. -/
theorem numeral_iff_exists_zeros {digits : List Char} {n : UInt64} :
    Numeral digits n ↔ ∃ zeros, digits = List.replicate zeros '0' ++ Nat.toDigits 10 n.toNat := by
  constructor
  · rintro ⟨hne, hdigits, hvalue⟩
    rw [← hvalue]
    exact exists_zeros hne hdigits
  · rintro ⟨zeros, rfl⟩
    have hnumeral := Address.numeral_toDigits n
    refine ⟨List.append_ne_nil_of_right_ne_nil _ hnumeral.ne_nil, fun c hc => ?_, ?_⟩
    · rcases List.mem_append.mp hc with hzero | hdigit
      · rw [List.eq_of_mem_replicate hzero]
        rfl
      · exact hnumeral.isDigit c hdigit
    · rw [Nat.ofDigitChars_append, Nat.ofDigitChars_replicate_zero, Nat.mul_zero]
      exact hnumeral.value_eq

end Text

namespace Address

/-! ### The texts of an address -/

/-- The text of an address with zeros in front of the number. -/
def paddedText (a : Address) (zeros : Nat) : String :=
  "0x" ++ String.ofList (List.replicate zeros '0') ++ toString a.slot

theorem toList_paddedText (a : Address) (zeros : Nat) :
    (a.paddedText zeros).toList =
      '0' :: 'x' :: (List.replicate zeros '0' ++ Nat.toDigits 10 a.slot.toNat) := by
  show (toString "0x" ++ String.ofList (List.replicate zeros '0')
    ++ toString a.slot.toNat).toList = _
  rw [String.toList_append, String.toList_append, String.toList_ofList]
  show ['0', 'x'] ++ List.replicate zeros '0' ++ (Nat.repr a.slot.toNat).toList = _
  rw [Nat.repr, String.toList_ofList]
  rfl

/-- Without zeros in front it is the text of the address. -/
theorem paddedText_zero (a : Address) : a.paddedText 0 = a.text := by
  rw [← String.toList_inj, toList_paddedText, toList_text]
  rfl

/-- **What is read as an address**: its text, with any number of zeros in front of the number. -/
theorem parse_eq_ok_iff_padded {s : String} {a : Address} :
    Address.parse s = .ok a ↔ ∃ zeros, s = a.paddedText zeros := by
  simp only [parse_eq_ok_iff, Text.numeral_iff_exists_zeros, ← String.toList_inj,
    toList_paddedText]
  constructor
  · rintro ⟨digits, hs, zeros, rfl⟩
    exact ⟨zeros, hs⟩
  · rintro ⟨zeros, hs⟩
    exact ⟨_, hs, zeros, rfl⟩

/-- **Every other text is refused**, and quoted. -/
theorem parse_eq_error_iff {s : String} {e : MalformedAddress} :
    Address.parse s = .error e ↔ e = ⟨s⟩ ∧ ∀ (a : Address) zeros, s ≠ a.paddedText zeros := by
  have hread (a : Address) : Address.parse s = .ok a ↔ ∃ zeros, s = a.paddedText zeros :=
    parse_eq_ok_iff_padded
  unfold Address.parse at hread ⊢
  cases hchars : ofChars? s.toList with
  | none =>
    simp only [hchars, reduceCtorEq, false_iff, not_exists] at hread
    simp [hread, eq_comm]
  | some a =>
    obtain ⟨zeros, hs⟩ := (hread a).mp (by rw [hchars])
    simp only [reduceCtorEq, false_iff, not_and, not_forall, not_not]
    exact fun _ => ⟨a, zeros, hs⟩

/-- Different addresses or different numbers of zeros, different texts. -/
theorem paddedText_inj {a b : Address} {j k : Nat} :
    a.paddedText j = b.paddedText k ↔ a = b ∧ j = k := by
  constructor
  · intro h
    -- The text is read as both addresses, and its length gives the number of zeros.
    have hparse : Address.parse (b.paddedText k) = .ok a := parse_eq_ok_iff_padded.mpr ⟨j, h.symm⟩
    obtain rfl : b = a := Except.ok.inj ((parse_eq_ok_iff_padded.mpr ⟨k, rfl⟩).symm.trans hparse)
    have hlength := congrArg (fun s => s.toList.length) h
    simp only [toList_paddedText, List.length_cons, List.length_append, List.length_replicate]
      at hlength
    exact ⟨rfl, by omega⟩
  · rintro ⟨rfl, rfl⟩
    rfl

/-- A text is read as the address whose text it is, and as no other one, unless it has a zero in
    front of the number. -/
theorem parse_eq_ok_iff_text_iff {s : String} :
    (∀ a, Address.parse s = .ok a ↔ s = a.text) ↔
      ∀ (a : Address) zeros, s ≠ a.paddedText (zeros + 1) := by
  constructor
  · rintro h a zeros rfl
    have htext : a.paddedText (zeros + 1) = a.text :=
      (h a).mp (parse_eq_ok_iff_padded.mpr ⟨zeros + 1, rfl⟩)
    rw [← paddedText_zero] at htext
    exact absurd (paddedText_inj.mp htext).2 (Nat.succ_ne_zero zeros)
  · intro h a
    rw [parse_eq_ok_iff_padded]
    constructor
    · rintro ⟨zeros | zeros, hs⟩
      · rw [hs, paddedText_zero]
      · exact absurd hs (h a zeros)
    · intro hs
      exact ⟨0, hs.trans a.paddedText_zero.symm⟩

/-- **Zeros in front of the number are passed over.** A text is read as an address exactly if it is
    `0x`, any number of zeros and the decimal digits of the slot, which are different texts for
    different addresses and numbers of zeros. Every other text is refused, and quoted. So being read
    as an address and being the text of the address are the same, but for texts with zeros in
    front. -/
theorem parse_passes_zeros (s : String) :
    (∀ a, Address.parse s = .ok a ↔ ∃ zeros, s = a.paddedText zeros) ∧
      (∀ (a b : Address) (j k : Nat), a.paddedText j = b.paddedText k ↔ a = b ∧ j = k) ∧
      (∀ e, Address.parse s = .error e ↔
        e = ⟨s⟩ ∧ ∀ (a : Address) zeros, s ≠ a.paddedText zeros) ∧
      ((∀ a, Address.parse s = .ok a ↔ s = a.text) ↔
        ∀ (a : Address) zeros, s ≠ a.paddedText (zeros + 1)) := by
  refine ⟨?_, ?_, ?_, parse_eq_ok_iff_text_iff⟩
  · intro a
    exact parse_eq_ok_iff_padded
  · intro a b j k
    exact paddedText_inj
  · intro e
    exact parse_eq_error_iff

/-- **A second spelling.** The address of slot 12 is read from a text that is not its own. -/
theorem parse_twelve_behind_zero :
    Address.parse "0x012" = .ok ⟨12⟩ ∧ (⟨12⟩ : Address).text ≠ "0x012" :=
  ⟨by decide, by decide⟩

end Address

end BitMachine
