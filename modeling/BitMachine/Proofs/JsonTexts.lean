import BitMachine.Json.Reader
import BitMachine.Proofs.JsonStrings

namespace BitMachine.Json

/-!
# JSON texts are read back

The compact text of a value is read as the value, as long as the numbers and strings in it are
written as the `of` functions write them:

* `Written` — such values;
* `readNumber?_toDigits`, `readString?_escape` — a number or string is read up to its end;
* `ReadsBack` — a value that is read back with any text behind it, and `readItems?_itemChars`,
  `readMembers?_memberChars`: rows of such values;
* `Written.readsBack`, `Written.parse?_text` — **written values are read back**.
-/

/-- **Values as they are written**: numbers in decimal digits, strings with escapes. -/
inductive Written : Json → Prop
  /-- The null value. -/
  | null : Written .null
  /-- A truth value. -/
  | bool (value : Bool) : Written (.bool value)
  /-- A number. -/
  | number (n : Nat) : Written (ofNat n)
  /-- A text. -/
  | string (cs : List Char) : Written (.string (escape cs))
  /-- Written values in a row. -/
  | array {items : List Json} (h : ∀ item ∈ items, Written item) : Written (.array items)
  /-- Written values with texts as keys. -/
  | object {members : List (List Char × Json)}
      (hkeys : ∀ member ∈ members, ∃ cs, member.1 = escape cs)
      (h : ∀ member ∈ members, Written member.2) : Written (.object members)

/-! ### Numbers -/

theorem isDigit_of_mem_toDigits {n : Nat} {c : Char} (h : c ∈ Nat.toDigits 10 n) :
    c.isDigit = true :=
  Nat.isDigit_of_mem_toDigits (by decide) (by decide) h

theorem ne_of_isDigit {c d : Char} (hc : c.isDigit = true) (hd : d.isDigit = false) : c ≠ d := by
  rintro rfl
  rw [hc] at hd
  cases hd

/-- A number without zeros in front, unless it is zero. -/
theorem toDigits_cases (n : Nat) :
    Nat.toDigits 10 n = ['0'] ∨
      ∃ d ds, Nat.toDigits 10 n = d :: ds ∧ d.isDigit = true ∧ d ≠ '0' := by
  induction n using Nat.strongRecOn with
  | ind n ih =>
    rw [Nat.toDigits_eq_if (by decide)]
    split
    next hlt =>
      have htable : ∀ k < 10, [Nat.digitChar k] = ['0'] ∨
          ((Nat.digitChar k).isDigit = true ∧ Nat.digitChar k ≠ '0') := by
        decide
      rcases htable n hlt with hzero | ⟨hdigit, hne⟩
      · exact .inl hzero
      · exact .inr ⟨_, [], rfl, hdigit, hne⟩
    next hge =>
      right
      -- The front digits stand for a number that is not zero.
      rcases ih (n / 10) (by omega) with hzero | ⟨d, ds, hds, hdigit, hne⟩
      · have hvalue := Nat.ofDigitChars_toDigits (b := 10) (n := n / 10) (by decide) (by decide)
        rw [hzero] at hvalue
        have : n / 10 = 0 := hvalue.symm
        omega
      · exact ⟨d, ds ++ [(n % 10).digitChar], by rw [hds, List.cons_append], hdigit, hne⟩

/-- A text that does not go on with a number. -/
def EndsNumber (rest : List Char) : Prop :=
  ∀ c, rest.head? = some c → c.isDigit = false ∧ c ≠ '.' ∧ c ≠ 'e' ∧ c ≠ 'E'

theorem readFraction?_of_endsNumber {rest : List Char} (h : EndsNumber rest) :
    readFraction? rest = some ([], rest) := by
  unfold readFraction?
  split
  next => exact absurd rfl (h '.' rfl).2.1
  next => rfl

theorem readExponent?_of_endsNumber {rest : List Char} (h : EndsNumber rest) :
    readExponent? rest = some ([], rest) := by
  cases rest with
  | nil => rfl
  | cons c rest =>
    obtain ⟨-, -, hlower, hupper⟩ := h c rfl
    simp [readExponent?, hlower, hupper]

theorem readDigits?_append {digits rest : List Char} (hne : digits ≠ [])
    (hdigits : ∀ c ∈ digits, c.isDigit = true) (hrest : EndsNumber rest) :
    readDigits? (digits ++ rest) = some (digits, rest) := by
  have htake : rest.takeWhile Char.isDigit = [] := by
    cases rest with
    | nil => rfl
    | cons c rest => rw [List.takeWhile_cons_of_neg (by simp [(hrest c rfl).1])]
  have hdrop : rest.dropWhile Char.isDigit = rest := by
    cases rest with
    | nil => rfl
    | cons c rest => rw [List.dropWhile_cons_of_neg (by simp [(hrest c rfl).1])]
  unfold readDigits?
  rw [List.takeWhile_append_of_pos hdigits, List.dropWhile_append_of_pos hdigits, htake, hdrop,
    List.append_nil]
  cases digits with
  | nil => exact absurd rfl hne
  | cons d ds => rfl

/-- **A number is read up to its end.** -/
theorem readNumber?_toDigits (n : Nat) {rest : List Char} (hrest : EndsNumber rest) :
    readNumber? (Nat.toDigits 10 n ++ rest) = some (Nat.toDigits 10 n, rest) := by
  have hinteger : readInteger? (Nat.toDigits 10 n ++ rest) = some (Nat.toDigits 10 n, rest) := by
    rcases toDigits_cases n with hzero | ⟨d, ds, hds, -, hne⟩
    · rw [hzero]
      rfl
    · have hread := readDigits?_append (Nat.toDigits_ne_nil (b := 10) (n := n))
        (fun _ => isDigit_of_mem_toDigits) hrest
      rw [hds] at hread ⊢
      rw [List.cons_append, readInteger?, if_neg hne]
      exact hread
  have hsign : (Nat.toDigits 10 n ++ rest).head? ≠ some '-' := by
    rcases toDigits_cases n with hzero | ⟨d, ds, hds, hdigit, -⟩
    · simp [hzero]
    · rw [hds]
      rintro ⟨⟩
      cases hdigit
  unfold readNumber?
  split
  next heq =>
    split at heq
    next hminus =>
      rw [hminus] at hsign
      exact absurd rfl hsign
    next =>
      cases heq
      simp [hinteger, readFraction?_of_endsNumber hrest, readExponent?_of_endsNumber hrest]

/-! ### Strings -/

/-- A character that is neither a quote nor an escape nor a control character. -/
theorem readString?_cons {c : Char} (hquote : c ≠ '"') (hback : c ≠ '\\')
    (hctrl : ¬ c.toNat < 0x20) (rest : List Char) :
    readString? (c :: rest) = (readString? rest).map fun (s, rest) => (c :: s, rest) := by
  rw [readString?, if_neg hctrl]
  · rintro rfl
    exact absurd rfl hquote
  · rintro _ _ rfl
    exact absurd rfl hback

/-- Digits of an escape are plain characters. -/
theorem readString?_digitChar {n : Nat} (h : n < 16) (rest : List Char) :
    readString? (Nat.digitChar n :: rest) =
      (readString? rest).map fun (s, rest) => (Nat.digitChar n :: s, rest) := by
  have htable : ∀ k < 16, Nat.digitChar k ≠ '"' ∧ Nat.digitChar k ≠ '\\' ∧
      ¬ (Nat.digitChar k).toNat < 0x20 := by
    decide
  obtain ⟨hquote, hback, hctrl⟩ := htable n h
  exact readString?_cons hquote hback hctrl rest

/-- **One character** is read as it was written. -/
theorem readString?_escapeChar (c : Char) (rest : List Char) :
    readString? (escapeChar c ++ rest) =
      (readString? rest).map fun (s, rest) => (escapeChar c ++ s, rest) := by
  have hshort : ∀ d : Char, (shortEscape? d).isSome = true →
      readString? ('\\' :: d :: rest) =
        (readString? rest).map fun (s, rest) => ('\\' :: d :: s, rest) := by
    intro d hd
    rw [readString?, hd, Bool.true_or, if_pos rfl]
  unfold escapeChar
  split_ifs with hquote hback hbs hff hnl hcr htab hctrl
  · exact hshort '"' (by decide)
  · exact hshort '\\' (by decide)
  · exact hshort 'b' (by decide)
  · exact hshort 'f' (by decide)
  · exact hshort 'n' (by decide)
  · exact hshort 'r' (by decide)
  · exact hshort 't' (by decide)
  · -- A control character is written with four hexadecimal digits.
    have hhigh : c.toNat / 16 < 16 := by omega
    have hlow : c.toNat % 16 < 16 := by omega
    have hhex : startsWithHex
        ('0' :: '0' :: Nat.digitChar (c.toNat / 16) :: Nat.digitChar (c.toNat % 16) :: rest)
          = true := by
      have hzero : hexValue? '0' = some 0 := by decide
      simp [startsWithHex, hzero, hexValue?_digitChar hhigh, hexValue?_digitChar hlow]
    have hplain : ∀ tail, readString? ('0' :: tail) =
        (readString? tail).map fun (s, rest) => ('0' :: s, rest) :=
      readString?_digitChar (n := 0) (by decide)
    show readString? ('\\' :: 'u' :: '0' :: '0' :: _ :: _ :: rest) = _
    rw [readString?, hhex, hplain, hplain, readString?_digitChar hhigh, readString?_digitChar hlow]
    cases readString? rest <;> rfl
  · exact readString?_cons hquote hback hctrl rest

/-- **A string is read up to its closing quote.** -/
theorem readString?_escape (cs rest : List Char) :
    readString? (escape cs ++ '"' :: rest) = some (escape cs, rest) := by
  induction cs with
  | nil => rfl
  | cons c cs ih =>
    show readString? ((escapeChar c ++ escape cs) ++ _) = _
    rw [List.append_assoc, readString?_escapeChar, ih]
    rfl

/-! ### Rows of values -/

/-- A character that is no blank is not skipped. -/
theorem skipBlanks_cons {c : Char} (h : c ∉ [' ', '\n', '\t', '\r']) (rest : List Char) :
    skipBlanks (c :: rest) = c :: rest := by
  unfold skipBlanks
  rw [List.dropWhile_cons_of_neg]
  simpa [and_assoc] using h

/-- **A value that is read back** with any text behind it. -/
structure ReadsBack (j : Json) : Prop where
  /-- It starts with no blank, and not like the end of an array. -/
  starts : ∃ c cs, j.chars = c :: cs ∧ c ∉ [' ', '\n', '\t', '\r'] ∧ c ≠ ']'
  /-- It is read up to its end. -/
  read : ∀ fuel rest, 2 * j.chars.length ≤ fuel → EndsNumber rest →
    readValue? fuel (j.chars ++ rest) = some (j, rest)

section Rows

variable {j : Json} {fuel : Nat}

/-- A value in front of a comma or a closing bracket. -/
theorem ReadsBack.readValue?_mark (h : j.ReadsBack) (hfuel : 2 * j.chars.length ≤ fuel)
    {mark : Char} (hmark : mark ∈ [',', ']', '\x7d']) (rest : List Char) :
    readValue? fuel (skipBlanks (j.chars ++ mark :: rest)) = some (j, mark :: rest) := by
  have hends : EndsNumber (mark :: rest) := by
    rintro c ⟨⟩
    simp only [List.mem_cons, List.not_mem_nil, or_false] at hmark
    rcases hmark with rfl | rfl | rfl <;> decide
  obtain ⟨c, cs, hcs, hblank, -⟩ := h.starts
  have hskip : skipBlanks (j.chars ++ mark :: rest) = j.chars ++ mark :: rest := by
    rw [hcs, List.cons_append, skipBlanks_cons hblank]
  rw [hskip, h.read fuel _ hfuel hends]

/-- An item in front of others. -/
theorem ReadsBack.readItems?_comma (h : j.ReadsBack) (hfuel : 2 * j.chars.length ≤ fuel)
    (rest : List Char) :
    readItems? (fuel + 1) (j.chars ++ ',' :: rest) =
      (readItems? fuel rest).map fun (items, rest) => (j :: items, rest) := by
  rw [readItems?, h.readValue?_mark hfuel (by decide)]
  simp only [Option.bind_eq_bind, Option.bind_some, skipBlanks_cons (c := ',') (by decide)]
  cases readItems? fuel rest <;> rfl

/-- The last item. -/
theorem ReadsBack.readItems?_last (h : j.ReadsBack) (hfuel : 2 * j.chars.length ≤ fuel)
    (rest : List Char) :
    readItems? (fuel + 1) (j.chars ++ ']' :: rest) = some ([j], rest) := by
  rw [readItems?, h.readValue?_mark hfuel (by decide)]
  simp only [Option.bind_eq_bind, Option.bind_some, skipBlanks_cons (c := ']') (by decide)]
  rfl

/-- **The items of an array** are read up to its closing bracket. -/
theorem readItems?_itemChars {items : List Json} (hne : items ≠ [])
    (h : ∀ item ∈ items, item.ReadsBack) (hfuel : 2 * (itemChars items).length + 1 ≤ fuel)
    (rest : List Char) :
    readItems? fuel (itemChars items ++ ']' :: rest) = some (items, rest) := by
  induction items generalizing fuel with
  | nil => exact absurd rfl hne
  | cons item more ih =>
    obtain ⟨hitem, hmore⟩ := List.forall_mem_cons.mp h
    obtain ⟨fuel, rfl⟩ : ∃ k, fuel = k + 1 := ⟨fuel - 1, by omega⟩
    cases more with
    | nil => exact hitem.readItems?_last (by simpa [itemChars] using hfuel) rest
    | cons next more =>
      have hchars : itemChars (item :: next :: more) =
          item.chars ++ ',' :: itemChars (next :: more) := rfl
      rw [hchars, List.length_append, List.length_cons] at hfuel
      rw [hchars, List.append_assoc, List.cons_append, hitem.readItems?_comma (by omega),
        ih (List.cons_ne_nil _ _) hmore (by omega)]
      rfl

/-- A member in front of others. -/
theorem ReadsBack.readMembers?_comma (h : j.ReadsBack) (hfuel : 2 * j.chars.length ≤ fuel)
    (key rest : List Char) :
    readMembers? (fuel + 1) ('"' :: (escape key ++ '"' :: ':' :: (j.chars ++ ',' :: rest))) =
      (readMembers? fuel rest).map fun (members, rest) => ((escape key, j) :: members, rest) := by
  have hvalue : readValue? fuel (skipBlanks (j.chars ++ ',' :: rest)) = some (j, ',' :: rest) :=
    h.readValue?_mark hfuel (by decide) rest
  rw [readMembers?, skipBlanks_cons (by decide)]
  simp only [readString?_escape, Option.bind_eq_bind, Option.bind_some, hvalue,
    skipBlanks_cons (c := ':') (by decide), skipBlanks_cons (c := ',') (by decide)]
  cases readMembers? fuel rest <;> rfl

/-- The last member. -/
theorem ReadsBack.readMembers?_last (h : j.ReadsBack) (hfuel : 2 * j.chars.length ≤ fuel)
    (key rest : List Char) :
    readMembers? (fuel + 1) ('"' :: (escape key ++ '"' :: ':' :: (j.chars ++ '\x7d' :: rest))) =
      some ([(escape key, j)], rest) := by
  have hvalue : readValue? fuel (skipBlanks (j.chars ++ '\x7d' :: rest)) =
      some (j, '\x7d' :: rest) :=
    h.readValue?_mark hfuel (by decide) rest
  rw [readMembers?, skipBlanks_cons (by decide)]
  simp only [readString?_escape, Option.bind_eq_bind, Option.bind_some, hvalue,
    skipBlanks_cons (c := ':') (by decide), skipBlanks_cons (c := '\x7d') (by decide)]
  rfl

/-- **The members of an object** are read up to its closing brace. -/
theorem readMembers?_memberChars {members : List (List Char × Json)} (hne : members ≠ [])
    (hkeys : ∀ member ∈ members, ∃ cs, member.1 = escape cs)
    (h : ∀ member ∈ members, member.2.ReadsBack)
    (hfuel : 2 * (memberChars members).length + 1 ≤ fuel) (rest : List Char) :
    readMembers? fuel (memberChars members ++ '\x7d' :: rest) = some (members, rest) := by
  induction members generalizing fuel with
  | nil => exact absurd rfl hne
  | cons member more ih =>
    obtain ⟨key, value⟩ := member
    obtain ⟨⟨cs, rfl⟩, hmoreKeys⟩ := List.forall_mem_cons.mp hkeys
    obtain ⟨hfirst, hmore⟩ := List.forall_mem_cons.mp h
    have hvalue : value.ReadsBack := hfirst
    obtain ⟨fuel, rfl⟩ : ∃ k, fuel = k + 1 := ⟨fuel - 1, by omega⟩
    cases more with
    | nil =>
      have hchars : memberChars [(escape cs, value)] =
          '"' :: (escape cs ++ '"' :: ':' :: value.chars) := rfl
      rw [hchars, List.length_cons, List.length_append, List.length_cons, List.length_cons]
        at hfuel
      have hlength : 2 * value.chars.length ≤ fuel := by omega
      have hread := hvalue.readMembers?_last hlength cs rest
      rw [hchars]
      simpa using hread
    | cons next more =>
      have hchars : memberChars ((escape cs, value) :: next :: more) = '"' :: (escape cs ++
          '"' :: ':' :: (value.chars ++ ',' :: memberChars (next :: more))) := by
        simp [memberChars]
      rw [hchars, List.length_cons, List.length_append, List.length_cons, List.length_cons,
        List.length_append, List.length_cons] at hfuel
      have hlength : 2 * value.chars.length ≤ fuel := by omega
      have hread := hvalue.readMembers?_comma hlength cs
        (memberChars (next :: more) ++ '\x7d' :: rest)
      rw [ih (List.cons_ne_nil _ _) hmoreKeys hmore (by omega)] at hread
      rw [hchars]
      simpa using hread

end Rows

/-! ### Values -/

/-- A value is read back if it is read up to its end after its first character. -/
theorem readsBack_of_read {j : Json} {c : Char} {cs : List Char} (hchars : j.chars = c :: cs)
    (hblank : c ∉ [' ', '\n', '\t', '\r']) (hbracket : c ≠ ']')
    (hread : ∀ fuel rest, 2 * cs.length + 1 ≤ fuel → EndsNumber rest →
      readValue? (fuel + 1) (c :: (cs ++ rest)) = some (j, rest)) : j.ReadsBack := by
  refine ⟨⟨c, cs, hchars, hblank, hbracket⟩, ?_⟩
  intro fuel rest hfuel hrest
  rw [hchars, List.length_cons] at hfuel
  obtain ⟨fuel, rfl⟩ : ∃ k, fuel = k + 1 := ⟨fuel - 1, by omega⟩
  rw [hchars, List.cons_append, hread fuel rest (by omega) hrest]

theorem readsBack_null : null.ReadsBack :=
  readsBack_of_read rfl (by decide) (by decide) fun _ _ _ _ => rfl

theorem readsBack_bool (value : Bool) : (bool value).ReadsBack := by
  cases value with
  | true => exact readsBack_of_read rfl (by decide) (by decide) fun _ _ _ _ => rfl
  | false => exact readsBack_of_read rfl (by decide) (by decide) fun _ _ _ _ => rfl

theorem readsBack_ofNat (n : Nat) : (ofNat n).ReadsBack := by
  obtain ⟨d, ds, hds⟩ := List.exists_cons_of_ne_nil (Nat.toDigits_ne_nil (b := 10) (n := n))
  have hdigit : d.isDigit = true := isDigit_of_mem_toDigits (n := n) (by simp [hds])
  have hne : ∀ c : Char, c.isDigit = false → d ≠ c := fun _ => ne_of_isDigit hdigit
  have hblank : d ∉ [' ', '\n', '\t', '\r'] := by
    simp only [List.mem_cons, List.not_mem_nil, or_false, not_or]
    exact ⟨hne _ (by decide), hne _ (by decide), hne _ (by decide), hne _ (by decide)⟩
  refine readsBack_of_read hds hblank (hne ']' (by decide)) ?_
  intro fuel rest _ hrest
  have hread := readNumber?_toDigits n hrest
  rw [hds, List.cons_append] at hread
  -- A digit starts a value of no other kind.
  rw [readValue?, if_neg (hne _ (by decide)), if_neg (hne _ (by decide)),
    if_neg (hne _ (by decide)), if_neg (hne _ (by decide)), if_neg (hne _ (by decide)),
    if_neg (hne _ (by decide)), hread, ofNat, hds]
  rfl

theorem readsBack_string (cs : List Char) : (string (escape cs)).ReadsBack := by
  refine readsBack_of_read rfl (by decide) (by decide) fun fuel rest _ _ => ?_
  show readValue? (fuel + 1) ('"' :: (escape cs ++ ['"'] ++ rest)) = _
  rw [readValue?, if_pos rfl, List.append_assoc, List.singleton_append, readString?_escape]
  rfl

/-- An array is read back if its items are. -/
theorem readsBack_array {items : List Json} (h : ∀ item ∈ items, item.ReadsBack) :
    (array items).ReadsBack := by
  refine readsBack_of_read rfl (by decide) (by decide) fun fuel rest hfuel _ => ?_
  show readValue? (fuel + 1) ('[' :: (itemChars items ++ [']'] ++ rest)) = _
  rw [readValue?, if_neg (by decide), if_pos rfl, List.append_assoc, List.singleton_append]
  cases items with
  | nil => rfl
  | cons item more =>
    have hitems : readItems? fuel (itemChars (item :: more) ++ ']' :: rest) =
        some (item :: more, rest) := by
      refine readItems?_itemChars (List.cons_ne_nil item more) h ?_ rest
      have hlength : 2 * (itemChars (item :: more) ++ [']']).length + 1 ≤ fuel := hfuel
      rw [List.length_append] at hlength
      omega
    -- The first item is no closing bracket.
    obtain ⟨c, cs, hcs, hblank, hbracket⟩ := (h item List.mem_cons_self).starts
    obtain ⟨tail, htail⟩ : ∃ tail, itemChars (item :: more) ++ ']' :: rest = c :: tail := by
      cases more with
      | nil => exact ⟨cs ++ ']' :: rest, by rw [itemChars, hcs, List.cons_append]⟩
      | cons next more =>
        have hchars : itemChars (item :: next :: more) =
            item.chars ++ ',' :: itemChars (next :: more) := rfl
        exact ⟨_, by rw [hchars, hcs, List.cons_append, List.cons_append]⟩
    rw [htail] at hitems ⊢
    rw [skipBlanks_cons hblank]
    split
    next heq =>
      cases heq
      exact absurd rfl hbracket
    next => rw [hitems, Option.map_some]

/-- An object is read back if its keys are texts and its values are read back. -/
theorem readsBack_object {members : List (List Char × Json)}
    (hkeys : ∀ member ∈ members, ∃ cs, member.1 = escape cs)
    (h : ∀ member ∈ members, member.2.ReadsBack) : (object members).ReadsBack := by
  refine readsBack_of_read rfl (by decide) (by decide) fun fuel rest hfuel _ => ?_
  show readValue? (fuel + 1) ('\x7b' :: (memberChars members ++ ['\x7d'] ++ rest)) = _
  rw [readValue?, if_neg (by decide), if_neg (by decide), if_pos rfl, List.append_assoc,
    List.singleton_append]
  cases members with
  | nil => rfl
  | cons member more =>
    have hmembers : readMembers? fuel (memberChars (member :: more) ++ '\x7d' :: rest) =
        some (member :: more, rest) := by
      refine readMembers?_memberChars (List.cons_ne_nil member more) hkeys h ?_ rest
      have hlength : 2 * (memberChars (member :: more) ++ ['\x7d']).length + 1 ≤ fuel := hfuel
      rw [List.length_append] at hlength
      omega
    -- The first member starts with a quote.
    obtain ⟨tail, htail⟩ : ∃ tail,
        memberChars (member :: more) ++ '\x7d' :: rest = '"' :: tail := by
      obtain ⟨key, value⟩ := member
      cases more with
      | nil => exact ⟨_, rfl⟩
      | cons next more => exact ⟨_, rfl⟩
    rw [htail] at hmembers ⊢
    rw [skipBlanks_cons (by decide)]
    show (readMembers? fuel ('"' :: tail)).map _ = _
    rw [hmembers, Option.map_some]

/-- **Written values are read back**, by induction on how they are made up. -/
theorem Written.readsBack {j : Json} (h : j.Written) : j.ReadsBack := by
  induction h with
  | null => exact readsBack_null
  | bool value => exact readsBack_bool value
  | number n => exact readsBack_ofNat n
  | string cs => exact readsBack_string cs
  | array _ ih => exact readsBack_array ih
  | object hkeys _ ih => exact readsBack_object hkeys ih

/-- **The text of a written value** is read as the value. -/
theorem Written.parse?_text {j : Json} (h : j.Written) : parse? j.text = some j := by
  obtain ⟨c, cs, hcs, hblank, -⟩ := h.readsBack.starts
  have hskip : skipBlanks j.chars = j.chars := by rw [hcs, skipBlanks_cons hblank]
  have hread := h.readsBack.read (2 * j.chars.length + 2) [] (by omega) nofun
  rw [List.append_nil] at hread
  unfold parse? text
  rw [String.toList_ofList, hskip]
  simp only [hread, Option.bind_eq_bind, Option.bind_some]
  rfl

end BitMachine.Json
