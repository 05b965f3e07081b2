import BitMachine.Json.Basic
import BitMachine.Proofs.Results
import Mathlib.Tactic.SplitIfs

namespace BitMachine.Json

/-!
# Strings in JSON are read back

A text that is written as a JSON string is the text that the string stands for, and the members
that an object is made of are its members:

* `codes?_escape` — the code points of a written text are those of its characters;
* `unescape?_escape` — a written text is read as the text;
* `text?_ofString`, `members?_ofMembers` — the same for string values and for objects.
-/

/-! ### Escapes -/

theorem hexValue?_digitChar {n : Nat} (h : n < 16) : hexValue? (Nat.digitChar n) = some n := by
  have htable : ∀ n < 16, hexValue? (Nat.digitChar n) = some n := by decide
  exact htable n h

/-- A character that is no backslash stands for itself. -/
theorem codes?_cons {c : Char} (h : c ≠ '\\') (rest : List Char) :
    codes? (c :: rest) = (codes? rest).map (c.toNat :: ·) := by
  rw [codes?]
  · cases codes? rest <;> rfl
  · rintro _ _ _ _ _ rfl
    exact absurd rfl h
  · rintro _ _ rfl
    exact absurd rfl h

/-- **One character** is written as an escape or as itself, and stands for its code point. -/
theorem codes?_escapeChar (c : Char) (rest : List Char) :
    codes? (escapeChar c ++ rest) = (codes? rest).map (c.toNat :: ·) := by
  have hshort : ∀ d : Char, ∀ n, d ≠ 'u' → shortEscape? d = some n →
      codes? ('\\' :: d :: rest) = (codes? rest).map (n :: ·) := by
    intro d n hd hn
    rw [codes?]
    · rw [hn]
      cases codes? rest <;> rfl
    · rintro _ _ _ _ _ rfl
      exact absurd rfl hd
  unfold escapeChar
  split_ifs with hquote hback hbs hff hnl hcr htab hctrl
  · rw [hquote]
    exact hshort '"' _ (by decide) (by decide)
  · rw [hback]
    exact hshort '\\' _ (by decide) (by decide)
  · rw [hbs]
    exact hshort 'b' _ (by decide) (by decide)
  · rw [hff]
    exact hshort 'f' _ (by decide) (by decide)
  · rw [hnl]
    exact hshort 'n' _ (by decide) (by decide)
  · rw [hcr]
    exact hshort 'r' _ (by decide) (by decide)
  · rw [htab]
    exact hshort 't' _ (by decide) (by decide)
  · -- A control character is written with two hexadecimal digits.
    have hzero : hexValue? '0' = some 0 := by decide
    have hhigh : hexValue? (Nat.digitChar (c.toNat / 16)) = some (c.toNat / 16) :=
      hexValue?_digitChar (by omega)
    have hlow : hexValue? (Nat.digitChar (c.toNat % 16)) = some (c.toNat % 16) :=
      hexValue?_digitChar (by omega)
    have hcode : ((0 * 16 + 0) * 16 + c.toNat / 16) * 16 + c.toNat % 16 = c.toNat := by omega
    show codes? ('\\' :: 'u' :: '0' :: '0' :: _ :: _ :: rest) = _
    rw [codes?, hzero, hhigh, hlow]
    simp only [Option.bind_eq_bind, Option.bind_some, hcode]
    cases codes? rest <;> rfl
  · exact codes?_cons hback rest

/-- The code points of a written text are those of its characters. -/
theorem codes?_escape (cs : List Char) : codes? (escape cs) = some (cs.map Char.toNat) := by
  induction cs with
  | nil => rfl
  | cons c cs ih =>
    show codes? (escapeChar c ++ escape cs) = _
    rw [codes?_escapeChar, ih]
    rfl

/-! ### Code points -/

/-- The code point of a character is no half of a surrogate pair. -/
theorem not_surrogate (c : Char) :
    isHighSurrogate c.toNat = false ∧ isLowSurrogate c.toNat = false := by
  have hvalid : c.toNat < 0xD800 ∨ 0xDFFF < c.toNat ∧ c.toNat < 0x110000 := c.valid
  unfold isHighSurrogate isLowSurrogate
  simp only [Bool.and_eq_false_iff, decide_eq_false_iff_not]
  omega

/-- Characters are the characters of their code points. -/
theorem joinSurrogates?_map_toNat (cs : List Char) :
    joinSurrogates? (cs.map Char.toNat) = some cs := by
  induction cs with
  | nil => rfl
  | cons c cs ih =>
    obtain ⟨hhigh, hlow⟩ := not_surrogate c
    -- The next code point would only be looked at behind the first half of a pair.
    cases cs with
    | nil => simp [joinSurrogates?, hhigh, hlow, Char.ofNat_toNat]
    | cons d ds =>
      rw [List.map_cons] at ih
      simp [joinSurrogates?, hhigh, hlow, ih, Char.ofNat_toNat]

/-! ### Values -/

/-- **A written text is read as the text.** -/
theorem unescape?_escape (cs : List Char) : unescape? (escape cs) = some cs := by
  unfold unescape?
  rw [codes?_escape]
  exact joinSurrogates?_map_toNat cs

@[simp] theorem text?_ofString (s : String) : (ofString s).text? = some s := by
  show (unescape? (escape s.toList)).map String.ofList = some s
  rw [unescape?_escape, Option.map_some, String.ofList_toList]

/-- **The members that an object is made of** are its members. -/
@[simp] theorem members?_ofMembers (members : List (String × Json)) :
    (ofMembers members).members? = some members := by
  apply mapM_map_eq_some
  intro member
  show (unescape? (escape member.1.toList)).map (fun key => (String.ofList key, member.2)) = _
  rw [unescape?_escape, Option.map_some, String.ofList_toList]

end BitMachine.Json
