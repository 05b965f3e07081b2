import BitMachine.Proofs.CodeLine
import BitMachine.Proofs.Literals
import BitMachine.Source.Statement

namespace BitMachine

/-!
# What source lines say

The reading of source lines as relations between texts and what they stand for. Each relation
holds for exactly those texts that the reader accepts, with the result that it gives:

* `Source.Operand.Spells` — tokens and operands;
* `Source.Mnemonic.Names` — first tokens and mnemonics;
* `Source.Suits` — the operands that a mnemonic takes;
* `Source.Says` — the tokens of a line and its statement;
* `Source.Means` — lines, and `Source.ofLine?_eq_ok_iff`.
-/

/-! ### Letters and digits -/

namespace Text

/-- What is no letter in lower case was none before. -/
theorem toLower_eq_self {c : Char} (h : c.toLower.toNat < 'a'.toNat) : c.toLower = c := by
  unfold Char.toLower at h ⊢
  split at h
  next hupper =>
    have hlow : 65 ≤ c.val.toNat := hupper.1
    have hhigh : c.val.toNat ≤ 90 := hupper.2
    have hlt : (c.val + 32).toNat < 97 := h
    rw [UInt32.toNat_add] at hlt
    simp only [UInt32.reduceToNat] at hlt
    omega
  next hupper => rw [dif_neg hupper]

theorem toLower_of_isDigit {c : Char} (h : c.isDigit = true) : c.toLower = c := by
  have hdigit := Char.isDigit_iff_toNat.mp h
  have hhigh : c.val.toNat ≤ 57 := hdigit.2
  unfold Char.toLower
  rw [dif_neg]
  rintro ⟨hlow, -⟩
  have hlow' : 65 ≤ c.val.toNat := hlow
  omega

/-- Digits have no case. -/
theorem map_toLower_of_isDigit {cs : List Char} (h : ∀ c ∈ cs, c.isDigit = true) :
    cs.map Char.toLower = cs := by
  conv_rhs => rw [← List.map_id cs]
  exact List.map_congr_left fun c hc => toLower_of_isDigit (h c hc)

/-- Digits come from digits. -/
theorem eq_of_map_toLower {cs : List Char} (h : ∀ c ∈ cs.map Char.toLower, c.isDigit = true) :
    cs.map Char.toLower = cs := by
  conv_rhs => rw [← List.map_id cs]
  refine List.map_congr_left fun c hc => toLower_eq_self ?_
  have hdigit := Char.isDigit_iff_toNat.mp (h _ (List.mem_map_of_mem hc))
  have hhigh : c.toLower.toNat ≤ 57 := hdigit.2
  show c.toLower.toNat < 97
  omega

end Text

namespace Source

open Text

/-! ### Operands -/

namespace Operand

/-- The letters that the operands of a kind start with, in lower case. -/
inductive Letters : List Char → (UInt64 → Operand) → Prop
  /-- A register. -/
  | reg : Letters ['r', 'e', 'g'] .register
  /-- A register by its other name. -/
  | idx : Letters ['i', 'd', 'x'] .register
  /-- A number. -/
  | dollar : Letters ['$'] .immediate
  /-- An address. -/
  | zerox : Letters ['0', 'x'] .address

/-- **Tokens and operands.** A token is the letters of a kind, in any case, and a numeral. -/
inductive Spells : List Char → Operand → Prop
  /-- The letters and the numeral. -/
  | intro {letters digits : List Char} {kind : UInt64 → Operand} {value : UInt64}
      (hletters : Letters (letters.map Char.toLower) kind) (hdigits : Numeral digits value) :
      Spells (letters ++ digits) (kind value)

theorem split?_eq_some_iff {cs digits : List Char} {kind : UInt64 → Operand} :
    split? cs = some (kind, digits) ↔ ∃ letters, Letters letters kind ∧ cs = letters ++ digits := by
  constructor
  · intro h
    unfold split? at h
    split at h
    · cases h
      exact ⟨_, .reg, rfl⟩
    · cases h
      exact ⟨_, .idx, rfl⟩
    · cases h
      exact ⟨_, .dollar, rfl⟩
    · cases h
      exact ⟨_, .zerox, rfl⟩
    · cases h
  · rintro ⟨letters, hletters, rfl⟩
    cases hletters <;> rfl

/-- A token is read in two parts. -/
theorem ofToken_eq_ok_iff {token : List Char} {operand : Operand} :
    ofToken token = .ok operand ↔ ∃ kind digits value,
      split? (token.map Char.toLower) = some (kind, digits) ∧ Numeral digits value ∧
        kind value = operand := by
  simp only [← readUInt64?_eq_some_iff]
  unfold ofToken readUInt64?
  cases split? (token.map Char.toLower) with
  | none => simp
  | some found =>
    obtain ⟨kind, digits⟩ := found
    cases hread : readDecimal? digits with
    | none => simp [hread]
    | some n =>
      cases hnarrow : narrow? n with
      | none => simp [hread, hnarrow]
      | some value => simp [hread, hnarrow]

/-- **The tokens of an operand** are those that are read as it. -/
theorem ofToken_eq_ok_iff_spells {token : List Char} {operand : Operand} :
    ofToken token = .ok operand ↔ Spells token operand := by
  simp only [ofToken_eq_ok_iff, split?_eq_some_iff]
  constructor
  · -- The token is read in lower case; its digits are the same in either case.
    rintro ⟨kind, digits, value, ⟨letters, hletters, hsplit⟩, hdigits, rfl⟩
    obtain ⟨first, rest, rfl, rfl, rfl⟩ := List.map_eq_append_iff.mp hsplit
    rw [eq_of_map_toLower hdigits.isDigit] at hdigits
    exact .intro hletters hdigits
  · rintro ⟨hletters, hdigits⟩
    refine ⟨_, _, _, ⟨_, hletters, ?_⟩, hdigits, rfl⟩
    rw [List.map_append, map_toLower_of_isDigit hdigits.isDigit]

/-- Numbers start with a dollar sign. -/
theorem Spells.head?_eq {token : List Char} {value : UInt64} (h : Spells token (.immediate value)) :
    token.head? = some '$' := by
  generalize hoperand : Operand.immediate value = operand at h
  cases h with
  | @intro letters _ _ _ hletters _ =>
    generalize hlower : letters.map Char.toLower = lower at hletters
    cases hletters with
    | dollar =>
      obtain ⟨c, rfl, hc⟩ := List.map_eq_singleton_iff.mp hlower
      have hself := toLower_eq_self (c := c) (by rw [hc]; decide)
      rw [← hself, hc]
      rfl
    | reg => cases hoperand
    | idx => cases hoperand
    | zerox => cases hoperand

end Operand

/-! ### Mnemonics -/

/-- **First tokens and mnemonics.** A token names a mnemonic if its upper-case form is in the
    table. -/
structure Mnemonic.Names (token : List Char) (mnemonic : Mnemonic) (spelling : String) : Prop where
  /-- The upper-case form. -/
  upper : Text.uppercase? token = some spelling.toList
  /-- The table has it. -/
  mem : (spelling, mnemonic) ∈ Mnemonic.spellings

namespace Mnemonic

theorem lookup_spellings {spelling : String} {mnemonic : Mnemonic} :
    spellings.lookup spelling = some mnemonic ↔ (spelling, mnemonic) ∈ spellings := by
  constructor
  · intro h
    obtain ⟨before, after, hsplit, -⟩ := List.lookup_eq_some_iff.mp h
    rw [hsplit]
    exact List.mem_append_right before List.mem_cons_self
  · -- No spelling is listed twice.
    have htable : ∀ entry ∈ spellings, spellings.lookup entry.1 = some entry.2 := by decide
    exact htable (spelling, mnemonic)

theorem ofToken?_eq_some_iff {token : List Char} {spelling : String} {mnemonic : Mnemonic} :
    ofToken? token = some (spelling, mnemonic) ↔ Names token mnemonic spelling := by
  unfold ofToken?
  simp only [Option.bind_eq_bind, Option.bind_eq_some_iff, lookup_spellings]
  constructor
  · rintro ⟨upper, hupper, found, hmem, hpure⟩
    cases hpure
    exact ⟨by rw [hupper, String.toList_ofList], hmem⟩
  · rintro ⟨hupper, hmem⟩
    exact ⟨_, hupper, mnemonic, by rwa [String.ofList_toList], by rw [String.ofList_toList]; rfl⟩

/-- What starts with a dollar sign names nothing. -/
theorem Names.head?_ne {token : List Char} {mnemonic : Mnemonic} {spelling : String}
    (h : Names token mnemonic spelling) : token.head? ≠ some '$' := by
  obtain ⟨hupper, hmem⟩ := h
  intro hhead
  obtain ⟨rest, rfl⟩ := List.head?_eq_some_iff.mp hhead
  -- The upper-case form would start with the dollar sign too, and no spelling does.
  have hfirst : spelling.toList.head? = some '$' := by
    unfold Text.uppercase? at hupper
    rw [Option.map_eq_some_iff] at hupper
    obtain ⟨parts, hparts, hflat⟩ := hupper
    rw [List.mapM_cons] at hparts
    simp only [Option.bind_eq_bind, Option.bind_eq_some_iff] at hparts
    obtain ⟨part, hpart, others, -, hpure⟩ := hparts
    cases hpure
    have hdollar : part = ['$'] := by
      have : upperAscii? '$' = some ['$'] := by decide
      exact Option.some.inj (hpart.symm.trans this)
    rw [← hflat, hdollar]
    rfl
  have htable : ∀ entry ∈ spellings, entry.1.toList.head? ≠ some '$' := by decide
  exact htable (spelling, mnemonic) hmem hfirst

end Mnemonic

/-! ### Statements -/

/-- **The operands that a mnemonic takes**, and the statement that they make with it. -/
inductive Suits : Mnemonic → List Operand → Statement → Prop
  /-- The slot of the next word, which is not 0. -/
  | origin {slot : UInt64} (hslot : slot ≠ 0) : Suits .origin [.address slot] (.origin ⟨slot⟩)
  /-- One number. -/
  | data (value : UInt64) : Suits .data [.immediate value] (.item (.data value))
  /-- A register and a number. -/
  | loadValue (dst value : UInt64) :
      Suits (.operation .mov) [.register dst, .immediate value] (.item (.loadValue dst value))
  /-- A register and an address. -/
  | loadFrom (dst slot : UInt64) :
      Suits (.operation .mov) [.register dst, .address slot] (.item (.loadFrom dst slot))
  /-- Three registers, the last of which is written. -/
  | arith (op : ArithOp) (lhs rhs dst : UInt64) :
      Suits (.operation (.arith op)) [.register lhs, .register rhs, .register dst]
        (.item (.arith op lhs rhs dst))
  /-- A register. -/
  | out (src : UInt64) : Suits (.operation .out) [.register src] (.item (.out src))
  /-- A number. -/
  | exit (code : UInt64) : Suits (.operation .exit) [.immediate code] (.item (.exit code))

theorem ofOperands?_eq_some_iff {mnemonic : Mnemonic} {operands : List Operand}
    {statement : Statement} :
    Statement.ofOperands? mnemonic operands = some statement ↔
      Suits mnemonic operands statement := by
  constructor
  · intro h
    unfold Statement.ofOperands? at h
    split at h
    · split at h
      · cases h
      next hslot =>
        cases h
        exact .origin hslot
    · cases h
      exact .data _
    · cases h
      exact .loadValue _ _
    · cases h
      exact .loadFrom _ _
    · cases h
      exact .arith _ _ _ _
    · cases h
      exact .out _
    · cases h
      exact .exit _
    · cases h
  · intro h
    cases h with
    | origin hslot => exact if_neg hslot
    | _ => rfl

/-- **The tokens of a line and its statement.** -/
inductive Says : List (List Char) → Statement → Prop
  /-- A number, which is all of the line. -/
  | number {token : List Char} {value : UInt64} (h : Operand.Spells token (.immediate value)) :
      Says [token] (.item (.data value))
  /-- A mnemonic and its operands. -/
  | named {head : List Char} {rest : List (List Char)} {spelling : String} {mnemonic : Mnemonic}
      {operands : List Operand} {statement : Statement}
      (hhead : Mnemonic.Names head mnemonic spelling)
      (hrest : List.Forall₂ Operand.Spells rest operands)
      (hsuits : Suits mnemonic operands statement) : Says (head :: rest) statement

theorem mapM_ofToken_eq_ok_iff {tokens : List (List Char)} {operands : List Operand} :
    tokens.mapM Operand.ofToken = .ok operands ↔
      List.Forall₂ Operand.Spells tokens operands := by
  simp only [mapM_eq_ok, Operand.ofToken_eq_ok_iff_spells]

theorem ofBareNumber_eq_ok_iff {tokens : List (List Char)} {statement : Statement} :
    Statement.ofBareNumber tokens = .ok statement ↔ ∃ token value,
      tokens = [token] ∧ Operand.Spells token (.immediate value) ∧
        statement = .item (.data value) := by
  unfold Statement.ofBareNumber
  simp only [bind_eq_ok, mapM_ofToken_eq_ok_iff]
  constructor
  · rintro ⟨operands, hoperands, hshape⟩
    split at hshape
    next value =>
      cases hshape
      obtain ⟨token, rest, hspells, hrest, rfl⟩ := List.forall₂_cons_right_iff.mp hoperands
      cases hrest
      exact ⟨token, value, rfl, hspells, rfl⟩
    next => cases hshape
  · rintro ⟨token, value, rfl, hspells, rfl⟩
    exact ⟨[.immediate value], .cons hspells .nil, rfl⟩

theorem ofMnemonic_eq_ok_iff {head : List Char} {rest : List (List Char)}
    {statement : Statement} :
    Statement.ofMnemonic head rest = .ok statement ↔ ∃ spelling mnemonic operands,
      Mnemonic.Names head mnemonic spelling ∧ List.Forall₂ Operand.Spells rest operands ∧
        Suits mnemonic operands statement := by
  unfold Statement.ofMnemonic
  simp only [bind_eq_ok, mapM_ofToken_eq_ok_iff, ← Mnemonic.ofToken?_eq_some_iff,
    ← ofOperands?_eq_some_iff]
  constructor
  · rintro ⟨operands, hoperands, hnamed⟩
    split at hnamed
    next spelling mnemonic hname =>
      split at hnamed
      next found hsuits =>
        cases hnamed
        exact ⟨spelling, mnemonic, operands, hname, hoperands, hsuits⟩
      next => cases hnamed
    next => cases hnamed
  · rintro ⟨spelling, mnemonic, operands, hname, hoperands, hsuits⟩
    refine ⟨operands, hoperands, ?_⟩
    simp only [hname, hsuits]
    rfl

theorem ofTokens?_cons (head : List Char) (rest : List (List Char)) :
    Statement.ofTokens? (head :: rest) =
      (if head.head? = some '$' then Statement.ofBareNumber (head :: rest)
        else Statement.ofMnemonic head rest) >>= fun statement => .ok (some statement) := by
  by_cases hhead : head.head? = some '$'
  · simp only [Statement.ofTokens?, if_pos hhead]
    rfl
  · simp only [Statement.ofTokens?, if_neg hhead]
    rfl

/-- **The statement of the tokens of a line.** -/
theorem ofTokens?_eq_ok_iff {tokens : List (List Char)} {statement? : Option Statement} :
    Statement.ofTokens? tokens = .ok statement? ↔
      (tokens = [] ∧ statement? = none) ∨
        ∃ statement, Says tokens statement ∧ statement? = some statement := by
  cases tokens with
  | nil =>
    constructor
    · intro h
      cases h
      exact .inl ⟨rfl, rfl⟩
    · rintro (⟨-, rfl⟩ | ⟨statement, hsaid, -⟩)
      · rfl
      · cases hsaid
  | cons head rest =>
    rw [ofTokens?_cons, bind_eq_ok]
    constructor
    · rintro ⟨statement, hstatement, hpure⟩
      cases hpure
      refine .inr ⟨statement, ?_, rfl⟩
      split at hstatement
      · obtain ⟨token, value, htokens, hspells, rfl⟩ := ofBareNumber_eq_ok_iff.mp hstatement
        rw [htokens]
        exact .number hspells
      · obtain ⟨spelling, mnemonic, operands, hname, hrest, hsuits⟩ :=
          ofMnemonic_eq_ok_iff.mp hstatement
        exact .named hname hrest hsuits
    · rintro (⟨hnil, -⟩ | ⟨statement, hsaid, rfl⟩)
      · cases hnil
      · refine ⟨statement, ?_, rfl⟩
        cases hsaid with
        | number hspells =>
          rw [if_pos hspells.head?_eq]
          exact ofBareNumber_eq_ok_iff.mpr ⟨_, _, rfl, hspells, rfl⟩
        | named hname hrest hsuits =>
          rw [if_neg hname.head?_ne]
          exact ofMnemonic_eq_ok_iff.mpr ⟨_, _, _, hname, hrest, hsuits⟩

/-! ### Lines -/

/-- **What a line means.** It has no code, or its code, in which only one kind of separator
    stands, says something. -/
inductive Means : List Char → Option Statement → Prop
  /-- A line of blanks, or of blanks and a comment. -/
  | blank {line : List Char} (hcode : CodePart line []) : Means line none
  /-- A line with code. -/
  | code {line code : List Char} {tokens : List (List Char)} {statement : Statement}
      (hcode : CodePart line code) (hunmixed : Unmixed code)
      (htokens : Spaced isSeparator code tokens) (hsaid : Says tokens statement) :
      Means line (some statement)

/-- **Lines are read as what they mean.** -/
theorem ofLine?_eq_ok_iff {line : List Char} {statement? : Option Statement} :
    Statement.ofLine? line = .ok statement? ↔ Means line statement? := by
  unfold Statement.ofLine?
  simp only [bind_eq_ok, tokens_eq_ok_iff, ofTokens?_eq_ok_iff]
  constructor
  · rintro ⟨tokens, ⟨code, hcode, hunmixed, htokens⟩, ⟨rfl, rfl⟩ | ⟨statement, hsaid, rfl⟩⟩
    · -- Code without tokens would be all separators, and it is trimmed.
      have hnil := eq_nil_of_spaced hcode.trimmed htokens
      subst hnil
      exact .blank hcode
    · exact .code hcode hunmixed htokens hsaid
  · intro h
    cases h with
    | blank hcode => exact ⟨[], ⟨[], hcode, by simp [Unmixed], .nil⟩, .inl ⟨rfl, rfl⟩⟩
    | code hcode hunmixed htokens hsaid =>
      exact ⟨_, ⟨_, hcode, hunmixed, htokens⟩, .inr ⟨_, hsaid, rfl⟩⟩

end Source

end BitMachine
