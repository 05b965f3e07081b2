import BitMachine.Proofs.Encoding
import BitMachine.Proofs.ImageRoundTrip
import BitMachine.Proofs.Printing
import BitMachine.Proofs.Statements

namespace BitMachine

/-!
# Printed lines

Tokens that are written with single spaces between them are a source line, and the line means what
the tokens say. The disassembly of an item is such a line, and so is an ORG:

* `Source.Plain` and `Source.means_intercalate_iff` — lines of plain tokens and what they mean;
* `Source.Item.pieces` and `Source.Item.toList_disassemble_word` — the tokens of a disassembled
  item;
* `Source.Item.says_pieces_iff` — they say the item, unless its number is too large to be read;
* `Source.says_originPieces_iff` — what the tokens of an ORG say.
-/

namespace Source

open Text

/-! ### Lines of plain tokens -/

/-- A token that has neither blanks nor the mark of a comment. -/
def Plain (t : List Char) : Prop :=
  t ≠ [] ∧ ∀ c ∈ t, isBlank c = false ∧ c ≠ '#'

instance (t : List Char) : Decidable (Plain t) :=
  decidable_of_iff (t ≠ [] ∧ t.all (fun c => !isBlank c && c != '#') = true) (by simp [Plain])

theorem Plain.append {front rear : List Char} (hfront : Plain front)
    (hrear : ∀ c ∈ rear, isBlank c = false ∧ c ≠ '#') : Plain (front ++ rear) := by
  obtain ⟨hne, hchars⟩ := hfront
  refine ⟨List.append_ne_nil_of_left_ne_nil hne rear, ?_⟩
  intro c hc
  rcases List.mem_append.mp hc with hc | hc
  · exact hchars c hc
  · exact hrear c hc

theorem plain_of_isDigit {c : Char} (h : c.isDigit = true) : isBlank c = false ∧ c ≠ '#' := by
  refine ⟨isBlank_of_isDigit h, ?_⟩
  rintro rfl
  cases h

section Line

variable {ts : List (List Char)}

theorem Plain.no_blanks (h : ∀ t ∈ ts, Plain t) :
    ∀ t ∈ ts, t ≠ [] ∧ ∀ c ∈ t, isBlank c = false :=
  fun t ht => ⟨(h t ht).1, fun c hc => ((h t ht).2 c hc).1⟩

/-- A line of plain tokens has characters of tokens and spaces. -/
theorem mem_line (h : ∀ t ∈ ts, Plain t) {c : Char} (hc : c ∈ [' '].intercalate ts) :
    c = ' ' ∨ isBlank c = false ∧ c ≠ '#' := by
  rcases mem_intercalate hc with rfl | ⟨t, ht, hmem⟩
  · exact .inl rfl
  · exact .inr ((h t ht).2 c hmem)

/-- A line of plain tokens is all code. -/
theorem codePart_line (h : ∀ t ∈ ts, Plain t) :
    CodePart ([' '].intercalate ts) ([' '].intercalate ts) := by
  -- There is nothing to trim and no comment, so no part of the line is cut off.
  have htrimmed : Trimmed ([' '].intercalate ts) :=
    ⟨fun c hc => head_intercalate (Plain.no_blanks h) hc,
      fun c hc => last_intercalate (Plain.no_blanks h) hc⟩
  have hmark : '#' ∉ [' '].intercalate ts := by
    intro hc
    rcases mem_line h hc with heq | ⟨-, hne⟩
    · cases heq
    · exact hne rfl
  have hfree : CommentFree true ([] ++ [' '].intercalate ts) := (commentFree_nil true).append hmark
  have hcode := @CodePart.plain [] _ [] nofun htrimmed hfree nofun
  rwa [List.nil_append, List.append_nil] at hcode

/-- **A line of plain tokens means what its tokens say**, and nothing else. -/
theorem means_intercalate_iff (h : ∀ t ∈ ts, Plain t) (hne : ts ≠ []) {x : Option Statement} :
    Means ([' '].intercalate ts) x ↔ ∃ statement, Says ts statement ∧ x = some statement := by
  have hcode := codePart_line h
  have hspaced : Spaced isSeparator ([' '].intercalate ts) ts := by
    refine spaced_intercalate rfl fun t ht => ⟨(h t ht).1, fun c hc => ?_⟩
    exact isSeparator_eq_false ((h t ht).2 c hc).1
  constructor
  · -- The code of the line is the line, and it has these tokens and no others.
    intro hmeans
    cases hmeans with
    | blank hother =>
      have hnil : [' '].intercalate ts = [] :=
        (codePart_eq_iff.mpr hcode).symm.trans (codePart_eq_iff.mpr hother)
      obtain ⟨t, us, rfl⟩ := List.exists_cons_of_ne_nil hne
      exact absurd hnil (intercalate_ne_nil ' ' (h t List.mem_cons_self).1 us)
    | @code code tokens statement hother _ htokens hsaid =>
      have heq : [' '].intercalate ts = code :=
        (codePart_eq_iff.mpr hcode).symm.trans (codePart_eq_iff.mpr hother)
      subst heq
      have hts : ts = tokens := hspaced.pieces_eq.symm.trans htokens.pieces_eq
      subst hts
      exact ⟨statement, hsaid, rfl⟩
  · rintro ⟨statement, hsaid, rfl⟩
    refine .code hcode ?_ hspaced hsaid
    rintro ⟨-, htab⟩
    rcases mem_line h htab with heq | ⟨hblank, -⟩
    · cases heq
    · cases hblank

/-- A line of plain tokens does not end before its end. -/
theorem unbroken_line (h : ∀ t ∈ ts, Plain t) : Unbroken ([' '].intercalate ts) := by
  intro c hc
  rcases mem_line h hc with rfl | ⟨hblank, -⟩
  · decide
  · constructor
    · rintro rfl
      cases hblank
    · rintro rfl
      cases hblank

end Line

/-! ### Disassembled items -/

theorem plain_registerChars (n : UInt64) : Plain (registerChars n) := by
  have hfront : Plain ['r', 'e', 'g'] := by decide
  refine hfront.append fun c hc => plain_of_isDigit ?_
  exact (Address.numeral_toDigits n).isDigit c hc

theorem plain_numberChars (n : UInt64) : Plain (numberChars n.toNat) := by
  have hfront : Plain ['$'] := by decide
  refine hfront.append fun c hc => plain_of_isDigit ?_
  exact (Address.numeral_toDigits n).isDigit c hc

theorem plain_address (a : Address) : Plain a.text.toList := by
  rw [Address.toList_text]
  have hfront : Plain ['0', 'x'] := by decide
  refine hfront.append fun c hc => plain_of_isDigit ?_
  exact (Address.numeral_toDigits a.slot).isDigit c hc

/-- The characters of the number of an item. -/
def valueChars (width : Nat) (value : UInt64) : List Char :=
  (encodeUnsigned value width).immediateText.toList

theorem valueChars_of_lt (width : Nat) {value : UInt64} (h : value.toNat < signedLimit) :
    valueChars width value = numberChars value.toNat := by
  have hlt : (encodeUnsigned value width).magnitude < signedLimit := by
    rwa [magnitude_encodeUnsigned]
  unfold valueChars
  rw [Bits.toList_immediateText_of_lt rfl hlt, magnitude_encodeUnsigned]

theorem valueChars_of_le (width : Nat) {value : UInt64} (h : signedLimit ≤ value.toNat) :
    valueChars width value = '%' :: (encodeUnsigned value width).chars := by
  have hle : signedLimit ≤ (encodeUnsigned value width).magnitude := by
    rwa [magnitude_encodeUnsigned]
  exact Bits.toList_immediateText_of_le rfl hle

theorem plain_valueChars (width : Nat) (value : UInt64) : Plain (valueChars width value) := by
  by_cases h : value.toNat < signedLimit
  · rw [valueChars_of_lt width h]
    exact plain_numberChars value
  · rw [valueChars_of_le width (Nat.le_of_not_lt h)]
    have hfront : Plain ['%'] := by decide
    refine hfront.append fun c hc => ?_
    rcases Bits.mem_chars hc with rfl | rfl | rfl <;> decide

namespace Item

/-- **The tokens of a disassembled item.** -/
def pieces (width : Nat) : Item → List (List Char)
  | .data value => ["DAT".toList, valueChars width value]
  | .loadValue dst value => ["MOV".toList, registerChars dst, valueChars width value]
  | .loadFrom dst slot => ["MOV".toList, registerChars dst, (Address.mk slot).text.toList]
  | .arith op lhs rhs dst =>
    [(Opcode.arith op).mnemonic.toList, registerChars lhs, registerChars rhs, registerChars dst]
  | .out src => ["OUT".toList, registerChars src]
  | .exit code => ["EXIT".toList, numberChars code.toNat]

theorem plain_mnemonic (op : Opcode) : Plain op.mnemonic.toList := by
  cases op with
  | arith op => cases op <;> decide
  | _ => decide

theorem plain_pieces (width : Nat) (item : Item) : ∀ t ∈ item.pieces width, Plain t := by
  cases item with
  | data value =>
    simp only [pieces, List.forall_mem_cons]
    exact ⟨by decide, plain_valueChars width value, nofun⟩
  | loadValue dst value =>
    simp only [pieces, List.forall_mem_cons]
    exact ⟨by decide, plain_registerChars dst, plain_valueChars width value, nofun⟩
  | loadFrom dst slot =>
    simp only [pieces, List.forall_mem_cons]
    exact ⟨by decide, plain_registerChars dst, plain_address ⟨slot⟩, nofun⟩
  | arith op lhs rhs dst =>
    simp only [pieces, List.forall_mem_cons]
    exact ⟨plain_mnemonic _, plain_registerChars lhs, plain_registerChars rhs,
      plain_registerChars dst, nofun⟩
  | out src =>
    simp only [pieces, List.forall_mem_cons]
    exact ⟨by decide, plain_registerChars src, nofun⟩
  | exit code =>
    simp only [pieces, List.forall_mem_cons]
    exact ⟨by decide, plain_numberChars code, nofun⟩

/-- The disassembly of an item that is no data is the text of its instruction. -/
theorem toList_disassemble_of_instruction {width : Nat} {item : Item} {i : Instruction}
    (h : item.instruction? width = some i) :
    ((item.word width).disassemble canonicalLength).toList =
      [' '].intercalate (i.opcode.mnemonic.toList :: i.writtenOperands) := by
  have hlong : canonicalLength ≤ (item.word width).size := two_le_size_word h
  rw [Word.disassemble_of_decode hlong (decode_word h), Instruction.toList_text]

/-- **The disassembly of an item** is its tokens with single spaces between them. -/
theorem toList_disassemble_word (width : Nat) (item : Item) :
    ((item.word width).disassemble canonicalLength).toList =
      [' '].intercalate (item.pieces width) := by
  cases item with
  | data value =>
    -- Data is one token, and so too short to be taken for an instruction.
    have hshort : (Item.word width (.data value)).size < canonicalLength := Nat.lt_succ_self 1
    rw [Word.disassemble_of_short hshort rfl, String.toList_append]
    simp [pieces, valueChars, List.intercalate_cons_cons]
  | loadValue dst value =>
    have hi : (Item.loadValue dst value).instruction? width =
        some (.mov dst (.immediate (encodeUnsigned value width))) := rfl
    exact toList_disassemble_of_instruction hi
  | loadFrom dst slot =>
    have hi : (Item.loadFrom dst slot).instruction? width = some (.mov dst (.address ⟨slot⟩)) := rfl
    exact toList_disassemble_of_instruction hi
  | arith op lhs rhs dst =>
    have hi : (Item.arith op lhs rhs dst).instruction? width = some (.arith op lhs rhs dst) := rfl
    exact toList_disassemble_of_instruction hi
  | out src =>
    have hi : (Item.out src).instruction? width = some (.out src) := rfl
    exact toList_disassemble_of_instruction hi
  | exit code =>
    have hi : (Item.exit code).instruction? width = some (.exit code) := rfl
    exact toList_disassemble_of_instruction hi

/-- The number of an item that is written like data. -/
def value? : Item → Option UInt64
  | .data value => some value
  | .loadValue _ value => some value
  | _ => none

/-- Whether a source text can say an item with its disassembly: its number is below 2^63. -/
def Readable (item : Item) : Prop :=
  ∀ value, item.value? = some value → value.toNat < signedLimit

end Item

/-! ### What the tokens of an item say -/

theorem Says.unique {ts : List (List Char)} {x y : Statement} (hx : Says ts x) (hy : Says ts y) :
    x = y := by
  have htokens := ofTokens?_eq_ok_iff.mpr (.inr ⟨x, hx, rfl⟩)
  rw [ofTokens?_eq_ok_iff.mpr (.inr ⟨y, hy, rfl⟩)] at htokens
  cases htokens
  rfl

/-- Behind the first token only operands say something. -/
theorem Says.spells_of_mem {head : List Char} {rest : List (List Char)} {statement : Statement}
    (h : Says (head :: rest) statement) : ∀ t ∈ rest, ∃ operand, Operand.Spells t operand := by
  cases h with
  | number => exact nofun
  | named _ hrest hsuits =>
    -- The tokens are spelled as operands, whether or not these suit the mnemonic.
    clear hsuits
    induction hrest with
    | nil => exact nofun
    | cons hspells _ ih => exact List.forall_mem_cons.mpr ⟨⟨_, hspells⟩, ih⟩

namespace Operand

/-- A number in binary is no operand. -/
theorem not_spells_percent (cs : List Char) (operand : Operand) : ¬ Spells ('%' :: cs) operand := by
  rw [← ofToken_eq_ok_iff_spells]
  -- No kind of operand starts with a percent sign.
  have hsplit : split? (('%' :: cs).map Char.toLower) = none := rfl
  unfold ofToken
  rw [hsplit]
  nofun

theorem spells_registerChars (n : UInt64) : Spells (registerChars n) (.register n) :=
  @Spells.intro ['r', 'e', 'g'] _ .register n .reg (Address.numeral_toDigits n)

theorem spells_numberChars (n : UInt64) : Spells (numberChars n.toNat) (.immediate n) :=
  @Spells.intro ['$'] _ .immediate n .dollar (Address.numeral_toDigits n)

theorem spells_address (a : Address) : Spells a.text.toList (.address a.slot) := by
  rw [Address.toList_text]
  exact @Spells.intro ['0', 'x'] _ .address a.slot .zerox (Address.numeral_toDigits a.slot)

end Operand

theorem names_mnemonic (op : Opcode) :
    Mnemonic.Names op.mnemonic.toList (.operation op) op.mnemonic := by
  cases op with
  | arith op => cases op <;> exact ⟨by decide, by decide⟩
  | _ => exact ⟨by decide, by decide⟩

namespace Item

open Operand

/-- The tokens of an item whose number can be read say the item. -/
theorem says_pieces (width : Nat) {item : Item} (h : item.Readable) :
    Says (item.pieces width) (.item item) := by
  cases item with
  | data value =>
    have hspells := spells_numberChars value
    rw [← valueChars_of_lt width (h value rfl)] at hspells
    have hname : Mnemonic.Names "DAT".toList .data "DAT" := ⟨by decide, by decide⟩
    exact .named hname (.cons hspells .nil) (.data value)
  | loadValue dst value =>
    have hspells := spells_numberChars value
    rw [← valueChars_of_lt width (h value rfl)] at hspells
    exact .named (names_mnemonic .mov) (.cons (spells_registerChars dst) (.cons hspells .nil))
      (.loadValue dst value)
  | loadFrom dst slot =>
    exact .named (names_mnemonic .mov)
      (.cons (spells_registerChars dst) (.cons (spells_address ⟨slot⟩) .nil)) (.loadFrom dst slot)
  | arith op lhs rhs dst =>
    exact .named (names_mnemonic (.arith op))
      (.cons (spells_registerChars lhs)
        (.cons (spells_registerChars rhs) (.cons (spells_registerChars dst) .nil)))
      (.arith op lhs rhs dst)
  | out src =>
    exact .named (names_mnemonic .out) (.cons (spells_registerChars src) .nil) (.out src)
  | exit code =>
    exact .named (names_mnemonic .exit) (.cons (spells_numberChars code) .nil) (.exit code)

/-- The tokens of an item whose number is too large say nothing. -/
theorem not_says_pieces (width : Nat) {item : Item} {value : UInt64}
    (h : item.value? = some value) (hle : signedLimit ≤ value.toNat) (statement : Statement) :
    ¬ Says (item.pieces width) statement := by
  intro hsaid
  -- The number stands behind the mnemonic, where it would have to be an operand.
  have hrefused : ∀ operand, ¬ Spells (valueChars width value) operand := by
    rw [valueChars_of_le width hle]
    exact not_spells_percent _
  cases item with
  | data other =>
    cases h
    obtain ⟨operand, hspells⟩ := hsaid.spells_of_mem (valueChars width value) (by simp)
    exact hrefused operand hspells
  | loadValue dst other =>
    cases h
    obtain ⟨operand, hspells⟩ := hsaid.spells_of_mem (valueChars width value) (by simp)
    exact hrefused operand hspells
  | _ => cases h

/-- **The tokens of an item say the item**, and nothing at all if its number is too large. -/
theorem says_pieces_iff (width : Nat) (item : Item) (statement : Statement) :
    Says (item.pieces width) statement ↔ item.Readable ∧ statement = .item item := by
  constructor
  · intro hsaid
    have hreadable : item.Readable := by
      intro value hvalue
      by_contra hle
      exact not_says_pieces width hvalue (Nat.le_of_not_lt hle) statement hsaid
    exact ⟨hreadable, hsaid.unique (says_pieces width hreadable)⟩
  · rintro ⟨hreadable, rfl⟩
    exact says_pieces width hreadable

end Item

/-! ### The tokens of an ORG -/

/-- The tokens of an ORG. -/
def originPieces (addr : Address) : List (List Char) :=
  ["ORG".toList, addr.text.toList]

theorem plain_originPieces (addr : Address) : ∀ t ∈ originPieces addr, Plain t := by
  simp only [originPieces, List.forall_mem_cons]
  exact ⟨by decide, plain_address addr, nofun⟩

theorem says_originPieces_iff {addr : Address} (h : addr.slot ≠ 0) (statement : Statement) :
    Says (originPieces addr) statement ↔ statement = .origin addr := by
  have hname : Mnemonic.Names "ORG".toList .origin "ORG" := ⟨by decide, by decide⟩
  have hsaid : Says (originPieces addr) (.origin addr) :=
    .named hname (.cons (Operand.spells_address addr) .nil) (.origin h)
  constructor
  · exact fun hother => hother.unique hsaid
  · rintro rfl
    exact hsaid

end Source

end BitMachine
