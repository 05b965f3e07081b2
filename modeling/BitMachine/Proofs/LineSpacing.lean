import BitMachine.Proofs.CodeLine
import BitMachine.Source.Assembly
import Mathlib.Data.List.Forall2

namespace BitMachine.Source

open Text

/-!
# The spacing of source lines

The same tokens can be written with different spacing and different comments:

* `IsToken`, `Separated` — tokens, and a text of tokens with gaps between them;
* `Trailing` — what may stand behind the code of a line;
* `LaidOut` — how a line is laid out, with what it shows, and `LaidOut.tokens_eq`: that is what
  is read;
* `spacing_irrelevant` — source texts whose lines show the same are assembled alike.
-/

/-! ### Rows of tokens -/

/-- What can stand as a token: there is no blank in it, and it does not start a comment. -/
structure IsToken (t : List Char) : Prop where
  /-- There is something. -/
  ne_nil : t ≠ []
  /-- No character is a blank. -/
  solid : ∀ c ∈ t, isBlank c = false
  /-- The first character is no comment mark. The others may be. -/
  start : t.head? ≠ some '#'

theorem isToken_iff {t : List Char} :
    IsToken t ↔ t ≠ [] ∧ (t.all fun c => !isBlank c) = true ∧ t.head? ≠ some '#' := by
  have hall : (t.all fun c => !isBlank c) = true ↔ ∀ c ∈ t, isBlank c = false := by simp
  rw [hall]
  constructor
  · rintro ⟨hne, hsolid, hstart⟩
    exact ⟨hne, hsolid, hstart⟩
  · rintro ⟨hne, hsolid, hstart⟩
    exact ⟨hne, hsolid, hstart⟩

instance (t : List Char) : Decidable (IsToken t) :=
  decidable_of_iff _ isToken_iff.symm

/-- One or more tokens, with gaps of characters that satisfy `p` between them. -/
inductive Separated (p : Char → Bool) : List (List Char) → List Char → Prop
  /-- A single token. -/
  | single {t : List Char} (ht : IsToken t) : Separated p [t] t
  /-- A token in front of a gap and further tokens. -/
  | cons {t gap row : List Char} {ts : List (List Char)} (ht : IsToken t) (hne : gap ≠ [])
      (hgap : ∀ c ∈ gap, p c = true) (h : Separated p ts row) :
      Separated p (t :: ts) (t ++ (gap ++ row))

section Rows

variable {p : Char → Bool} {ts : List (List Char)} {row : List Char}

/-- No comment starts in characters that are no blanks, if none can start in front of them. -/
theorem commentFree_of_solid {cs : List Char} (h : ∀ c ∈ cs, isBlank c = false) :
    CommentFree false cs := by
  rintro front rear rfl
  unfold opens
  cases hlast : front.getLast? with
  | none => rfl
  | some c =>
    have hblank := h c (List.mem_append_left _ (List.mem_of_getLast? hlast))
    simpa using isSeparator_eq_false hblank

/-- No comment starts in a token. -/
theorem IsToken.commentFree {t : List Char} (h : IsToken t) (gap : Bool) : CommentFree gap t := by
  cases t with
  | nil => exact commentFree_nil gap
  | cons c cs =>
    obtain ⟨hc, hcs⟩ := List.forall_mem_cons.mp h.solid
    have hmark : c ≠ '#' := by simpa using h.start
    refine commentFree_cons.mpr ⟨fun hstart => hmark hstart.2, ?_⟩
    rw [isSeparator_eq_false hc]
    exact commentFree_of_solid hcs

theorem Separated.ne_nil (h : Separated p ts row) : row ≠ [] := by
  cases h with
  | single ht => exact ht.ne_nil
  | cons ht _ _ _ => exact List.append_ne_nil_of_left_ne_nil ht.ne_nil _

/-- The characters are those of tokens and gaps. -/
theorem Separated.mem (h : Separated p ts row) {c : Char} (hc : c ∈ row) :
    isBlank c = false ∨ p c = true := by
  induction h with
  | single ht => exact .inl (ht.solid c hc)
  | cons ht _ hgap _ ih =>
    rw [List.mem_append, List.mem_append] at hc
    rcases hc with hc | hc | hc
    · exact .inl (ht.solid c hc)
    · exact .inr (hgap c hc)
    · exact ih hc

/-- A row starts and ends with tokens, so nothing of it is trimmed away. -/
theorem Separated.trimmed (h : Separated p ts row) : Trimmed row := by
  induction h with
  | single ht =>
    exact ⟨fun c hc => ht.solid c (List.mem_of_head? hc),
      fun c hc => ht.solid c (List.mem_of_getLast? hc)⟩
  | cons ht _ _ hrow ih =>
    constructor
    case head =>
      intro c hc
      rw [List.head?_append_of_ne_nil _ ht.ne_nil] at hc
      exact ht.solid c (List.mem_of_head? hc)
    case last =>
      intro c hc
      rw [← List.append_assoc, List.getLast?_append_of_ne_nil _ hrow.ne_nil] at hc
      exact ih.last c hc

/-- No comment starts in a row, neither in a token nor in a gap. -/
theorem Separated.commentFree (hp : ∀ c, p c = true → isBlank c = true)
    (h : Separated p ts row) (gap : Bool) : CommentFree gap row := by
  induction h generalizing gap with
  | single ht => exact ht.commentFree gap
  | @cons t between row ts ht _ hgap _ ih =>
    have hblank : AllBlank between := fun c hc => hp c (hgap c hc)
    rw [commentFree_append, commentFree_append]
    exact ⟨ht.commentFree gap, commentFree_of_not_mem (AllBlank.no_comment hblank) _, ih _⟩

/-- A row falls into its tokens where the gaps are. -/
theorem Separated.spaced (hp : ∀ c, p c = true → isSeparator c = true)
    (h : Separated p ts row) : Spaced isSeparator row ts := by
  have hsolid {t : List Char} (ht : IsToken t) (c : Char) (hc : c ∈ t) :
      isSeparator c = false := isSeparator_eq_false (ht.solid c hc)
  induction h with
  | @single t ht =>
    have hlast : Spaced isSeparator (t ++ []) [t] := .token ht.ne_nil (hsolid ht) nofun .nil
    simpa using hlast
  | @cons t between row ts ht hne hgap hrow ih =>
    have hsep : ∀ c ∈ between, isSeparator c = true := fun c hc => hp c (hgap c hc)
    refine .token ht.ne_nil (hsolid ht) ?_ (ih.append_separators hsep)
    intro c hc
    rw [List.head?_append_of_ne_nil _ hne] at hc
    exact hsep c (List.mem_of_head? hc)

/-- A row whose gaps repeat one separator does not mix separators. -/
theorem Separated.unmixed {sep : Char} (h : Separated (· == sep) ts row) : Unmixed row := by
  rintro ⟨hspace, htab⟩
  have hgap {c : Char} (hc : c ∈ row) (hblank : isBlank c = true) : c = sep := by
    have hmem := h.mem hc
    rw [hblank] at hmem
    simpa using hmem
  have hequal : ' ' = '\t' := (hgap hspace (by decide)).trans (hgap htab (by decide)).symm
  exact absurd hequal (by decide)

end Rows

/-! ### Lines -/

/-- What may stand behind the code of a line. -/
inductive Trailing : List Char → Prop
  /-- Blanks only, or nothing. -/
  | blanks {tail : List Char} (htail : AllBlank tail) : Trailing tail
  /-- Blanks and a comment, with a separator right in front of its mark. -/
  | comment {gap : List Char} {sep : Char} (text : List Char) (hgap : AllBlank gap)
      (hsep : isSeparator sep = true) : Trailing (gap ++ sep :: '#' :: text)

/-- Code with blanks in front of it is the code of a line, with anything that may trail. -/
theorem CodePart.of_trailing {lead code tail : List Char} (hlead : AllBlank lead)
    (hcode : Trimmed code) (hfree : CommentFree true code) (htail : Trailing tail) :
    CodePart (lead ++ code ++ tail) code := by
  cases htail with
  | blanks htail => exact .plain hlead hcode hfree htail
  | @comment gap sep text hgap hsep =>
    have hblank : AllBlank (gap ++ [sep]) := by
      intro c hc
      rcases List.mem_append.mp hc with hc | hc
      · exact hgap c hc
      · rw [List.mem_singleton.mp hc]
        exact isBlank_of_isSeparator hsep
    have hopens : opens false (gap ++ [sep]) = true := by
      rw [opens_append, opens_cons, opens_nil, hsep]
    simpa using CodePart.commented text hlead hcode hfree hblank (.inr hopens)

/-- How a line is laid out, and what it shows. -/
inductive LaidOut : List Char → Except SourceFlaw (List (List Char)) → Prop
  /-- Tokens, with one separator between them. It may be repeated. -/
  | tokens {lead row tail : List Char} {sep : Char} {ts : List (List Char)}
      (hlead : AllBlank lead) (hsep : isSeparator sep = true) (hrow : Separated (· == sep) ts row)
      (htail : Trailing tail) : LaidOut (lead ++ row ++ tail) (.ok ts)
  /-- Tokens with both separators between them. -/
  | mixed {lead row tail : List Char} {ts : List (List Char)} (hlead : AllBlank lead)
      (hrow : Separated isBlank ts row) (hspace : ' ' ∈ row) (htab : '\t' ∈ row)
      (htail : Trailing tail) : LaidOut (lead ++ row ++ tail) (.error .mixedSeparators)
  /-- A blank line. -/
  | blank {line : List Char} (hline : AllBlank line) : LaidOut line (.ok [])
  /-- A line that is all comment. -/
  | comment {lead : List Char} (text : List Char) (hlead : AllBlank lead) :
      LaidOut (lead ++ '#' :: text) (.ok [])

/-- Code with both separators is refused. -/
theorem tokens_eq_mixedSeparators {line code : List Char} (hcode : CodePart line code)
    (hspace : ' ' ∈ code) (htab : '\t' ∈ code) : tokens line = .error .mixedSeparators := by
  simp only [tokens, hcode.codePart_eq]
  exact if_pos (by simp [hspace, htab])

/-- A line without code shows no tokens. -/
theorem tokens_eq_nil {line : List Char} (hcode : CodePart line []) : tokens line = .ok [] :=
  tokens_eq_ok_iff.mpr ⟨[], hcode, by simp [Unmixed], .nil⟩

/-- **What a line shows is what is read.** -/
theorem LaidOut.tokens_eq {line : List Char} {shown : Except SourceFlaw (List (List Char))}
    (h : LaidOut line shown) : Source.tokens line = shown := by
  have htrimmed : Trimmed [] := ⟨nofun, nofun⟩
  have hblank : AllBlank [] := nofun
  cases h with
  | @tokens lead row tail sep ts hlead hsep hrow htail =>
    have hgap : ∀ c, (c == sep) = true → isSeparator c = true := by
      intro c hc
      rwa [beq_iff_eq.mp hc]
    have hfree := hrow.commentFree (fun c hc => isBlank_of_isSeparator (hgap c hc)) true
    have hcode := CodePart.of_trailing hlead hrow.trimmed hfree htail
    exact tokens_eq_ok_iff.mpr ⟨row, hcode, hrow.unmixed, hrow.spaced hgap⟩
  | mixed hlead hrow hspace htab htail =>
    have hcode := CodePart.of_trailing hlead hrow.trimmed
      (hrow.commentFree (fun _ hc => hc) true) htail
    exact tokens_eq_mixedSeparators hcode hspace htab
  | blank hline =>
    refine tokens_eq_nil ?_
    simpa using CodePart.plain hline htrimmed (commentFree_nil true) hblank
  | comment text hlead =>
    refine tokens_eq_nil ?_
    simpa using CodePart.commented text hlead htrimmed (commentFree_nil true) hblank (.inl rfl)

/-! ### Source texts -/

/-- Two lines that are the same, or that show the same and differ in spacing and comments. -/
def Relaid (line line' : List Char) : Prop :=
  line = line' ∨ ∃ shown, LaidOut line shown ∧ LaidOut line' shown

theorem Relaid.tokens_eq {line line' : List Char} (h : Relaid line line') :
    tokens line = tokens line' := by
  obtain rfl | ⟨shown, hline, hline'⟩ := h
  · rfl
  · rw [hline.tokens_eq, hline'.tokens_eq]

/-- The tokens of a line decide its effect. -/
theorem Layout.applyLine_congr {line line' : List Char} (h : tokens line = tokens line')
    (l : Layout) : l.applyLine line = l.applyLine line' := by
  unfold Layout.applyLine Statement.ofLine?
  rw [h]

/-- The tokens of the lines decide their effect. -/
theorem Layout.applyLines_congr {rows rows' : List (List Char)}
    (h : List.Forall₂ (fun line line' => tokens line = tokens line') rows rows') (l : Layout)
    (number : Nat) : l.applyLines number rows = l.applyLines number rows' := by
  induction h generalizing l number with
  | nil => rfl
  | cons hline _ ih => simp only [Layout.applyLines, Layout.applyLine_congr hline, ih]

/-- The tokens of the lines decide what a source text is assembled to. -/
theorem assemble_congr {source source' : String}
    (h : List.Forall₂ (fun line line' => tokens line = tokens line') (lines source.toList)
      (lines source'.toList)) (width : Nat) : assemble source width = assemble source' width := by
  unfold assemble layout
  rw [Layout.applyLines_congr h]

/-- **Spacing does not matter.** Tokens are read in the same way whichever separator stands between
    them, however often, and with any blanks around them and any comment behind them; tokens with
    both separators between them are refused, and a line that is blank or all comment has none.
    Source texts that differ line by line only in this are assembled to the same result. -/
theorem spacing_irrelevant :
    (∀ line shown, LaidOut line shown → tokens line = shown) ∧
      ∀ (source source' : String) (width : Nat),
        List.Forall₂ Relaid (lines source.toList) (lines source'.toList) →
          assemble source width = assemble source' width := by
  constructor
  · intro line shown h
    exact h.tokens_eq
  · intro source source' width h
    exact assemble_congr (h.imp fun _ _ hline => hline.tokens_eq) width

/-- A comment with both separators and further marks in it, a token with a mark, a tab for two
    spaces, and a comment for a blank line. -/
theorem spacing_irrelevant_comments :
    tokens " A#b  $0 \t# a\tb # c".toList = .ok ["A#b".toList, "$0".toList] ∧
      tokens "OUT \treg0\t#\t#".toList = .error .mixedSeparators ∧
      assemble "OUT  reg0\n\nEXIT $0 # a\tb #" 4 = assemble "\tOUT\treg0 \r\n #\nEXIT\t\t$0" 4 := by
  have hmark : IsToken "A#b".toList := by decide
  have hout : IsToken "OUT".toList := by decide
  have hreg : IsToken "reg0".toList := by decide
  have hexit : IsToken "EXIT".toList := by decide
  have hzero : IsToken "$0".toList := by decide
  have hnone : AllBlank [] := nofun
  have hspace : AllBlank " ".toList := List.all_eq_true.mp rfl
  have htab : AllBlank "\t".toList := List.all_eq_true.mp rfl
  obtain ⟨hread, hsame⟩ := spacing_irrelevant
  refine ⟨hread _ _ ?marked, hread _ _ ?mixed, hsame _ _ 4 ?lines⟩
  case marked =>
    have hrow : Separated (· == ' ') ["A#b".toList, "$0".toList] "A#b  $0".toList :=
      .cons hmark (List.cons_ne_nil ' ' [' ']) (List.all_eq_true.mp rfl) (.single hzero)
    have htail : Trailing " \t# a\tb # c".toList := .comment " a\tb # c".toList hspace rfl
    exact .tokens hspace rfl hrow htail
  case mixed =>
    have hrow : Separated isBlank ["OUT".toList, "reg0".toList] "OUT \treg0".toList :=
      .cons hout (List.cons_ne_nil ' ' ['\t']) (List.all_eq_true.mp rfl) (.single hreg)
    have htail : Trailing "\t#\t#".toList := .comment "\t#".toList hnone rfl
    exact .mixed hnone hrow (by decide) (by decide) htail
  case lines =>
    have hspaces : Separated (· == ' ') ["OUT".toList, "reg0".toList] "OUT  reg0".toList :=
      .cons hout (List.cons_ne_nil ' ' [' ']) (List.all_eq_true.mp rfl) (.single hreg)
    have htabs : Separated (· == '\t') ["OUT".toList, "reg0".toList] "OUT\treg0".toList :=
      .cons hout (List.cons_ne_nil '\t' []) (List.all_eq_true.mp rfl) (.single hreg)
    have hexits : Separated (· == ' ') ["EXIT".toList, "$0".toList] "EXIT $0".toList :=
      .cons hexit (List.cons_ne_nil ' ' []) (List.all_eq_true.mp rfl) (.single hzero)
    have hexits' : Separated (· == '\t') ["EXIT".toList, "$0".toList] "EXIT\t\t$0".toList :=
      .cons hexit (List.cons_ne_nil '\t' ['\t']) (List.all_eq_true.mp rfl) (.single hzero)
    have hfirst : Relaid "OUT  reg0".toList "\tOUT\treg0 ".toList :=
      .inr ⟨_, .tokens hnone rfl hspaces (.blanks hnone), .tokens htab rfl htabs (.blanks hspace)⟩
    have hsecond : Relaid "".toList " #".toList :=
      .inr ⟨_, .blank hnone, .comment [] hspace⟩
    have hthird : Relaid "EXIT $0 # a\tb #".toList "EXIT\t\t$0".toList :=
      .inr ⟨_, .tokens hnone rfl hexits (.comment " a\tb #".toList hnone rfl),
        .tokens hnone rfl hexits' (.blanks hnone)⟩
    exact .cons hfirst (.cons hsecond (.cons hthird .nil))

end BitMachine.Source
