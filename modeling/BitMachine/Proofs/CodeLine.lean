import BitMachine.Proofs.Spacing
import BitMachine.Source.Token

namespace BitMachine.Source

open Text

/-!
# The code of a source line

Which part of a line is code, said about the line itself and not about how it is read:

* `CommentFree` — a text in which no comment starts;
* `CodePart` — a line is blanks, its code, and blanks or a comment, and `codePart_eq_iff`: the
  code part of a line is its code;
* `tokens_eq_ok_iff` — the tokens of a line are those of its code, if that has one kind of
  separator.
-/

/-! ### Comments -/

/-- Whether a `#` after the given text starts a comment; `gap` says so for no text at all. -/
def opens (gap : Bool) (front : List Char) : Bool :=
  (front.getLast?.map isSeparator).getD gap

@[simp] theorem opens_nil (gap : Bool) : opens gap [] = gap := rfl

theorem opens_cons (gap : Bool) (c : Char) (front : List Char) :
    opens gap (c :: front) = opens (isSeparator c) front := by
  unfold opens
  rw [List.getLast?_cons]
  cases front.getLast? <;> rfl

/-- What stands at the end decides. -/
theorem opens_append (gap : Bool) (front rear : List Char) :
    opens gap (front ++ rear) = opens (opens gap front) rear := by
  induction front generalizing gap with
  | nil => rfl
  | cons c front ih => rw [List.cons_append, opens_cons, opens_cons, ih]

theorem opens_of_ne_nil {cs : List Char} (h : cs ≠ []) (gap gap' : Bool) :
    opens gap cs = opens gap' cs := by
  cases cs with
  | nil => exact absurd rfl h
  | cons c cs => rw [opens_cons, opens_cons]

/-- **No comment starts in a text.** -/
def CommentFree (gap : Bool) (cs : List Char) : Prop :=
  ∀ front rear, cs = front ++ '#' :: rear → opens gap front = false

theorem commentFree_nil (gap : Bool) : CommentFree gap [] := by
  intro front rear h
  simp at h

theorem commentFree_cons {gap : Bool} {c : Char} {cs : List Char} :
    CommentFree gap (c :: cs) ↔
      ¬ (gap = true ∧ c = '#') ∧ CommentFree (isSeparator c) cs := by
  constructor
  · intro h
    constructor
    · rintro ⟨rfl, rfl⟩
      exact absurd (h [] cs rfl) (by simp)
    · rintro front rear rfl
      have hopens := h (c :: front) rear rfl
      rwa [opens_cons] at hopens
  · rintro ⟨hfirst, hrest⟩ front rear hsplit
    cases front with
    | nil =>
      rw [List.nil_append, List.cons.injEq] at hsplit
      simpa [hsplit.1] using hfirst
    | cons d front =>
      rw [List.cons_append, List.cons.injEq] at hsplit
      obtain ⟨rfl, rfl⟩ := hsplit
      rw [opens_cons]
      exact hrest front rear rfl

/-- No comment starts in either part of a text, the second part read behind the first. -/
theorem commentFree_append {gap : Bool} {front rear : List Char} :
    CommentFree gap (front ++ rear) ↔
      CommentFree gap front ∧ CommentFree (opens gap front) rear := by
  induction front generalizing gap with
  | nil => simp [commentFree_nil]
  | cons c front ih =>
    rw [List.cons_append, commentFree_cons, commentFree_cons, opens_cons, ih, and_assoc]

/-- In a shorter text there are no more comments. -/
theorem CommentFree.of_append {gap : Bool} {front rear : List Char}
    (h : CommentFree gap (front ++ rear)) : CommentFree gap front :=
  (commentFree_append.mp h).1

/-- Without a `#` there is no comment. -/
theorem commentFree_of_not_mem {cs : List Char} (h : '#' ∉ cs) (gap : Bool) :
    CommentFree gap cs := by
  rintro front rear rfl
  exact absurd (by simp) h

/-- Characters without a `#` start no comment. -/
theorem CommentFree.append {gap : Bool} {front rear : List Char} (h : CommentFree gap front)
    (hrear : '#' ∉ rear) : CommentFree gap (front ++ rear) :=
  commentFree_append.mpr ⟨h, commentFree_of_not_mem hrear _⟩

/-- What is kept of a text whose first character starts no comment. -/
theorem beforeComment_cons {gap : Bool} {c : Char} (cs : List Char)
    (h : ¬ (gap = true ∧ c = '#')) :
    beforeComment gap (c :: cs) = c :: beforeComment (isSeparator c) cs := by
  rw [beforeComment, if_neg (by simpa using h)]

/-- A text without comments is kept. -/
theorem CommentFree.beforeComment_eq {gap : Bool} {cs : List Char} (h : CommentFree gap cs) :
    beforeComment gap cs = cs := by
  induction cs generalizing gap with
  | nil => rfl
  | cons c cs ih =>
    obtain ⟨hfirst, hrest⟩ := commentFree_cons.mp h
    rw [beforeComment_cons cs hfirst, ih hrest]

/-- The text before the first comment is kept. -/
theorem CommentFree.beforeComment_append {gap : Bool} {front : List Char}
    (h : CommentFree gap front) (hopens : opens gap front = true) (comment : List Char) :
    beforeComment gap (front ++ '#' :: comment) = front := by
  induction front generalizing gap with
  | nil =>
    rw [opens_nil] at hopens
    subst hopens
    rfl
  | cons c front ih =>
    obtain ⟨hfirst, hrest⟩ := commentFree_cons.mp h
    rw [opens_cons] at hopens
    rw [List.cons_append, beforeComment_cons _ hfirst, ih hrest hopens]

/-- **What is kept has no comment, and what is not is one.** -/
theorem exists_beforeComment (gap : Bool) (cs : List Char) :
    CommentFree gap (beforeComment gap cs) ∧
      (cs = beforeComment gap cs ∨
        opens gap (beforeComment gap cs) = true ∧
          ∃ comment, cs = beforeComment gap cs ++ '#' :: comment) := by
  induction cs generalizing gap with
  | nil => exact ⟨commentFree_nil gap, .inl rfl⟩
  | cons c cs ih =>
    by_cases hfirst : gap = true ∧ c = '#'
    · obtain ⟨rfl, rfl⟩ := hfirst
      exact ⟨commentFree_nil true, .inr ⟨rfl, cs, rfl⟩⟩
    · rw [beforeComment_cons cs hfirst, opens_cons]
      obtain ⟨hfree, hrest⟩ := ih (isSeparator c)
      refine ⟨commentFree_cons.mpr ⟨hfirst, hfree⟩, ?_⟩
      rcases hrest with hrest | ⟨hopens, comment, hrest⟩
      · exact .inl (by rw [← hrest])
      · exact .inr ⟨hopens, comment, by rw [List.cons_append, ← hrest]⟩

/-! ### Code -/

/-- A line and its code. Blanks stand before the code, and blanks or a comment after it. A
    comment starts with a `#`, where the line or a token could start. -/
inductive CodePart : List Char → List Char → Prop
  /-- A line without a comment. -/
  | plain {lead code tail : List Char} (hlead : AllBlank lead) (hcode : Trimmed code)
      (hfree : CommentFree true code) (htail : AllBlank tail) :
      CodePart (lead ++ code ++ tail) code
  /-- A line with a comment. -/
  | commented {lead code gap : List Char} (comment : List Char) (hlead : AllBlank lead)
      (hcode : Trimmed code) (hfree : CommentFree true code) (hgap : AllBlank gap)
      (hopens : code = [] ∨ opens false gap = true) :
      CodePart (lead ++ code ++ gap ++ '#' :: comment) code

/-- Separators are blanks. -/
theorem isBlank_of_isSeparator {c : Char} (h : isSeparator c = true) : isBlank c = true := by
  unfold isSeparator at h
  rw [Bool.or_eq_true, beq_iff_eq, beq_iff_eq] at h
  rcases h with rfl | rfl <;> rfl

/-- What is no blank is no separator. -/
theorem isSeparator_eq_false {c : Char} (h : isBlank c = false) : isSeparator c = false := by
  by_contra hsep
  rw [isBlank_of_isSeparator (by simpa using hsep)] at h
  cases h

theorem AllBlank.no_comment {cs : List Char} (h : AllBlank cs) : '#' ∉ cs :=
  fun hmem => absurd (h '#' hmem) (by decide)

/-- Behind code a comment starts only after a separator, which is no part of the code. -/
theorem eq_nil_or_opens {code gap : List Char}
    (hlast : ∀ c, code.getLast? = some c → isBlank c = false)
    (hopens : opens true (code ++ gap) = true) : code = [] ∨ opens false gap = true := by
  rw [opens_append] at hopens
  by_cases hcode : code = []
  · exact .inl hcode
  by_cases hgap : gap = []
  · -- The separator would be the last character of the code.
    exfalso
    obtain ⟨c, hc⟩ := Option.isSome_iff_exists.mp (List.getLast?_isSome.mpr hcode)
    rw [hgap, opens_nil, opens, hc] at hopens
    have hblank := isBlank_of_isSeparator hopens
    rw [hlast c hc] at hblank
    cases hblank
  · exact .inr (by rw [opens_of_ne_nil hgap false (opens true code), hopens])

/-- The code of a line is what is read as its code part. -/
theorem CodePart.codePart_eq {line code : List Char} (h : CodePart line code) :
    codePart line = code := by
  cases h with
  | plain hlead hcode hfree htail =>
    rw [codePart, trim_append hlead hcode htail, hfree.beforeComment_eq, hcode.trimEnd_eq]
  | @commented lead code gap comment hlead hcode hfree hgap hopens =>
    obtain ⟨rest, hrest⟩ := exists_trimEnd_cons (c := '#') (by decide) comment
    have hmark : trimEnd ('#' :: comment) ≠ [] := by simp [hrest]
    -- Trimming reaches the code in front, and at the end no further than the comment.
    have hstart : trim (lead ++ code ++ gap ++ '#' :: comment) =
        trim (code ++ gap ++ '#' :: comment) := by
      simpa using trim_append_left hlead (code ++ gap ++ '#' :: comment)
    rw [codePart, hstart]
    by_cases hnil : code = []
    · -- The comment is all there is.
      subst hnil
      rw [List.nil_append, trim_append_left hgap, trim_of_head (by simp; decide), hrest]
      rfl
    · have hgapOpens := hopens.resolve_left hnil
      have hhead : ∀ c, (code ++ gap ++ '#' :: comment).head? = some c → isBlank c = false := by
        intro c hc
        rw [List.append_assoc, List.head?_append_of_ne_nil _ hnil] at hc
        exact hcode.head c hc
      have hgapNe : gap ≠ [] := by
        rintro rfl
        cases hgapOpens
      have hcodeOpens : opens true (code ++ gap) = true := by
        rw [opens_append, opens_of_ne_nil hgapNe _ false, hgapOpens]
      rw [trim_of_head hhead, trimEnd_append_of_ne_nil _ hmark, hrest,
        (hfree.append (AllBlank.no_comment hgap)).beforeComment_append hcodeOpens,
        trimEnd_append_of_allBlank _ hgap, hcode.trimEnd_eq]

/-- Every line has its code part as code. -/
theorem codePart_codePart (line : List Char) : CodePart line (codePart line) := by
  obtain ⟨lead, tail, hline, hlead, htail, htrimmed⟩ := exists_trim line
  obtain ⟨hfree, hkept⟩ := exists_beforeComment true (trim line)
  rcases hkept with hkept | ⟨hopens, comment, hkept⟩
  · -- There is no comment, and nothing more to trim.
    have hcode : codePart line = trim line := by
      rw [codePart, ← hkept, htrimmed.trimEnd_eq]
    rw [← hkept] at hfree
    have hpart := CodePart.plain hlead htrimmed hfree htail
    rw [← hline] at hpart
    rwa [hcode]
  · -- The code is what stands before the comment, without the blanks at its end.
    obtain ⟨gap, hsplit, hgap, hlast⟩ := exists_trimEnd (beforeComment true (trim line))
    change beforeComment true (trim line) = codePart line ++ gap at hsplit
    have hcode : Trimmed (codePart line) := by
      refine ⟨?_, hlast⟩
      intro c hc
      refine htrimmed.head c ?_
      rw [hkept, hsplit, List.head?_append, List.head?_append, hc]
      rfl
    rw [hsplit] at hopens
    have hgapOpens := eq_nil_or_opens hlast hopens
    rw [hsplit] at hfree
    have hwhole : line = lead ++ codePart line ++ gap ++ '#' :: (comment ++ tail) := by
      calc line = lead ++ trim line ++ tail := hline
        _ = lead ++ (codePart line ++ gap ++ '#' :: comment) ++ tail := by rw [← hsplit, ← hkept]
        _ = lead ++ codePart line ++ gap ++ '#' :: (comment ++ tail) := by simp
    have hpart := CodePart.commented (comment ++ tail) hlead hcode hfree.of_append hgap hgapOpens
    rwa [← hwhole] at hpart

/-- **The code part of a line is its code.** -/
theorem codePart_eq_iff {line code : List Char} : codePart line = code ↔ CodePart line code := by
  constructor
  · rintro rfl
    exact codePart_codePart line
  · exact CodePart.codePart_eq

theorem CodePart.trimmed {line code : List Char} (h : CodePart line code) : Trimmed code := by
  cases h with
  | plain _ hcode _ _ => exact hcode
  | commented _ _ hcode _ _ _ => exact hcode

/-! ### Tokens -/

/-- A text does not have both kinds of separators. -/
def Unmixed (code : List Char) : Prop :=
  ¬ (' ' ∈ code ∧ '\t' ∈ code)

/-- **The tokens of a line** are those of its code, if that has one kind of separator. -/
theorem tokens_eq_ok_iff {line : List Char} {ts : List (List Char)} :
    tokens line = .ok ts ↔ ∃ code, CodePart line code ∧ Unmixed code ∧
      Spaced isSeparator code ts := by
  simp only [← codePart_eq_iff, exists_eq_left', ← pieces_eq_iff, tokens, Unmixed]
  by_cases hmixed : ' ' ∈ codePart line ∧ '\t' ∈ codePart line
  · rw [if_pos (by simpa using hmixed)]
    simp [hmixed]
  · rw [if_neg (by simpa using hmixed)]
    simp [hmixed]

/-- Code without tokens is empty. -/
theorem eq_nil_of_spaced {code : List Char} (hcode : Trimmed code)
    (h : Spaced isSeparator code []) : code = [] := by
  cases h with
  | nil => rfl
  | separator hc _ => exact absurd (hcode.head _ rfl) (by simp [isBlank_of_isSeparator hc])

end BitMachine.Source
