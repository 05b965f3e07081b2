import BitMachine.Text.Blank
import Mathlib.Data.List.Basic
import Mathlib.Data.List.TakeWhile

namespace BitMachine.Text

/-!
# Blanks around texts and between tokens

Trimming and splitting, described from the side of the text that comes out:

* `AllBlank`, `Trimmed` — texts of blanks only, and texts with none at their ends;
* `trim_append`, `exists_trim` — a text is its trimmed text with blanks around it, and no other
  trimmed text is;
* `Spaced` — a text of tokens between separators, and `pieces_eq_iff`: its pieces are its tokens;
* `spaced_intercalate` — tokens joined by a separator come apart again.
-/

/-! ### Trimming -/

/-- A text of blanks only. -/
def AllBlank (cs : List Char) : Prop :=
  ∀ c ∈ cs, isBlank c = true

/-- A text that neither starts nor ends with a blank. -/
structure Trimmed (cs : List Char) : Prop where
  /-- The first character is no blank. -/
  head : ∀ c, cs.head? = some c → isBlank c = false
  /-- The last character is no blank. -/
  last : ∀ c, cs.getLast? = some c → isBlank c = false

theorem AllBlank.reverse {cs : List Char} (h : AllBlank cs) : AllBlank cs.reverse :=
  fun c hc => h c (List.mem_reverse.mp hc)

/-- Dropping ends at the first character that is no blank. -/
theorem dropWhile_isBlank_of_head {cs : List Char}
    (h : ∀ c, cs.head? = some c → isBlank c = false) : cs.dropWhile isBlank = cs := by
  cases cs with
  | nil => rfl
  | cons c cs =>
    have hc := h c rfl
    rw [List.dropWhile_cons_of_neg (by simp [hc])]

/-- Blanks at the end do not count. -/
theorem trimEnd_append_of_allBlank (cs : List Char) {tail : List Char} (h : AllBlank tail) :
    trimEnd (cs ++ tail) = trimEnd cs := by
  unfold trimEnd
  rw [List.reverse_append, List.dropWhile_append_of_pos h.reverse]

/-- A text that ends with no blank loses nothing at its end. -/
theorem trimEnd_of_last {cs : List Char} (h : ∀ c, cs.getLast? = some c → isBlank c = false) :
    trimEnd cs = cs := by
  unfold trimEnd
  -- The text is trimmed back to front.
  have hhead : ∀ c, cs.reverse.head? = some c → isBlank c = false := by
    intro c hc
    rw [List.head?_reverse] at hc
    exact h c hc
  rw [dropWhile_isBlank_of_head hhead, List.reverse_reverse]

/-- Only blanks are lost at the end, and all of them. -/
theorem exists_trimEnd (cs : List Char) :
    ∃ tail, cs = trimEnd cs ++ tail ∧ AllBlank tail ∧
      ∀ c, (trimEnd cs).getLast? = some c → isBlank c = false := by
  refine ⟨(cs.reverse.takeWhile isBlank).reverse, ?_, ?_, ?_⟩
  · unfold trimEnd
    rw [← List.reverse_append, List.takeWhile_append_dropWhile, List.reverse_reverse]
  · intro c hc
    exact List.mem_takeWhile_imp (List.mem_reverse.mp hc)
  · intro c hc
    unfold trimEnd at hc
    rw [List.getLast?_reverse] at hc
    have hnot := List.head?_dropWhile_not isBlank cs.reverse
    rw [hc] at hnot
    simpa using hnot

/-- The end of a text that goes on with characters that are kept. -/
theorem trimEnd_append_of_ne_nil (front : List Char) {rear : List Char} (h : trimEnd rear ≠ []) :
    trimEnd (front ++ rear) = front ++ trimEnd rear := by
  obtain ⟨tail, hsplit, hblank, hlast⟩ := exists_trimEnd rear
  have hlast' : ∀ c, (front ++ trimEnd rear).getLast? = some c → isBlank c = false := by
    intro c hc
    rw [List.getLast?_append_of_ne_nil _ h] at hc
    exact hlast c hc
  calc trimEnd (front ++ rear)
      = trimEnd (front ++ trimEnd rear ++ tail) := by rw [List.append_assoc, ← hsplit]
    _ = trimEnd (front ++ trimEnd rear) := trimEnd_append_of_allBlank _ hblank
    _ = front ++ trimEnd rear := trimEnd_of_last hlast'

/-- Trimming keeps a first character that is no blank. -/
theorem exists_trimEnd_cons {c : Char} (hc : isBlank c = false) (cs : List Char) :
    ∃ rest, trimEnd (c :: cs) = c :: rest := by
  by_cases hnil : trimEnd cs = []
  · obtain ⟨tail, hsplit, hblank, -⟩ := exists_trimEnd cs
    rw [hnil, List.nil_append] at hsplit
    subst hsplit
    refine ⟨[], ?_⟩
    rw [← List.singleton_append, trimEnd_append_of_allBlank _ hblank]
    refine trimEnd_of_last ?_
    intro d hd
    cases hd
    exact hc
  · exact ⟨trimEnd cs, trimEnd_append_of_ne_nil [c] hnil⟩

/-- Blanks at the start do not count. -/
theorem trim_append_left {lead : List Char} (h : AllBlank lead) (cs : List Char) :
    trim (lead ++ cs) = trim cs := by
  unfold trim
  rw [List.dropWhile_append_of_pos h]

/-- A text that starts with no blank is only trimmed at its end. -/
theorem trim_of_head {cs : List Char} (h : ∀ c, cs.head? = some c → isBlank c = false) :
    trim cs = trimEnd cs := by
  unfold trim
  rw [dropWhile_isBlank_of_head h]

theorem Trimmed.trimEnd_eq {cs : List Char} (h : Trimmed cs) : trimEnd cs = cs :=
  trimEnd_of_last h.last

theorem Trimmed.trim_eq {cs : List Char} (h : Trimmed cs) : trim cs = cs := by
  rw [trim_of_head h.head, h.trimEnd_eq]

/-- **Blanks around a trimmed text are what trimming takes away.** -/
theorem trim_append {lead core tail : List Char} (hlead : AllBlank lead) (hcore : Trimmed core)
    (htail : AllBlank tail) : trim (lead ++ core ++ tail) = core := by
  rw [List.append_assoc, trim_append_left hlead]
  by_cases hnil : core = []
  · -- Nothing but blanks is left.
    subst hnil
    have hall := trim_append_left htail []
    rw [List.append_nil] at hall
    rw [List.nil_append, hall]
    rfl
  · have hhead : ∀ c, (core ++ tail).head? = some c → isBlank c = false := by
      intro c hc
      rw [List.head?_append_of_ne_nil _ hnil] at hc
      exact hcore.head c hc
    rw [trim_of_head hhead, trimEnd_append_of_allBlank _ htail, hcore.trimEnd_eq]

/-- A text without its blanks at the end starts as before. -/
theorem head?_trimEnd {cs : List Char} {c : Char} (h : (trimEnd cs).head? = some c) :
    cs.head? = some c := by
  obtain ⟨tail, hsplit, -, -⟩ := exists_trimEnd cs
  rw [hsplit, List.head?_append, h]
  rfl

/-- **A text is its trimmed text with blanks around it.** -/
theorem exists_trim (cs : List Char) :
    ∃ lead tail, cs = lead ++ trim cs ++ tail ∧ AllBlank lead ∧ AllBlank tail ∧
      Trimmed (trim cs) := by
  obtain ⟨tail, hsplit, htail, hlast⟩ := exists_trimEnd (cs.dropWhile isBlank)
  refine ⟨cs.takeWhile isBlank, tail, ?_, ?_, htail, ?_, hlast⟩
  · rw [List.append_assoc, trim, ← hsplit, List.takeWhile_append_dropWhile]
  · intro c hc
    exact List.mem_takeWhile_imp hc
  · intro c hc
    have hnot := List.head?_dropWhile_not isBlank cs
    rw [head?_trimEnd hc] at hnot
    simpa using hnot

/-! ### Tokens -/

/-- A text of tokens. Each is a run of characters that are no separators, and separators, any
    number of them, stand before, between and after the tokens. -/
inductive Spaced (p : Char → Bool) : List Char → List (List Char) → Prop
  /-- Nothing. -/
  | nil : Spaced p [] []
  /-- A separator. -/
  | separator {c : Char} {cs : List Char} {ts : List (List Char)} (hc : p c = true)
      (h : Spaced p cs ts) : Spaced p (c :: cs) ts
  /-- A token, which ends at a separator or with the text. -/
  | token {t cs : List Char} {ts : List (List Char)} (hne : t ≠ []) (ht : ∀ c ∈ t, p c = false)
      (hend : ∀ c, cs.head? = some c → p c = true) (h : Spaced p cs ts) :
      Spaced p (t ++ cs) (t :: ts)

variable {p : Char → Bool}

/-- More separators at the start. -/
theorem Spaced.append_separators {gap cs : List Char} {ts : List (List Char)}
    (hgap : ∀ c ∈ gap, p c = true) (h : Spaced p cs ts) : Spaced p (gap ++ cs) ts := by
  induction gap with
  | nil => exact h
  | cons c gap ih =>
    obtain ⟨hc, hrest⟩ := List.forall_mem_cons.mp hgap
    exact .separator hc (ih hrest)

@[simp] theorem pieces_nil : pieces p [] = [] := rfl

theorem pieces_cons_of_separator {c : Char} (hc : p c = true) (cs : List Char) :
    pieces p (c :: cs) = pieces p cs := by
  have hsplit := List.splitOnP_append_cons (p := p) [] cs hc
  unfold pieces
  rw [← List.nil_append (c :: cs), hsplit, List.splitOnP_nil]
  rfl

/-- The first piece of a text that starts with a token. -/
theorem pieces_append {t cs : List Char} (hne : t ≠ []) (ht : ∀ c ∈ t, p c = false)
    (hend : ∀ c, cs.head? = some c → p c = true) : pieces p (t ++ cs) = t :: pieces p cs := by
  have hkeep (us : List (List Char)) :
      (t :: us).filter (!·.isEmpty) = t :: us.filter (!·.isEmpty) :=
    List.filter_cons_of_pos (by simpa using hne)
  cases cs with
  | nil =>
    unfold pieces
    rw [List.append_nil, List.splitOnP_eq_singleton ht, hkeep]
    rfl
  | cons c cs =>
    have hc := hend c rfl
    rw [pieces_cons_of_separator hc]
    -- The separator is gone on both sides; the text is split where it stood.
    unfold pieces
    rw [List.splitOnP_append_cons t cs hc, List.splitOnP_eq_singleton ht, List.singleton_append,
      hkeep]

/-- The pieces of a text of tokens are the tokens. -/
theorem Spaced.pieces_eq {cs : List Char} {ts : List (List Char)} (h : Spaced p cs ts) :
    pieces p cs = ts := by
  induction h with
  | nil => rfl
  | separator hc _ ih => rw [pieces_cons_of_separator hc, ih]
  | token hne ht hend _ ih => rw [pieces_append hne ht hend, ih]

/-- One more character of a token. -/
theorem Spaced.exists_cons {c : Char} {cs : List Char} {ts : List (List Char)}
    (hc : p c = false) (h : Spaced p cs ts) : ∃ ts', Spaced p (c :: cs) ts' := by
  have hsingle : ∀ x ∈ [c], p x = false := by
    simpa using hc
  cases h with
  | nil => exact ⟨[[c]], .token (List.cons_ne_nil c []) hsingle nofun .nil⟩
  | separator hs hrest =>
    -- The character is a token of its own, which the separator ends.
    refine ⟨[c] :: ts, .token (List.cons_ne_nil c []) hsingle ?_ (.separator hs hrest)⟩
    intro x hx
    cases hx
    exact hs
  | @token t rest ts hne ht hend hrest =>
    -- The token at the start of the text becomes longer.
    refine ⟨(c :: t) :: ts, .token (List.cons_ne_nil c t) ?_ hend hrest⟩
    intro x hx
    rcases List.mem_cons.mp hx with rfl | hx
    · exact hc
    · exact ht x hx

/-- Every text is a text of tokens. -/
theorem exists_spaced (cs : List Char) : ∃ ts, Spaced p cs ts := by
  induction cs with
  | nil => exact ⟨[], .nil⟩
  | cons c cs ih =>
    obtain ⟨ts, hts⟩ := ih
    cases hc : p c with
    | true => exact ⟨ts, .separator hc hts⟩
    | false => exact hts.exists_cons hc

/-- **The pieces of a text are its tokens.** -/
theorem pieces_eq_iff {cs : List Char} {ts : List (List Char)} :
    pieces p cs = ts ↔ Spaced p cs ts := by
  constructor
  · rintro rfl
    obtain ⟨ts, hts⟩ := exists_spaced (p := p) cs
    rwa [hts.pieces_eq]
  · exact Spaced.pieces_eq

/-- What is no separator stands in a token. -/
theorem Spaced.mem_iff {cs : List Char} {ts : List (List Char)} {c : Char} (h : Spaced p cs ts)
    (hc : p c = false) : c ∈ cs ↔ ∃ t ∈ ts, c ∈ t := by
  induction h with
  | nil => simp
  | @separator d cs ts hd _ ih =>
    have hne : c ≠ d := by
      rintro rfl
      rw [hc] at hd
      cases hd
    rw [List.mem_cons, or_iff_right hne, ih]
  | token _ _ _ _ ih => rw [List.mem_append, ih, List.exists_mem_cons_iff]

/-- **Tokens joined by a separator** are the tokens of the text. -/
theorem spaced_intercalate {sep : Char} (hsep : p sep = true) {ts : List (List Char)}
    (h : ∀ t ∈ ts, t ≠ [] ∧ ∀ c ∈ t, p c = false) : Spaced p ([sep].intercalate ts) ts := by
  induction ts with
  | nil => exact .nil
  | cons t ts ih =>
    obtain ⟨hne, ht⟩ := h t List.mem_cons_self
    have hrest := ih fun u hu => h u (List.mem_cons_of_mem t hu)
    cases ts with
    | nil =>
      have hsingle : Spaced p (t ++ []) [t] := .token hne ht nofun .nil
      simpa using hsingle
    | cons u us =>
      rw [List.intercalate_cons_cons, List.append_assoc, List.singleton_append]
      refine .token hne ht ?_ (.separator hsep hrest)
      intro c hc
      cases hc
      exact hsep

theorem intercalate_ne_nil (sep : Char) {t : List Char} (ht : t ≠ []) (ts : List (List Char)) :
    [sep].intercalate (t :: ts) ≠ [] := by
  cases ts with
  | nil => simpa using ht
  | cons u us => simp [List.intercalate_cons_cons]

/-- A text of tokens that are joined by a separator starts with a token. -/
theorem head_intercalate {sep : Char} {ts : List (List Char)}
    (h : ∀ t ∈ ts, t ≠ [] ∧ ∀ c ∈ t, p c = false) {c : Char}
    (hc : ([sep].intercalate ts).head? = some c) : p c = false := by
  cases ts with
  | nil => cases hc
  | cons t ts =>
    obtain ⟨hne, ht⟩ := h t List.mem_cons_self
    have hhead : t.head? = some c := by
      cases ts with
      | nil => rwa [List.intercalate_singleton] at hc
      | cons u us =>
        rwa [List.intercalate_cons_cons, List.append_assoc,
          List.head?_append_of_ne_nil _ hne] at hc
    exact ht c (List.mem_of_head? hhead)

/-- A text of tokens that are joined by a separator ends with a token. -/
theorem last_intercalate {sep : Char} {ts : List (List Char)}
    (h : ∀ t ∈ ts, t ≠ [] ∧ ∀ c ∈ t, p c = false) {c : Char}
    (hc : ([sep].intercalate ts).getLast? = some c) : p c = false := by
  induction ts with
  | nil => cases hc
  | cons t ts ih =>
    obtain ⟨-, ht⟩ := h t List.mem_cons_self
    cases ts with
    | nil =>
      rw [List.intercalate_singleton] at hc
      exact ht c (List.mem_of_getLast? hc)
    | cons u us =>
      obtain ⟨hne, -⟩ := h u (List.mem_cons_of_mem t List.mem_cons_self)
      have hrest := intercalate_ne_nil sep hne us
      rw [List.intercalate_cons_cons, List.getLast?_append_of_ne_nil _ hrest] at hc
      exact ih (fun w hw => h w (List.mem_cons_of_mem t hw)) hc

/-- A text of tokens that are joined by a separator has characters of tokens and separators. -/
theorem mem_intercalate {sep : Char} {ts : List (List Char)} {c : Char}
    (hc : c ∈ [sep].intercalate ts) : c = sep ∨ ∃ t ∈ ts, c ∈ t := by
  induction ts with
  | nil => cases hc
  | cons t ts ih =>
    cases ts with
    | nil =>
      rw [List.intercalate_singleton] at hc
      exact .inr ⟨t, List.mem_cons_self, hc⟩
    | cons u us =>
      rw [List.intercalate_cons_cons, List.mem_append, List.mem_append,
        List.mem_singleton] at hc
      rcases hc with (hc | rfl) | hc
      · exact .inr ⟨t, List.mem_cons_self, hc⟩
      · exact .inl rfl
      · rcases ih hc with rfl | ⟨w, hw, hmem⟩
        · exact .inl rfl
        · exact .inr ⟨w, List.mem_cons_of_mem t hw, hmem⟩

end BitMachine.Text
