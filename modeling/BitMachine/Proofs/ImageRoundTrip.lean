import BitMachine.Image
import BitMachine.Proofs.Literals
import BitMachine.Proofs.Loading

namespace BitMachine

/-!
# Images are read back

Rendering a program and reading the image gives the program again, exactly if the program has
no address twice and no empty word.

* `Text.lines_append` — a line that is written is a line that is read;
* `Program.WellFormed` — the programs that an image can hold;
* `Image.addLine_wellFormed` — reading a line keeps a program well-formed, whatever the line is;
* `Image.addLine_row` — the line of a word is read as that word, or refused for its address or
  for its lack of tokens, and `Image.addLines_rows`: the same for the lines of a program;
* `Image.image_round_trip` — the theorem about programs and about accepted texts.
-/

/-! ### Lines -/

namespace Text

/-- Characters that do not end a line. -/
def Unbroken (cs : List Char) : Prop :=
  ∀ c ∈ cs, c ≠ '\n' ∧ c ≠ '\r'

theorem unbroken_of_not_mem {cs : List Char} (hfeed : '\n' ∉ cs) (hreturn : '\r' ∉ cs) :
    Unbroken cs :=
  fun _ hc => ⟨fun h => hfeed (h ▸ hc), fun h => hreturn (h ▸ hc)⟩

/-- **A line that is written is a line that is read.** -/
theorem lines_append {line : List Char} (h : Unbroken line) (rest : List Char) :
    lines (line ++ '\n' :: rest) = line :: lines rest := by
  have hfeed : ∀ c ∈ line, (c == '\n') = false := by
    intro c hc
    simpa using (h c hc).1
  have hreturn : dropReturn '\r' line = line := by
    unfold dropReturn
    rw [if_neg]
    intro hlast
    rw [Option.any_eq_true] at hlast
    obtain ⟨c, hc, hret⟩ := hlast
    exact (h c (List.mem_of_getLast? hc)).2 (by simpa using hret)
  have hsplit : (line ++ '\n' :: rest).splitOn '\n' = line :: rest.splitOn '\n' := by
    unfold List.splitOn
    rw [List.splitOnP_append_cons line rest (by simp), List.splitOnP_eq_singleton hfeed]
    rfl
  unfold lines linesWith
  rw [hsplit]
  -- A segment follows, so the line is a finished one.
  obtain ⟨segment, segments, hcons⟩ := List.exists_cons_of_ne_nil (List.splitOn_ne_nil '\n' rest)
  rw [hcons, linesOfSegments, hreturn]
  nofun

/-- Lines that are written one after the other are read one after the other. -/
theorem lines_flatMap {ls : List (List Char)} (h : ∀ line ∈ ls, Unbroken line) :
    lines (ls.flatMap (· ++ ['\n'])) = ls := by
  induction ls with
  | nil => rfl
  | cons line rest ih =>
    have hrest := ih fun l hl => h l (List.mem_cons_of_mem line hl)
    rw [List.flatMap_cons, List.append_assoc, List.singleton_append,
      lines_append (h line List.mem_cons_self), hrest]

end Text

/-! ### Well-formed programs -/

namespace Program

/-- **The programs that an image can hold.** -/
structure WellFormed (p : Program) : Prop where
  /-- No address occurs twice. -/
  distinct : (p.words.map Prod.fst).Nodup
  /-- No word is empty. -/
  nonempty : ∀ row ∈ p.words, row.2.isEmpty = false

theorem wellFormed_empty : WellFormed {} :=
  ⟨List.nodup_nil, nofun⟩

/-- What comes first in a well-formed program is well-formed. -/
theorem WellFormed.of_append {rows rest : List (Address × Word)}
    (h : WellFormed ⟨rows ++ rest⟩) : WellFormed ⟨rows⟩ := by
  obtain ⟨hdistinct, hnonempty⟩ := h
  constructor
  · have hparts : ((rows ++ rest).map Prod.fst).Nodup := hdistinct
    rw [List.map_append, List.nodup_append] at hparts
    exact hparts.1
  · exact fun row hrow => hnonempty row (List.mem_append_left rest hrow)

/-- A program with a further word is well-formed if it was, and the word is not empty and at a
    new address. -/
theorem wellFormed_push_iff {p : Program} {addr : Address} {w : Word} :
    (p.push addr w).WellFormed ↔
      p.WellFormed ∧ w.isEmpty = false ∧ (p.get? addr).isSome = false := by
  have hget : (p.get? addr).isSome = false ↔ addr ∉ p.words.map Prod.fst := by
    rw [← Bool.not_eq_true, get?, isSome_lookup_iff]
  rw [hget]
  constructor
  · intro h
    obtain ⟨hnew, -⟩ := nodup_concat_entry.mp h.distinct
    exact ⟨h.of_append, h.nonempty (addr, w) (by simp [push]), hnew⟩
  · rintro ⟨⟨hdistinct, hnonempty⟩, hw, hnew⟩
    refine ⟨nodup_concat_entry.mpr ⟨hnew, hdistinct⟩, ?_⟩
    intro row hrow
    rcases List.mem_append.mp hrow with hrow | hrow
    · exact hnonempty row hrow
    · rw [List.mem_singleton.mp hrow]
      exact hw

end Program

/-! ### Reading lines -/

namespace Image

open Text (Unbroken)

/-- An entry has tokens. -/
theorem isEmpty_of_entry {line : List Char} {addr : Address} {w : Word}
    (h : entry line = .ok (addr, w)) : w.isEmpty = false := by
  unfold entry at h
  cases hcolon : splitColon? line with
  | none =>
    rw [hcolon] at h
    cases h
  | some parts =>
    obtain ⟨place, body⟩ := parts
    rw [hcolon] at h
    simp only [bind_eq_ok] at h
    obtain ⟨addr', -, w', -, hentry⟩ := h
    split at hentry
    next => cases hentry
    next hne =>
      cases hentry
      simpa using hne

/-- **Invariant.** Reading a line keeps a program well-formed, whatever the line is. -/
theorem addLine_wellFormed {p q : Program} {line : List Char} (hp : p.WellFormed)
    (h : addLine p line = .ok q) : q.WellFormed := by
  unfold addLine at h
  simp only at h
  split at h
  · cases h
    exact hp
  · obtain ⟨⟨addr, w⟩, hentry, hpush⟩ := bind_eq_ok.mp h
    simp only at hpush
    split at hpush
    next => cases hpush
    next hnew =>
      cases hpush
      exact Program.wellFormed_push_iff.mpr
        ⟨hp, isEmpty_of_entry hentry, by simpa using hnew⟩

/-- Reading lines keeps a program well-formed. -/
theorem addLines_wellFormed {p q : Program} {number : Nat} {lines : List (Option (List Char))}
    (hp : p.WellFormed) (h : addLines p number lines = .ok q) : q.WellFormed := by
  induction lines generalizing p number with
  | nil =>
    cases h
    exact hp
  | cons line? rest ih =>
    cases line? with
    | none => cases h
    | some line =>
      rw [addLines] at h
      split at h
      next p' hline => exact ih (addLine_wellFormed hp hline) h
      next => cases h

/-! ### Reading what was written -/

/-- The line of a word. -/
def rowLine (row : Address × Word) : List Char :=
  row.1.text.toList ++ ':' :: ' ' :: row.2.text.toList

/-- The lines of the image of a program. -/
def imageLines (p : Program) : List (List Char) :=
  "; ZEV program image".toList :: s!"; {p.size} words".toList :: [] :: p.words.map rowLine

theorem toList_render (p : Program) :
    (render p).toList = (imageLines p).flatMap (· ++ ['\n']) := by
  unfold render imageLines rowLine
  simp [ToString.toString, String.toList_append, String.toList_join, List.flatMap_map]

/-- Digits do not end a line. -/
theorem ne_feed_of_isDigit {c : Char} (h : c.isDigit = true) : c ≠ '\n' ∧ c ≠ '\r' := by
  constructor
  · rintro rfl
    cases h
  · rintro rfl
    cases h

theorem unbroken_rowLine (row : Address × Word) : Unbroken (rowLine row) := by
  intro c hc
  rw [rowLine, List.mem_append, List.mem_cons, List.mem_cons] at hc
  rcases hc with hc | rfl | rfl | hc
  · rcases Address.mem_toList_text hc with rfl | hdigit
    · decide
    · exact ne_feed_of_isDigit hdigit
  · decide
  · decide
  · rcases Word.mem_toList_text hc with rfl | rfl | rfl | rfl <;> decide

theorem toList_countLine (p : Program) :
    s!"; {p.size} words".toList = ';' :: ' ' :: (Nat.toDigits 10 p.size ++ " words".toList) := by
  simp [ToString.toString, String.toList_append]

/-- **The lines of an image** are read as they were written. -/
theorem lines_render (p : Program) : Text.lines (render p).toList = imageLines p := by
  rw [toList_render]
  refine Text.lines_flatMap fun line hline => ?_
  rw [imageLines, List.mem_cons, List.mem_cons, List.mem_cons] at hline
  rcases hline with rfl | rfl | rfl | hline
  · exact Text.unbroken_of_not_mem (by decide) (by decide)
  · -- The count is written in digits.
    intro c hc
    rw [toList_countLine, List.mem_cons, List.mem_cons, List.mem_append] at hc
    rcases hc with rfl | rfl | hc | hc
    · decide
    · decide
    · exact ne_feed_of_isDigit (Nat.isDigit_of_mem_toDigits (by decide) (by decide) hc)
    · exact Text.unbroken_of_not_mem (by decide) (by decide) c hc
  · exact nofun
  · obtain ⟨row, -, rfl⟩ := List.mem_map.mp hline
    exact unbroken_rowLine row

/-- Lines that start with a semicolon are skipped. -/
theorem addLine_comment (p : Program) (rest : List Char) : addLine p (';' :: rest) = .ok p := by
  have hhead : ∀ c, (';' :: rest).head? = some c → Text.isBlank c = false := by
    intro c hc
    cases hc
    rfl
  obtain ⟨rest', hrest⟩ := Text.exists_trimEnd_cons (c := ';') rfl rest
  unfold addLine
  rw [Text.trim_of_head hhead, hrest]
  rfl

/-- Blank lines are skipped. -/
theorem addLine_nil (p : Program) : addLine p [] = .ok p := rfl

/-- What is read of a line that starts with the text of an address and a colon. -/
theorem entry_text (addr : Address) (body : List Char) :
    entry (addr.text.toList ++ ':' :: body) =
      (Word.ofChars (body.takeWhile (· != ';'))).mapError .token >>= fun w =>
        if w.isEmpty then .error (.missingWord addr) else .ok (addr, w) := by
  have hplace : ∀ c ∈ addr.text.toList, (c != ':') = true := by
    intro c hc
    rw [bne_iff_ne]
    rintro rfl
    rcases Address.mem_toList_text hc with hx | hdigit
    · cases hx
    · cases hdigit
  have hsplit : splitColon? (addr.text.toList ++ ':' :: body) = some (addr.text.toList, body) := by
    unfold splitColon?
    rw [List.dropWhile_append_of_pos hplace, List.takeWhile_append_of_pos hplace]
    simp
  have htrim : Text.trim addr.text.toList = addr.text.toList := by
    refine Text.Trimmed.trim_eq ⟨?_, ?_⟩
    · exact fun c hc => Address.isBlank_of_mem_text (List.mem_of_head? hc)
    · exact fun c hc => Address.isBlank_of_mem_text (List.mem_of_getLast? hc)
  unfold entry
  rw [hsplit]
  simp only [htrim, String.ofList_toList, Address.parse_text, mapError_ok, ok_bind]
  cases (Word.ofChars (body.takeWhile (· != ';'))).mapError ImageFlaw.token with
  | error flaw => rfl
  | ok w => cases w.isEmpty <;> rfl

/-- Trimming the line of a word takes nothing away that belongs to the word. -/
theorem entry_trim_rowLine (addr : Address) (w : Word) :
    entry (Text.trim (rowLine (addr, w))) =
      if w.isEmpty then .error (.missingWord addr) else .ok (addr, w) := by
  have hhead : ∀ rest c, (addr.text.toList ++ rest).head? = some c → Text.isBlank c = false := by
    intro rest c hc
    rw [Address.toList_text] at hc
    cases hc
    rfl
  cases hw : w.isEmpty with
  | true =>
    -- Without tokens nothing stands behind the colon, and the blank there is trimmed.
    have hnil : w.tokens = [] := List.isEmpty_iff.mp hw
    have hline : rowLine (addr, w) = addr.text.toList ++ [':'] ++ [' '] := by
      have htext : w.text.toList = [] := by
        rw [Word.toList_text, hnil]
        rfl
      rw [rowLine, htext]
      simp
    have hcore : Text.Trimmed (addr.text.toList ++ [':']) := by
      refine ⟨hhead _, ?_⟩
      intro c hc
      rw [List.getLast?_concat] at hc
      cases hc
      rfl
    have hblank : Text.AllBlank [' '] := by
      intro c hc
      rw [List.mem_singleton.mp hc]
      rfl
    have hnone : Text.AllBlank [] := nofun
    have htrim := Text.trim_append hnone hcore hblank
    rw [hline, ← List.nil_append (addr.text.toList ++ [':']), htrim, entry_text]
    rfl
  | false =>
    have hlast : ∀ c, w.text.toList.getLast? = some c → Text.isBlank c = false := by
      intro c hc
      rw [Word.toList_text] at hc
      exact Text.last_intercalate (fun t ht => Word.isBlank_of_mem_tokens (w := w) ht) hc
    have htrimmed : Text.Trimmed (rowLine (addr, w)) := by
      refine ⟨hhead _, ?_⟩
      intro c hc
      have hfront : rowLine (addr, w) = addr.text.toList ++ [':', ' '] ++ w.text.toList := by
        rw [rowLine, List.append_assoc]
        rfl
      rw [hfront, List.getLast?_append_of_ne_nil _ (Word.toList_text_ne_nil hw)] at hc
      exact hlast c hc
    have hbody : (' ' :: w.text.toList).takeWhile (· != ';') = ' ' :: w.text.toList := by
      rw [List.takeWhile_eq_self_iff]
      intro c hc
      rw [bne_iff_ne]
      rintro rfl
      rcases List.mem_cons.mp hc with hc | hc
      · cases hc
      · rcases Word.mem_toList_text hc with hc | hc | hc | hc <;> cases hc
    rw [htrimmed.trim_eq, rowLine, entry_text, hbody, Word.ofChars_text, mapError_ok, ok_bind, hw]

/-- A line that is neither blank nor a comment is read as an entry. -/
theorem addLine_eq_bind (p : Program) {line rest : List Char} {c : Char}
    (htrim : Text.trim line = c :: rest) (hc : c ≠ ';') :
    addLine p line = entry (c :: rest) >>= fun row =>
      if (p.get? row.1).isSome then .error (.listedTwice row.1) else .ok (p.push row.1 row.2) := by
  unfold addLine
  simp only [htrim]
  rw [if_neg (by simpa using hc)]
  cases entry (c :: rest) with
  | error flaw => rfl
  | ok row =>
    simp only [ok_bind]
    split <;> rfl

/-- **The line of a word** is read as the word, unless the word has no tokens or its address has
    a word already. -/
theorem addLine_row (p : Program) (addr : Address) (w : Word) :
    addLine p (rowLine (addr, w)) =
      if w.isEmpty then .error (.missingWord addr)
      else if (p.get? addr).isSome then .error (.listedTwice addr)
      else .ok (p.push addr w) := by
  -- The line is neither blank nor a comment.
  have hzero : ∃ rest, Text.trim (rowLine (addr, w)) = '0' :: rest := by
    rw [rowLine, Address.toList_text, List.cons_append, Text.trim_of_head]
    · exact Text.exists_trimEnd_cons rfl _
    · intro c hc
      cases hc
      rfl
  obtain ⟨rest, hrest⟩ := hzero
  have hentry := entry_trim_rowLine addr w
  rw [hrest] at hentry
  rw [addLine_eq_bind p hrest (by decide), hentry]
  cases w.isEmpty <;> rfl

theorem addLines_cons_of_ok {p q : Program} {line : List Char} (h : addLine p line = .ok q)
    (number : Nat) (rest : List (Option (List Char))) :
    addLines p number (some line :: rest) = addLines q (number + 1) rest := by
  rw [addLines, h]

theorem addLines_cons_of_error {p : Program} {line : List Char} {flaw : ImageFlaw}
    (h : addLine p line = .error flaw) (number : Nat) (rest : List (Option (List Char))) :
    addLines p number (some line :: rest) = .error (.malformed number flaw) := by
  rw [addLines, h]

/-- **The lines of words** are read as the words if these make up a well-formed program with the
    words before them, and one of the lines has a flaw if not. -/
theorem addLines_rows {p : Program} (hp : p.WellFormed) (number : Nat)
    (rows : List (Address × Word)) :
    let whole : Program := ⟨p.words ++ rows⟩
    let result := addLines p number (rows.map (some ∘ rowLine))
    (whole.WellFormed ∧ result = .ok whole) ∨
      (¬ whole.WellFormed ∧ ∃ line flaw, result = .error (.malformed line flaw)) := by
  -- The program that has been read so far stays well-formed, which decides the next line.
  induction rows generalizing p number with
  | nil =>
    intro whole result
    have hwhole : whole = p := congrArg Program.mk (List.append_nil p.words)
    rw [hwhole]
    exact .inl ⟨hp, rfl⟩
  | cons row rest ih =>
    obtain ⟨addr, w⟩ := row
    intro whole result
    have hwhole : whole = ⟨(p.push addr w).words ++ rest⟩ := by
      show (⟨p.words ++ (addr, w) :: rest⟩ : Program) = ⟨p.words ++ [(addr, w)] ++ rest⟩
      rw [List.append_assoc, List.singleton_append]
    have hpush : whole.WellFormed →
        p.WellFormed ∧ w.isEmpty = false ∧ (p.get? addr).isSome = false := by
      rw [hwhole, ← Program.wellFormed_push_iff]
      exact Program.WellFormed.of_append
    have hline := addLine_row p addr w
    cases hw : w.isEmpty with
    | true =>
      rw [hw] at hline hpush
      have hresult : result = .error (.malformed number (.missingWord addr)) :=
        addLines_cons_of_error hline number _
      exact .inr ⟨fun h => Bool.noConfusion (hpush h).2.1, number, _, hresult⟩
    | false =>
      cases hused : (p.get? addr).isSome with
      | true =>
        rw [hw, hused] at hline
        rw [hused] at hpush
        have hresult : result = .error (.malformed number (.listedTwice addr)) :=
          addLines_cons_of_error hline number _
        exact .inr ⟨fun h => Bool.noConfusion (hpush h).2.2, number, _, hresult⟩
      | false =>
        rw [hw, hused] at hline
        have hresult : result = addLines (p.push addr w) (number + 1)
            (rest.map (some ∘ rowLine)) := addLines_cons_of_ok hline number _
        have hnext := Program.wellFormed_push_iff.mpr ⟨hp, hw, hused⟩
        rw [hresult, hwhole]
        exact ih hnext (number + 1)

/-- The lines above the words are skipped. -/
theorem addLines_imageLines (p : Program) :
    addLines {} 1 ((imageLines p).map some) = addLines {} 4 (p.words.map (some ∘ rowLine)) := by
  have htitle : addLine {} "; ZEV program image".toList = .ok {} := addLine_comment {} _
  have hcount : addLine {} s!"; {p.size} words".toList = .ok {} := by
    rw [toList_countLine]
    exact addLine_comment {} _
  unfold imageLines
  rw [List.map_cons, addLines_cons_of_ok htitle, List.map_cons, addLines_cons_of_ok hcount,
    List.map_cons, addLines_cons_of_ok (addLine_nil {}), List.map_map]

/-- **The image of a program** is read as the program if this is well-formed, and has a line
    with a flaw if not. -/
theorem parse_render (p : Program) :
    (p.WellFormed ∧ parse (render p) = .ok p) ∨
      (¬ p.WellFormed ∧ ∃ line flaw, parse (render p) = .error (.malformed line flaw)) := by
  unfold parse
  rw [lines_render, addLines_imageLines]
  exact addLines_rows Program.wellFormed_empty 4 p.words

/-- **Images are read back exactly where they can be.** The image of a program is read as the
    program if and only if no address occurs twice and no word is empty; otherwise a line of the
    image has a flaw. Every program that is read from a text is of this kind, so its image is
    read as the program again. -/
theorem image_round_trip :
    (∀ p : Program, parse (render p) = .ok p ↔ p.WellFormed) ∧
    (∀ p : Program, ¬ p.WellFormed →
      ∃ line flaw, parse (render p) = .error (.malformed line flaw)) ∧
    ∀ text q, parse text = .ok q → q.WellFormed ∧ parse (render q) = .ok q := by
  have hback : ∀ p : Program, p.WellFormed → parse (render p) = .ok p := by
    intro p hp
    rcases parse_render p with ⟨-, hparse⟩ | ⟨hnot, -⟩
    · exact hparse
    · exact absurd hp hnot
  have hread : ∀ text q, parse text = .ok q → q.WellFormed :=
    fun _ _ hparse => addLines_wellFormed Program.wellFormed_empty hparse
  refine ⟨fun p => ⟨hread (render p) p, hback p⟩, ?_, ?_⟩
  · intro p hp
    rcases parse_render p with ⟨hwell, -⟩ | ⟨-, hflaw⟩
    · exact absurd hwell hp
    · exact hflaw
  · intro text q hparse
    exact ⟨hread text q hparse, hback q (hread text q hparse)⟩

/-- A word at the last slot before one at slot 0, and a token with a sign mark; the image of one
    address with two words is refused. -/
theorem image_round_trip_signed :
    let negative : Bits := ⟨true, [false, true], List.cons_ne_nil _ _⟩
    let zero : Bits := ⟨false, [false], List.cons_ne_nil _ _⟩
    let p : Program := ⟨[(Address.last, ⟨[negative, zero]⟩), (⟨0⟩, ⟨[zero]⟩)]⟩
    let q : Program := p.push Address.last ⟨[zero]⟩
    parse (render p) = .ok p ∧ ∃ line flaw, parse (render q) = .error (.malformed line flaw) := by
  intro negative zero p q
  obtain ⟨hiff, hflaw, -⟩ := image_round_trip
  constructor
  · exact (hiff p).mpr ⟨by decide, by decide⟩
  · refine hflaw q fun hq => ?_
    have hdistinct : ¬ (q.words.map Prod.fst).Nodup := by decide
    exact hdistinct hq.distinct

end Image

end BitMachine
