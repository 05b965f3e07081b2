import BitMachine.Proofs.BinaryNumerals
import BitMachine.Proofs.ImageRoundTrip
import BitMachine.Proofs.SignMarks

namespace BitMachine

/-!
# Sign marks in images

An image may have tokens with sign marks. They are seen in its lines, and a MOV of the program may
put them into registers:

* `Word.Marked`, `Program.Marked` — words and programs with such a token;
* `Image.IsMarked` — a line with a sign mark in front of its comment, and `Image.marked_addLine`,
  `Image.marked_parse`: these lines are where the tokens come from;
* `Machine.LeftByMove.exists_token_load` — what a MOV has left is a token of the program;
* `Machine.signMarks_image` — **where the sign marks of a run come from**, if its program is an
  image.
-/

/-! ### Words -/

/-- A word with a token that carries a sign mark. -/
def Word.Marked (w : Word) : Prop :=
  ∃ token ∈ w.tokens, token.negative = true

/-- **Reading a word.** A sign mark in the characters is the sign mark of a token. -/
theorem Word.marked_iff_of_ofChars {cs : List Char} {w : Word} (h : ofChars cs = .ok w) :
    w.Marked ↔ signMark ∈ cs := by
  obtain ⟨tokens, htokens, hw⟩ := bind_eq_ok.mp h
  cases hw
  have hchars : Text.words cs = tokens.map Bits.chars := by
    rw [mapM_eq_ok] at htokens
    rw [← List.forall₂_eq_eq_eq, List.forall₂_map_right_iff]
    exact htokens.imp fun _ _ => Bits.ofChars_eq_ok_iff.mp
  have hspaced : Text.Spaced Text.isBlank cs (tokens.map Bits.chars) :=
    Text.pieces_eq_iff.mp hchars
  rw [hspaced.mem_iff rfl]
  simp [Marked, Bits.signMark_mem_chars]

/-- A program with a word that has such a token. -/
def Program.Marked (p : Program) : Prop :=
  ∃ row ∈ p.words, row.2.Marked

theorem Program.marked_push {p : Program} {addr : Address} {w : Word} :
    (p.push addr w).Marked ↔ p.Marked ∨ w.Marked := by
  unfold Marked push
  simp [or_and_right, exists_or]

/-! ### Lines -/

namespace Image

/-- A line with a sign mark that no comment hides. -/
def IsMarked (line : List Char) : Prop :=
  signMark ∈ line.takeWhile (· != ';')

/-- The start of a line that has neither a sign mark nor a comment. -/
theorem isMarked_append {front : List Char} (hfront : ∀ c ∈ front, c ≠ ';' ∧ c ≠ signMark)
    (rest : List Char) : IsMarked (front ++ rest) ↔ IsMarked rest := by
  have hkept : ∀ c ∈ front, (c != ';') = true := fun c hc => by simpa using (hfront c hc).1
  have hnot : signMark ∉ front := fun hmem => (hfront signMark hmem).2 rfl
  rw [IsMarked, List.takeWhile_append_of_pos hkept, List.mem_append, or_iff_right hnot]
  rfl

theorem ne_of_allBlank {blanks : List Char} (h : Text.AllBlank blanks) :
    ∀ c ∈ blanks, c ≠ ';' ∧ c ≠ signMark := by
  intro c hc
  have hblank := h c hc
  constructor
  · rintro rfl
    cases hblank
  · rintro rfl
    cases hblank

/-- Trimming takes no sign mark away. -/
theorem isMarked_trim (line : List Char) : IsMarked (Text.trim line) ↔ IsMarked line := by
  obtain ⟨lead, tail, hline, hlead, htail, -⟩ := Text.exists_trim line
  generalize Text.trim line = core at hline
  subst hline
  rw [List.append_assoc, isMarked_append (ne_of_allBlank hlead)]
  -- The blanks at the end are part of the comment, or follow a text without one.
  unfold IsMarked
  rw [List.takeWhile_append]
  split
  next hall =>
    have htail' : signMark ∉ tail.takeWhile (· != ';') := fun hmem =>
      (ne_of_allBlank htail _ ((List.takeWhile_sublist _).mem hmem)).2 rfl
    rw [List.mem_append, or_iff_left htail', (List.takeWhile_prefix _).eq_of_length hall]
  next => rfl

/-- **Entries.** What stands before the colon is an address and has no sign mark. -/
theorem marked_entry {line : List Char} {addr : Address} {w : Word}
    (h : entry line = .ok (addr, w)) : w.Marked ↔ IsMarked line := by
  unfold entry at h
  cases hcolon : splitColon? line with
  | none =>
    rw [hcolon] at h
    cases h
  | some parts =>
    obtain ⟨place, body⟩ := parts
    rw [hcolon] at h
    simp only [bind_eq_ok] at h
    obtain ⟨addr', haddr, w', hword, hentry⟩ := h
    obtain rfl : w' = w := by
      split at hentry
      next => cases hentry
      next =>
        cases hentry
        rfl
    have hline : line = place ++ ':' :: body := by
      unfold splitColon? at hcolon
      split at hcolon
      next => cases hcolon
      next c rest hdrop =>
        cases hcolon
        have hhead := List.head?_dropWhile_not (· != ':') line
        rw [hdrop] at hhead
        obtain rfl : c = ':' := by simpa using hhead
        rw [← hdrop, List.takeWhile_append_dropWhile]
    have hplace : ∀ c ∈ place, c ≠ ';' ∧ c ≠ signMark := by
      obtain ⟨digits, hdigits, hnumeral⟩ := Address.parse_eq_ok_iff.mp (mapError_eq_ok.mp haddr)
      rw [String.toList_ofList] at hdigits
      obtain ⟨lead, tail, hsplit, hlead, htail, -⟩ := Text.exists_trim place
      rw [hsplit, hdigits]
      intro c hc
      simp only [List.mem_append, List.mem_cons] at hc
      rcases hc with (hc | rfl | rfl | hc) | hc
      · exact ne_of_allBlank hlead c hc
      · decide
      · decide
      · have hdigit := hnumeral.isDigit c hc
        constructor
        · rintro rfl
          cases hdigit
        · rintro rfl
          cases hdigit
      · exact ne_of_allBlank htail c hc
    have hcolon : ∀ c ∈ [':'], c ≠ ';' ∧ c ≠ signMark :=
      List.forall_mem_singleton.mpr (by decide)
    rw [hline, isMarked_append hplace, Word.marked_iff_of_ofChars (mapError_eq_ok.mp hword)]
    exact (isMarked_append hcolon body).symm

/-- **One line** adds a word with a token that carries a sign mark exactly if a sign mark stands in
    the line. -/
theorem marked_addLine {p q : Program} {line : List Char} (h : addLine p line = .ok q) :
    q.Marked ↔ p.Marked ∨ IsMarked line := by
  rw [← isMarked_trim]
  cases htrim : Text.trim line with
  | nil =>
    rw [addLine, htrim] at h
    cases h
    simp [IsMarked]
  | cons c rest =>
    by_cases hc : c = ';'
    · subst hc
      rw [addLine, htrim] at h
      cases h
      simp [IsMarked]
    · rw [addLine_eq_bind p htrim hc] at h
      obtain ⟨⟨addr, w⟩, hentry, hpush⟩ := bind_eq_ok.mp h
      split at hpush
      next => cases hpush
      next =>
        cases hpush
        rw [Program.marked_push, marked_entry hentry]

/-- The lines of an image, one after the other. -/
theorem marked_addLines {p q : Program} {number : Nat} {lines : List (List Char)}
    (h : addLines p number (lines.map some) = .ok q) :
    q.Marked ↔ p.Marked ∨ ∃ line ∈ lines, IsMarked line := by
  induction lines generalizing p number with
  | nil =>
    cases h
    simp
  | cons line rest ih =>
    rw [List.map_cons] at h
    cases hline : addLine p line with
    | error flaw =>
      rw [addLines_cons_of_error hline] at h
      cases h
    | ok p' =>
      rw [addLines_cons_of_ok hline] at h
      rw [ih h, marked_addLine hline, List.exists_mem_cons_iff, or_assoc]

/-- **Sign marks are read from lines with sign marks.** -/
theorem marked_parse {text : String} {p : Program} (h : parse text = .ok p) :
    p.Marked ↔ ∃ line ∈ Text.lines text.toList, IsMarked line := by
  rw [marked_addLines h, or_iff_right]
  rintro ⟨row, hrow, -⟩
  cases hrow

end Image

/-! ### Runs -/

namespace Machine

/-- In the run of a program that has just been loaded, what a MOV has left in a register is a token
    of the program. -/
theorem LeftByMove.exists_token_load {config : Config} {p : Program} {k : Nat} {r : UInt64}
    {b : Bits} (h : ((create config).loadProgram p).1.LeftByMove k r b) :
    ∃ row ∈ p.words, b ∈ row.2.tokens := by
  obtain ⟨addr, w, hw, hmem⟩ := h.exists_token
  have hwords : ∀ a v, ((create config).loadProgram p).1.memory.cells.get? a = some v →
      ∃ row ∈ p.words, row.2 = v := by
    apply Memory.forall_get?_load
    · intro a v hv
      cases hv
    · exact fun row hrow => ⟨row, hrow, rfl⟩
  obtain ⟨row, hrow, rfl⟩ := hwords addr w hw
  exact ⟨row, hrow, hmem⟩

/-- **Where the sign marks come from.** Let a machine of any configuration run the program of any
    image. The program has a token with a sign mark exactly if a line of the image has a sign mark
    in front of its comment. After any number of steps, a bit-string with a sign mark in a register
    is what a SUB of a smaller and a larger number has left there, or a token of the program that a
    MOV has left there; only the former is possible if no line of the image has a sign mark. -/
theorem signMarks_image {text : String} {p : Program} (hparse : Image.parse text = .ok p)
    (config : Config) (k : Nat) :
    let m := ((create config).loadProgram p).1
    (p.Marked ↔ ∃ line ∈ Text.lines text.toList, Image.IsMarked line) ∧
      (∀ r b, (m.after k).registers.held r = some b → b.negative = true →
        m.LeftBySub k r b ∨ (m.LeftByMove k r b ∧ ∃ row ∈ p.words, b ∈ row.2.tokens)) ∧
      ((∀ line ∈ Text.lines text.toList, ¬ Image.IsMarked line) → m.OnlySubMarks k) := by
  intro m
  have hmarks : m.TracedMarks k := tracedMarks (Registers.held_blank _) k
  refine ⟨Image.marked_parse hparse, ?_, ?_⟩
  · intro r b hb hneg
    rcases hmarks r b hb with hneg' | hleft | hleft
    · rw [hneg] at hneg'
      cases hneg'
    · exact .inl hleft
    · exact .inr ⟨hleft, hleft.exists_token_load⟩
  · intro hlines r b hb
    rcases hmarks r b hb with hneg | hleft | hleft
    · exact .inl hneg
    · exact .inr hleft
    · left
      obtain ⟨row, hrow, hmem⟩ := hleft.exists_token_load
      rw [← Bool.not_eq_true]
      intro hneg
      obtain ⟨line, hline, hmark⟩ := (Image.marked_parse hparse).mp ⟨row, hrow, b, hmem, hneg⟩
      exact hlines line hline hmark

/-- Three minus seven in the run of an image whose one sign mark stands in a comment. -/
theorem signMarks_image_commented :
    ∃ p b, Image.parse "0x1: 0 0 0 11 ; -7\n0x2: 0 1 0 111\n0x3: 10 0 1 10" = .ok p ∧
      let m := ((create {}).loadProgram p).1
      ¬ p.Marked ∧ (m.after 3).registers.held 2 = some b ∧ b.text = "-100" ∧ m.LeftBySub 3 2 b := by
  let text := "0x1: 0 0 0 11 ; -7\n0x2: 0 1 0 111\n0x3: 10 0 1 10"
  let items : List (Address × Source.Item) :=
    [(⟨1⟩, .loadValue 0 3), (⟨2⟩, .loadValue 1 7), (⟨3⟩, .arith .sub 0 1 2)]
  let p := Source.programOf items 1
  have hparse : Image.parse text = .ok p := by decide +kernel
  have hlines : ∀ line ∈ Text.lines text.toList, ¬ Image.IsMarked line := by
    unfold Image.IsMarked
    decide +kernel
  let b : Bits := ⟨true, [true, false, false], List.cons_ne_nil _ _⟩
  have hb : (((create {}).loadProgram p).1.after 3).registers.held 2 = some b := by
    decide +kernel
  obtain ⟨hmarked, -, honly⟩ := signMarks_image hparse {} 3
  refine ⟨p, b, hparse, ?_, hb, rfl, ?_⟩
  · rintro hp
    obtain ⟨line, hline, hmark⟩ := hmarked.mp hp
    exact hlines line hline hmark
  · rcases honly hlines 2 b hb with hneg | hleft
    · cases hneg
    · exact hleft

/-- **A sign mark that no SUB has made.** The image is read, its word has a token with a sign mark,
    and after one step the token is in a register, although no SUB has written the register. -/
theorem signMarks_image_moved :
    ∃ p b, Image.parse "0x1: 0000 0000 0000 -101" = .ok p ∧
      (∃ row ∈ p.words, ∃ token ∈ row.2.tokens, token.negative = true) ∧
      let m := ((create {}).loadProgram p).1
      (m.after 1).registers.held 0 = some b ∧ b.text = "-101" ∧ b.negative = true ∧
        ∀ j lhs rhs dst, ¬ m.LastWrite 1 0 j (.arith .sub lhs rhs dst) := by
  let zero : Bits := ⟨false, [false, false, false, false], List.cons_ne_nil _ _⟩
  let b : Bits := ⟨true, [true, false, true], List.cons_ne_nil _ _⟩
  let p : Program := ⟨[(⟨1⟩, ⟨[zero, zero, zero, b]⟩)]⟩
  have hparse : Image.parse "0x1: 0000 0000 0000 -101" = .ok p := by decide +kernel
  have hstep : ((create {}).loadProgram p).1.step.2 = .ok (some (.mov 0 (.immediate b))) := by
    decide +kernel
  have hb : (((create {}).loadProgram p).1.after 1).registers.held 0 = some b := by
    decide +kernel
  refine ⟨p, b, hparse, by simp [p, b], hb, rfl, rfl, ?_⟩
  intro j lhs rhs dst hlast
  -- The one step there has been executes a MOV.
  obtain rfl : j = 0 := Nat.lt_one_iff.mp hlast.lt
  cases hlast.executed.symm.trans hstep

end Machine

end BitMachine
