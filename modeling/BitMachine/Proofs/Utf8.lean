import BitMachine.Text.Lines
import BitMachine.Text.Utf8
import Mathlib.Data.List.Basic
import Mathlib.Data.Set.List
import Mathlib.Tactic.Common

namespace BitMachine.Text

/-!
# UTF-8 and lines

Encoded texts are decoded again, and the lines of an encoded text are the encoded lines of the
text:

* `Encodes` — the table of UTF-8: which bytes stand for a code point;
* `decodeUtf8?_eq_some_iff` — what was encoded is decoded, and nothing else, one row of the table
  at a time;
* `Marks` — an encoding in which a mark stays one unit that nothing else contains;
* `linesWith_flatMap` — with such marks the lines are the same before and after encoding;
* `byteLines_encodeUtf8` — the lines of an encoded text;
* `isUtf8_iff_byteLines` — bytes are those of a text if each line is, and `BreaksAfter`: the first
  line that is none.
-/

/-! ### The table -/

/-- **The bytes that stand for a code point.** The lead byte tells how many bytes there are; each
    further byte has six bits of the code point, and no shorter row may have room for it. -/
inductive Encodes : Nat → List UInt8 → Prop where
  /-- One byte, the code point itself. -/
  | one {b : UInt8} (hb : b.toNat < 0x80) : Encodes b.toNat [b]
  /-- Two bytes. -/
  | two {b x : UInt8} {i j : Nat} (hb : b.toNat = i + 0xC0) (hi : i < 0x20)
      (hx : x.toNat = j + 0x80) (hj : j < 0x40) (hleast : 0x80 ≤ i * 64 + j) :
      Encodes (i * 64 + j) [b, x]
  /-- Three bytes. -/
  | three {b x y : UInt8} {i j k : Nat} (hb : b.toNat = i + 0xE0) (hi : i < 0x10)
      (hx : x.toNat = j + 0x80) (hj : j < 0x40) (hy : y.toNat = k + 0x80) (hk : k < 0x40)
      (hleast : 0x800 ≤ (i * 64 + j) * 64 + k) :
      Encodes ((i * 64 + j) * 64 + k) [b, x, y]
  /-- Four bytes. -/
  | four {b x y z : UInt8} {i j k l : Nat} (hb : b.toNat = i + 0xF0) (hi : i < 0x08)
      (hx : x.toNat = j + 0x80) (hj : j < 0x40) (hy : y.toNat = k + 0x80) (hk : k < 0x40)
      (hz : z.toNat = l + 0x80) (hl : l < 0x40)
      (hleast : 0x10000 ≤ ((i * 64 + j) * 64 + k) * 64 + l) :
      Encodes (((i * 64 + j) * 64 + k) * 64 + l) [b, x, y, z]

/-- A row of the table may be given with any other way to write its code point. -/
theorem Encodes.of_eq {m n : Nat} {bytes : List UInt8} (h : Encodes m bytes) (hn : n = m) :
    Encodes n bytes :=
  hn ▸ h

theorem Encodes.ne_nil {n : Nat} {bytes : List UInt8} (h : Encodes n bytes) : bytes ≠ [] := by
  cases h <;> nofun

theorem toNat_byte {n : Nat} (h : n < 0x100) : (UInt8.ofNat n).toNat = n :=
  UInt8.toNat_ofNat_of_lt' h

theorem encodes_encodeChar (c : Char) : Encodes c.toNat (String.utf8EncodeChar c) := by
  have hv : c.val.toNat = c.toNat := rfl
  have hmax : c.toNat < 0x110000 := by
    rcases c.valid with h | ⟨-, h⟩
    · exact Nat.lt_trans h (by decide)
    · exact h
  unfold String.utf8EncodeChar
  simp only [hv]
  -- In each row the digits to the base 64 give the code point back.
  split_ifs with h1 h2 h3
  · have hb : (UInt8.ofNat c.toNat).toNat = c.toNat := toNat_byte (by omega)
    exact (Encodes.one (by omega)).of_eq hb.symm
  · apply (Encodes.two (toNat_byte _) _ (toNat_byte _) _ _).of_eq
    all_goals omega
  · apply (Encodes.three (toNat_byte _) _ (toNat_byte _) _ (toNat_byte _) _ _).of_eq
    all_goals omega
  · apply (Encodes.four (toNat_byte _) _ (toNat_byte _) _ (toNat_byte _) _ (toNat_byte _) _ _).of_eq
    all_goals omega

/-- **A code point has one row of the table.** The rows have room for different code points, and in
    a row the digits to the base 64 are determined. -/
theorem Encodes.unique {m n : Nat} {bytes bytes' : List UInt8} (h : Encodes m bytes)
    (h' : Encodes n bytes') (hmn : m = n) : bytes = bytes' := by
  have hbyte (b b' : UInt8) (hb : b.toNat = b'.toNat) : b = b' := UInt8.toNat.inj hb
  cases h with
  | @one b hb =>
    cases h' with
    | @one b' hb' => rw [hbyte b b' hmn]
    | _ => omega
  | @two b x i j hb hi hx hj hleast =>
    cases h' with
    | @two b' x' i' j' hb' hi' hx' hj' hleast' =>
      rw [hbyte b b' (by omega), hbyte x x' (by omega)]
    | _ => omega
  | @three b x y i j k hb hi hx hj hy hk hleast =>
    cases h' with
    | @three b' x' y' i' j' k' hb' hi' hx' hj' hy' hk' hleast' =>
      rw [hbyte b b' (by omega), hbyte x x' (by omega),
        hbyte y y' (by omega)]
    | _ => omega
  | @four b x y z i j k l hb hi hx hj hy hk hz hl hleast =>
    cases h' with
    | @four b' x' y' z' i' j' k' l' hb' hi' hx' hj' hy' hk' hz' hl' hleast' =>
      rw [hbyte b b' (by omega), hbyte x x' (by omega),
        hbyte y y' (by omega), hbyte z z' (by omega)]
    | _ => omega

/-! ### Decoding -/

/-- The code point of a character stands for the character, and for no other. -/
theorem scalar?_eq_some_iff {c : Char} {least n : Nat} :
    scalar? least n = some c ↔ c.toNat = n ∧ least ≤ n := by
  unfold scalar?
  constructor
  · intro h
    by_cases hvalid : n.isValidChar
    · rw [dif_pos hvalid, Option.ite_none_right_eq_some] at h
      obtain ⟨hleast, hc⟩ := h
      cases hc
      exact ⟨rfl, hleast⟩
    · rw [dif_neg hvalid] at h
      cases h
  · rintro ⟨rfl, hleast⟩
    have hvalid : c.toNat.isValidChar := c.valid
    rw [dif_pos hvalid, if_pos hleast]
    rfl

theorem continuation?_eq_some_iff {b : UInt8} {x : Nat} :
    continuation? b = some x ↔ b.toNat = x + 0x80 ∧ x < 0x40 := by
  have hrange : (0x80 ≤ b && b < 0xC0) = true ↔ 0x80 ≤ b.toNat ∧ b.toNat < 0xC0 := by
    simp [UInt8.le_iff_toNat_le, UInt8.lt_iff_toNat_lt]
  unfold continuation?
  constructor
  · intro h
    split_ifs at h with hb
    have hbounds := hrange.mp hb
    have hx := Option.some.inj h
    omega
  · rintro ⟨hb, hx⟩
    rw [if_pos (hrange.mpr (by omega)), Option.some.injEq]
    omega

/-- A row of the table is read as its character, whatever follows it. -/
theorem Encodes.decodeChar?_eq {c : Char} {b : UInt8} {tail : List UInt8}
    (h : Encodes c.toNat (b :: tail)) (rest : List UInt8) :
    decodeChar? b (tail ++ rest) = some (c, rest) := by
  generalize hn : c.toNat = n at h
  -- The lead byte is below the bound of its own row, and not below those of the rows before.
  cases h with
  | one hb =>
    have h80 : b < 0x80 := UInt8.lt_iff_toNat_lt.mpr hb
    simp only [decodeChar?, if_pos h80, scalar?_eq_some_iff.mpr ⟨hn, Nat.zero_le _⟩]
    rfl
  | two hb hi hx hj hleast =>
    have h80 : ¬ b < 0x80 := by simp [UInt8.lt_iff_toNat_lt, hb]
    have hC0 : ¬ b < 0xC0 := by simp [UInt8.lt_iff_toNat_lt, hb]
    have hE0 : b < 0xE0 := by
      simp [UInt8.lt_iff_toNat_lt, hb]
      omega
    have hj := continuation?_eq_some_iff.mpr ⟨hx, hj⟩
    have hc := scalar?_eq_some_iff.mpr ⟨hn, hleast⟩
    simp only [decodeChar?, if_neg h80, if_neg hC0, if_pos hE0, List.cons_append, List.nil_append,
      hb, hj, hc, Nat.add_sub_cancel, Option.bind_eq_bind, Option.bind_some]
  | three hb hi hx hj hy hk hleast =>
    have h80 : ¬ b < 0x80 := by simp [UInt8.lt_iff_toNat_lt, hb]
    have hC0 : ¬ b < 0xC0 := by simp [UInt8.lt_iff_toNat_lt, hb]
    have hE0 : ¬ b < 0xE0 := by simp [UInt8.lt_iff_toNat_lt, hb]
    have hF0 : b < 0xF0 := by
      simp [UInt8.lt_iff_toNat_lt, hb]
      omega
    have hj := continuation?_eq_some_iff.mpr ⟨hx, hj⟩
    have hk := continuation?_eq_some_iff.mpr ⟨hy, hk⟩
    have hc := scalar?_eq_some_iff.mpr ⟨hn, hleast⟩
    simp only [decodeChar?, if_neg h80, if_neg hC0, if_neg hE0, if_pos hF0, List.cons_append,
      List.nil_append, hb, hj, hk, hc, Nat.add_sub_cancel, Option.bind_eq_bind, Option.bind_some]
  | four hb hi hx hj hy hk hz hl hleast =>
    have h80 : ¬ b < 0x80 := by simp [UInt8.lt_iff_toNat_lt, hb]
    have hC0 : ¬ b < 0xC0 := by simp [UInt8.lt_iff_toNat_lt, hb]
    have hE0 : ¬ b < 0xE0 := by simp [UInt8.lt_iff_toNat_lt, hb]
    have hF0 : ¬ b < 0xF0 := by simp [UInt8.lt_iff_toNat_lt, hb]
    have hF8 : b < 0xF8 := by
      simp [UInt8.lt_iff_toNat_lt, hb]
      omega
    have hj := continuation?_eq_some_iff.mpr ⟨hx, hj⟩
    have hk := continuation?_eq_some_iff.mpr ⟨hy, hk⟩
    have hl := continuation?_eq_some_iff.mpr ⟨hz, hl⟩
    have hc := scalar?_eq_some_iff.mpr ⟨hn, hleast⟩
    simp only [decodeChar?, if_neg h80, if_neg hC0, if_neg hE0, if_neg hF0, if_pos hF8,
      List.cons_append, List.nil_append, hb, hj, hk, hl, hc, Nat.add_sub_cancel,
      Option.bind_eq_bind, Option.bind_some]

/-- What is read as a character is the row of the character. -/
theorem encodes_of_decodeChar? {c : Char} {b : UInt8} {rest tail : List UInt8}
    (h : decodeChar? b rest = some (c, tail)) :
    ∃ further, rest = further ++ tail ∧ Encodes c.toNat (b :: further) := by
  unfold decodeChar? at h
  -- The bounds of the lead byte are those of the rows.
  split_ifs at h with h80 hC0 hE0 hF0 hF8
  all_goals simp only [UInt8.lt_iff_toNat_lt, Nat.not_lt] at h80
  · obtain ⟨c', hc, hresult⟩ := Option.map_eq_some_iff.mp h
    cases hresult
    have hn := (scalar?_eq_some_iff.mp hc).1
    exact ⟨[], rfl, (Encodes.one h80).of_eq hn⟩
  · have hlo : 0xC0 ≤ b.toNat := by simpa [UInt8.lt_iff_toNat_lt] using hC0
    have hhi : b.toNat < 0xE0 := by simpa [UInt8.lt_iff_toNat_lt] using hE0
    split at h
    next x rest =>
      simp only [Option.bind_eq_bind, Option.bind_eq_some_iff, continuation?_eq_some_iff,
        scalar?_eq_some_iff] at h
      obtain ⟨j, ⟨hx, hj⟩, c', ⟨hn, hleast⟩, hresult⟩ := h
      cases hresult
      exact ⟨[x], rfl, (Encodes.two (by omega) (by omega) hx hj hleast).of_eq hn⟩
    next => cases h
  · have hlo : 0xE0 ≤ b.toNat := by simpa [UInt8.lt_iff_toNat_lt] using hE0
    have hhi : b.toNat < 0xF0 := by simpa [UInt8.lt_iff_toNat_lt] using hF0
    split at h
    next x y rest =>
      simp only [Option.bind_eq_bind, Option.bind_eq_some_iff, continuation?_eq_some_iff,
        scalar?_eq_some_iff] at h
      obtain ⟨j, ⟨hx, hj⟩, k, ⟨hy, hk⟩, c', ⟨hn, hleast⟩, hresult⟩ := h
      cases hresult
      exact ⟨[x, y], rfl, (Encodes.three (by omega) (by omega) hx hj hy hk hleast).of_eq hn⟩
    next => cases h
  · have hlo : 0xF0 ≤ b.toNat := by simpa [UInt8.lt_iff_toNat_lt] using hF0
    have hhi : b.toNat < 0xF8 := by simpa [UInt8.lt_iff_toNat_lt] using hF8
    split at h
    next x y z rest =>
      simp only [Option.bind_eq_bind, Option.bind_eq_some_iff, continuation?_eq_some_iff,
        scalar?_eq_some_iff] at h
      obtain ⟨j, ⟨hx, hj⟩, k, ⟨hy, hk⟩, l, ⟨hz, hl⟩, c', ⟨hn, hleast⟩, hresult⟩ := h
      cases hresult
      exact ⟨[x, y, z], rfl,
        (Encodes.four (by omega) (by omega) hx hj hy hk hz hl hleast).of_eq hn⟩
    next => cases h

/-- **What was encoded is decoded.** -/
theorem decodeUtf8?_encodeUtf8 (cs : List Char) : decodeUtf8? (encodeUtf8 cs) = some cs := by
  induction cs with
  | nil =>
    rw [encodeUtf8, List.flatMap_nil, decodeUtf8?]
  | cons c cs ih =>
    have hencodes := encodes_encodeChar c
    obtain ⟨b, tail, hbytes⟩ := List.exists_cons_of_ne_nil hencodes.ne_nil
    rw [hbytes] at hencodes
    have hchar := hencodes.decodeChar?_eq (encodeUtf8 cs)
    have hcons : encodeUtf8 (c :: cs) = b :: (tail ++ encodeUtf8 cs) := by
      rw [encodeUtf8, List.flatMap_cons, hbytes]
      rfl
    rw [hcons, decodeUtf8?]
    -- The decoder takes the first character off, and the induction does the rest.
    split
    next hnone => cases hchar.symm.trans hnone
    next hsome =>
      cases hchar.symm.trans hsome
      rw [ih]
      rfl

/-- What was decoded is decoded from its encoding only. -/
theorem eq_encodeUtf8 {bs : List UInt8} {cs : List Char} (h : decodeUtf8? bs = some cs) :
    bs = encodeUtf8 cs := by
  induction bs using decodeUtf8?.induct generalizing cs with
  | case1 =>
    rw [decodeUtf8?] at h
    cases h
    rfl
  | case2 b rest hnone =>
    rw [decodeUtf8?] at h
    split at h
    next => cases h
    next hsome => cases hnone.symm.trans hsome
  | case3 b rest c tail hsome ih =>
    rw [decodeUtf8?] at h
    split at h
    next => cases h
    next hsome' =>
      cases hsome.symm.trans hsome'
      obtain ⟨cs', htail, rfl⟩ := Option.map_eq_some_iff.mp h
      obtain ⟨further, rfl, hencodes⟩ := encodes_of_decodeChar? hsome
      -- The bytes of the character are its row, and the induction has the others.
      have hrow : b :: further = String.utf8EncodeChar c :=
        hencodes.unique (encodes_encodeChar c) rfl
      rw [ih htail, ← List.cons_append, hrow]
      rfl

/-- **The bytes of a text are those that are decoded to it**, and no others. -/
theorem decodeUtf8?_eq_some_iff {bs : List UInt8} {cs : List Char} :
    decodeUtf8? bs = some cs ↔ bs = encodeUtf8 cs := by
  constructor
  · exact eq_encodeUtf8
  · rintro rfl
    exact decodeUtf8?_encodeUtf8 cs

/-! ### Lines -/

/-- A byte that is a code point of its own occurs in no other encoding. -/
theorem Encodes.eq_of_mem {n : Nat} {bytes : List UInt8} (h : Encodes n bytes) {b : UInt8}
    (hmem : b ∈ bytes) (hb : b.toNat < 0x80) : b.toNat = n := by
  cases h with
  | one =>
    rw [List.mem_singleton.mp hmem]
  | two hb' hi hx hj =>
    simp only [List.mem_cons, List.not_mem_nil, or_false] at hmem
    rcases hmem with rfl | rfl <;> omega
  | three hb' hi hx hj hy hk =>
    simp only [List.mem_cons, List.not_mem_nil, or_false] at hmem
    rcases hmem with rfl | rfl | rfl <;> omega
  | four hb' hi hx hj hy hk hz hl =>
    simp only [List.mem_cons, List.not_mem_nil, or_false] at hmem
    rcases hmem with rfl | rfl | rfl | rfl <;> omega

section Marks

variable {α β : Type} [BEq α] [LawfulBEq α] [BEq β] [LawfulBEq β]

/-- A mark that an encoding keeps: it is encoded as one unit, which is in no other encoding. -/
structure Marks (f : α → List β) (a : α) (b : β) : Prop where
  /-- The mark is one unit. -/
  encoded : f a = [b]
  /-- The unit is found nowhere else. -/
  only : ∀ {c}, b ∈ f c → c = a

variable {f : α → List β} {a : α} {b : β}

theorem splitOn_append {l : List β} (h : b ∉ l) (rest : List β) :
    (l ++ rest).splitOn b = (rest.splitOn b).modifyHead (l ++ ·) := by
  induction l with
  | nil => exact (congrFun List.modifyHead_id _).symm
  | cons x l ih =>
    rw [List.mem_cons, not_or] at h
    have hx : ¬ (x == b) = true := by simpa using Ne.symm h.1
    rw [List.cons_append, List.splitOn, List.splitOnP_cons_eq_if_modifyHead, if_neg hx,
      ← List.splitOn, ih h.2, List.modifyHead_modifyHead]
    rfl

/-- The segments of an encoded list are the encoded segments. -/
theorem Marks.splitOn_flatMap (h : Marks f a b) (cs : List α) :
    (cs.flatMap f).splitOn b = (cs.splitOn a).map (·.flatMap f) := by
  induction cs with
  | nil => rfl
  | cons c cs ih =>
    -- A mark opens a segment on both sides; any other character goes into the first one.
    by_cases hc : c = a
    · rw [hc, List.flatMap_cons, h.encoded, List.singleton_append, List.splitOn, List.splitOn,
        List.splitOnP_cons_eq_if_modifyHead, List.splitOnP_cons_eq_if_modifyHead, if_pos (by simp),
        if_pos (by simp), ← List.splitOn, ← List.splitOn, ih]
      rfl
    · have hbeq : ¬ (c == a) = true := by simpa using hc
      rw [List.flatMap_cons, splitOn_append fun hmem => hc (h.only hmem), ih, List.splitOn,
        List.splitOn, List.splitOnP_cons_eq_if_modifyHead, if_neg hbeq]
      cases List.splitOnP (· == a) cs <;> simp

theorem Marks.dropReturn_flatMap (h : Marks f a b) (hf : ∀ c, f c ≠ []) (line : List α) :
    dropReturn b (line.flatMap f) = (dropReturn a line).flatMap f := by
  rcases List.eq_nil_or_concat' line with rfl | ⟨line, c, rfl⟩
  · rfl
  unfold dropReturn
  by_cases hc : c = a
  · subst hc
    simp [h.encoded]
  · -- The last unit belongs to the last character.
    obtain ⟨xs, x, hx⟩ := (List.eq_nil_or_concat' (f c)).resolve_left (hf c)
    have hxb : x ≠ b := by
      rintro rfl
      exact hc (h.only (by simp [hx]))
    simp [hx, hc, hxb]

theorem Marks.linesOfSegments_flatMap (h : Marks f a b) (hf : ∀ c, f c ≠ [])
    (segments : List (List α)) :
    linesOfSegments b (segments.map (·.flatMap f))
      = (linesOfSegments a segments).map (·.flatMap f) := by
  induction segments with
  | nil => rfl
  | cons segment rest ih =>
    cases rest with
    | nil =>
      -- The last segment is a line unless it is empty.
      cases segment with
      | nil => rfl
      | cons c cs =>
        have hne : (c :: cs).flatMap f ≠ [] := by
          rw [List.flatMap_cons]
          exact List.append_ne_nil_of_left_ne_nil (hf c) _
        show (if ((c :: cs).flatMap f).isEmpty = true then [] else [(c :: cs).flatMap f]) = _
        rw [if_neg (by simpa using hne)]
        rfl
    | cons next rest =>
      show dropReturn b (segment.flatMap f) :: _ = (dropReturn a segment).flatMap f :: _
      rw [h.dropReturn_flatMap hf]
      exact congrArg _ ih

end Marks

/-- **With such marks the lines are the same before and after encoding.** -/
theorem linesWith_flatMap {α β : Type} [BEq α] [LawfulBEq α] [BEq β] [LawfulBEq β]
    {f : α → List β} (hf : ∀ c, f c ≠ []) {feed ret : α} {feed' ret' : β}
    (hfeed : Marks f feed feed') (hret : Marks f ret ret') (cs : List α) :
    linesWith feed' ret' (cs.flatMap f) = (linesWith feed ret cs).map (·.flatMap f) := by
  rw [linesWith, hfeed.splitOn_flatMap, hret.linesOfSegments_flatMap hf, linesWith]

/-- A character of the first row of the table is a mark. -/
theorem marks_encodeChar {c : Char} {b : UInt8} (hc : c.toNat = b.toNat) (hb : b.toNat < 0x80) :
    Marks String.utf8EncodeChar c b where
  encoded := by
    have hrow : c.val.toNat ≤ 127 := by
      show c.toNat ≤ 127
      omega
    unfold String.utf8EncodeChar
    simp only [if_pos hrow]
    show [UInt8.ofNat c.toNat] = [b]
    rw [hc, UInt8.ofNat_toNat]
  only {c'} hmem := by
    have h := (encodes_encodeChar c').eq_of_mem hmem hb
    exact Char.ext (UInt32.toNat.inj (h.symm.trans hc.symm))

/-- **The lines of an encoded text** are the encoded lines of the text. -/
theorem byteLines_encodeUtf8 (cs : List Char) :
    byteLines (encodeUtf8 cs) = (lines cs).map encodeUtf8 :=
  linesWith_flatMap (fun c => (encodes_encodeChar c).ne_nil)
    (marks_encodeChar rfl (by decide)) (marks_encodeChar rfl (by decide)) cs

/-! ### Bytes of no text -/

/-- The bytes of a text. -/
def IsUtf8 (bs : List UInt8) : Prop :=
  ∃ cs, bs = encodeUtf8 cs

theorem decodeUtf8?_eq_none_iff {bs : List UInt8} : decodeUtf8? bs = none ↔ ¬ IsUtf8 bs := by
  simp only [IsUtf8, ← decodeUtf8?_eq_some_iff, Option.eq_none_iff_forall_ne_some, not_exists]

theorem IsUtf8.append {bs bs' : List UInt8} (h : IsUtf8 bs) (h' : IsUtf8 bs') :
    IsUtf8 (bs ++ bs') := by
  obtain ⟨cs, rfl⟩ := h
  obtain ⟨cs', rfl⟩ := h'
  exact ⟨cs ++ cs', List.flatMap_append.symm⟩

theorem isUtf8_nil : IsUtf8 [] :=
  ⟨[], rfl⟩

theorem isUtf8_feed : IsUtf8 [10] :=
  ⟨['\n'], rfl⟩

theorem isUtf8_return : IsUtf8 [13] :=
  ⟨['\r'], rfl⟩

/-- The carriage return of a line end is a text. -/
theorem isUtf8_of_dropReturn {segment : List UInt8} (h : IsUtf8 (dropReturn 13 segment)) :
    IsUtf8 segment := by
  unfold dropReturn at h
  split_ifs at h with hlast
  · rw [Option.any_eq_true] at hlast
    obtain ⟨b, hb, hreturn⟩ := hlast
    rw [beq_iff_eq] at hreturn
    subst hreturn
    rw [← List.dropLast_append_getLast? 13 hb]
    exact h.append isUtf8_return
  · exact h

/-- Lines of texts come from segments of texts. -/
theorem isUtf8_of_linesOfSegments {segments : List (List UInt8)}
    (h : ∀ line ∈ linesOfSegments 13 segments, IsUtf8 line) :
    ∀ segment ∈ segments, IsUtf8 segment := by
  induction segments with
  | nil => nofun
  | cons segment rest ih =>
    cases rest with
    | nil =>
      rw [List.forall_mem_singleton]
      by_cases hnil : segment = []
      · rw [hnil]
        exact isUtf8_nil
      · exact h segment (by simp [linesOfSegments, hnil])
    | cons next rest =>
      rw [linesOfSegments, List.forall_mem_cons] at h
      · exact List.forall_mem_cons.mpr ⟨isUtf8_of_dropReturn h.1, ih h.2⟩
      · nofun

/-- Segments of texts with line feeds between them make up a text. -/
theorem isUtf8_intercalate {segments : List (List UInt8)}
    (h : ∀ segment ∈ segments, IsUtf8 segment) : IsUtf8 ([10].intercalate segments) := by
  induction segments with
  | nil => exact isUtf8_nil
  | cons segment rest ih =>
    obtain ⟨hsegment, hrest⟩ := List.forall_mem_cons.mp h
    cases rest with
    | nil => simpa using hsegment
    | cons next rest =>
      rw [List.intercalate_cons_cons]
      exact (hsegment.append isUtf8_feed).append (ih hrest)

/-- **Bytes are those of a text if each line is.** -/
theorem isUtf8_iff_byteLines {bs : List UInt8} :
    IsUtf8 bs ↔ ∀ line ∈ byteLines bs, IsUtf8 line := by
  constructor
  · rintro ⟨cs, rfl⟩ line hline
    rw [byteLines_encodeUtf8] at hline
    obtain ⟨text, -, rfl⟩ := List.mem_map.mp hline
    exact ⟨text, rfl⟩
  · intro h
    have hwhole := isUtf8_intercalate (isUtf8_of_linesOfSegments h)
    rwa [List.intercalate_splitOn] at hwhole

/-- **The first line that is no text**, with the texts of the lines in front of it. -/
def BreaksAfter (bs : List UInt8) (front : List (List Char)) : Prop :=
  ∃ bad rear, byteLines bs = front.map encodeUtf8 ++ bad :: rear ∧ ¬ IsUtf8 bad

/-- Bytes of no text have a first line that is no text. -/
theorem exists_breaksAfter {bs : List UInt8} (h : ¬ IsUtf8 bs) : ∃ front, BreaksAfter bs front := by
  cases hfind : (byteLines bs).find? fun line => (decodeUtf8? line).isNone with
  | none =>
    rw [List.find?_eq_none] at hfind
    refine absurd (isUtf8_iff_byteLines.mpr fun line hline => ?_) h
    have hsome := hfind line hline
    rwa [Option.isNone_iff_eq_none, decodeUtf8?_eq_none_iff, not_not] at hsome
  | some bad =>
    obtain ⟨hbad, front, rear, hsplit, hfront⟩ := List.find?_eq_some_iff_append.mp hfind
    rw [Option.isNone_iff_eq_none, decodeUtf8?_eq_none_iff] at hbad
    have htexts : front ∈ Set.range (List.map encodeUtf8) := by
      rw [Set.range_list_map]
      intro line hline
      have hsome : (decodeUtf8? line).isSome = true := by simpa using hfront line hline
      obtain ⟨text, htext⟩ := Option.isSome_iff_exists.mp hsome
      exact ⟨text, (decodeUtf8?_eq_some_iff.mp htext).symm⟩
    obtain ⟨texts, rfl⟩ := htexts
    exact ⟨texts, bad, rear, hsplit, hbad⟩

end BitMachine.Text
