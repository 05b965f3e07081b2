import BitMachine.CommandLine.Commands
import BitMachine.Proofs.Files
import BitMachine.Proofs.ImageFile
import Mathlib.Data.List.Induction

namespace BitMachine

/-!
# Images from files

An image that is read from a file, line by line, against the image of a text:

* `Image.FirstFlaw` — the first line of an image that has a flaw, and
  `Image.readable_or_firstFlaw`: lines without one are read as a program;
* `Image.ofBytes_of_breaksAfter` — a file with a line that is no text is read up to that line;
* `Directory.loadImage` — what a command goes on with when its file is an image, and
  `Directory.loadImage_of_write`: that of a file that was written;
* `Directory.loadImage_agrees` — the file against the text, and a program that was written.
-/

namespace Image

/-! ### The first flaw -/

/-- Lines are read one after the other. -/
theorem addLines_append (p : Program) (number : Nat) (front : List (List Char))
    (rest : List (Option (List Char))) :
    addLines p number (front.map some ++ rest)
      = (addLines p number (front.map some)).bind fun q =>
          addLines q (number + front.length) rest := by
  induction front generalizing p number with
  | nil => rfl
  | cons line front ih =>
    rw [List.map_cons, List.cons_append, List.length_cons]
    cases hline : addLine p line with
    | error flaw =>
      rw [addLines_cons_of_error hline, addLines_cons_of_error hline]
      rfl
    | ok q =>
      rw [addLines_cons_of_ok hline, addLines_cons_of_ok hline, ih, Nat.add_right_comm,
        Nat.add_assoc]

/-- **The first line with a flaw.** The lines in front of it are read as a program, to which it
    cannot be added. -/
inductive FirstFlaw (lines : List (List Char)) : Nat → ImageFlaw → Prop
  /-- The line after those of `front`. -/
  | after {front rear : List (List Char)} {line : List Char} {p : Program} {flaw : ImageFlaw}
      (hlines : lines = front ++ line :: rear) (hfront : addLines {} 1 (front.map some) = .ok p)
      (hline : addLine p line = .error flaw) : FirstFlaw lines (front.length + 1) flaw

section

variable {lines : List (List Char)} {number : Nat} {flaw : ImageFlaw}

/-- Later lines do not count. -/
theorem FirstFlaw.append (h : FirstFlaw lines number flaw) (rest : List (List Char)) :
    FirstFlaw (lines ++ rest) number flaw := by
  obtain ⟨rfl, hfront, hline⟩ := h
  exact .after (by rw [List.append_assoc, List.cons_append]) hfront hline

/-- The first flaw is what is reported, whatever follows. -/
theorem FirstFlaw.addLines_eq (h : FirstFlaw lines number flaw)
    (rest : List (Option (List Char))) :
    addLines {} 1 (lines.map some ++ rest) = .error (.malformed number flaw) := by
  obtain ⟨rfl, hfront, hline⟩ := h
  rw [List.map_append, List.append_assoc, addLines_append, hfront, List.map_cons,
    List.cons_append]
  exact (addLines_cons_of_error hline _ _).trans (by rw [Nat.add_comm])

end

/-- **Lines are read as a program, or have a first flaw.** -/
theorem readable_or_firstFlaw (lines : List (List Char)) :
    (∃ p, addLines {} 1 (lines.map some) = .ok p) ∨ ∃ number flaw, FirstFlaw lines number flaw := by
  -- A further line has a flaw only where those in front of it have none.
  induction lines using List.reverseRecOn with
  | nil => exact .inl ⟨{}, rfl⟩
  | append_singleton front line ih =>
    rcases ih with ⟨p, hfront⟩ | ⟨number, flaw, hflaw⟩
    · cases hline : addLine p line with
      | error flaw => exact .inr ⟨_, flaw, .after rfl hfront hline⟩
      | ok q =>
        left
        refine ⟨q, ?_⟩
        rw [List.map_append, addLines_append, hfront]
        exact addLines_cons_of_ok hline _ []
    · exact .inr ⟨number, flaw, hflaw.append [line]⟩

/-- **A file with a line that is no text** is read up to that line. -/
theorem ofBytes_of_breaksAfter {content : List UInt8} {front : List (List Char)}
    (h : Text.BreaksAfter content front) :
    ofBytes content
      = (addLines {} 1 (front.map some)).bind fun _ => .error (.file .invalidText) := by
  obtain ⟨bad, rear, hlines, hbad⟩ := h
  have hfront : (front.map Text.encodeUtf8).map Text.decodeUtf8? = front.map some := by
    rw [List.map_map]
    exact List.map_congr_left fun line _ => Text.decodeUtf8?_encodeUtf8 line
  rw [ofBytes, hlines, List.map_append, List.map_cons, hfront,
    Text.decodeUtf8?_eq_none_iff.mpr hbad, addLines_append]
  rfl

end Image

/-! ### Files -/

namespace Directory

/-- The program of the image file that a path leads to. -/
def loadImage (d : Directory) (path : String) : Except ImageError Program :=
  ((d.read path).mapError ImageError.file).bind Image.ofBytes

/-- A command goes on with the program of its image file, or tells why there is none. -/
theorem runIn_withImage (d : Directory) (path : String) (next : Program → Script) :
    (withImage path next).runIn d
      = match d.loadImage path with
        | .error e => (Script.fail s!"Failed to load image: {e.message}").runIn d
        | .ok program => (next program).runIn d := by
  unfold withImage loadImage
  rw [Script.runIn]
  cases ((d.read path).mapError ImageError.file).bind Image.ofBytes <;> rfl

theorem loadImage_of_read {d : Directory} {path : String} {content : List UInt8}
    (h : d.read path = .ok content) : d.loadImage path = Image.ofBytes content := by
  rw [loadImage, h]
  rfl

/-- **A program that was written** is read back exactly if it is well-formed. -/
theorem loadImage_of_write {d d' : Directory} {path : String} {p : Program}
    (h : d.write path (Image.toBytes p) = .ok d') : d'.loadImage path = .ok p ↔ p.WellFormed := by
  rw [loadImage_of_read (read_of_write h)]
  exact Image.ofBytes_toBytes_iff

/-- **Images are read from files as from texts.** The image of a file that is UTF-8 is that of its
    text, with the same program or the same flaw. A file that is not UTF-8 has a first line that is
    no text; the first flaw of the lines in front of it is reported, or else that the file is no
    text. A program that was written is read back exactly if it is well-formed. -/
theorem loadImage_agrees :
    (∀ (d : Directory) (path : String) (content : List UInt8), d.read path = .ok content →
      (∀ text : String, content = Text.encodeUtf8 text.toList →
        d.loadImage path = Image.parse text) ∧
      (¬ Text.IsUtf8 content → ∃ front, Text.BreaksAfter content front) ∧
      ∀ front, Text.BreaksAfter content front →
        (∀ number flaw, Image.FirstFlaw front number flaw →
          d.loadImage path = .error (.malformed number flaw)) ∧
        ((¬ ∃ number flaw, Image.FirstFlaw front number flaw) →
          d.loadImage path = .error (.file .invalidText))) ∧
    ∀ (d d' : Directory) (path : String) (p : Program),
      d.write path (Image.toBytes p) = .ok d' → (d'.loadImage path = .ok p ↔ p.WellFormed) := by
  constructor
  · intro d path content hread
    rw [loadImage_of_read hread]
    refine ⟨?text, Text.exists_breaksAfter, ?broken⟩
    case text =>
      rintro text rfl
      exact Image.ofBytes_encodeUtf8 text
    case broken =>
      intro front hbreaks
      rw [Image.ofBytes_of_breaksAfter hbreaks]
      constructor
      · intro number flaw hflaw
        have hfront := hflaw.addLines_eq []
        rw [List.append_nil] at hfront
        rw [hfront]
        rfl
      · intro hnone
        obtain ⟨p, hfront⟩ := (Image.readable_or_firstFlaw front).resolve_right hnone
        rw [hfront]
        rfl
  · intro d d' path p hwrite
    exact loadImage_of_write hwrite

/-- Line ends of both kinds, and none at the end but a carriage return; a line that is no text
    after a line with a flaw, and before one; a program that is written over a file. -/
theorem loadImage_agrees_lines :
    let text := "0x1: 1\r\n\n0x2: 0\r"
    let d : Directory := ⟨[("a.zimg", Text.encodeUtf8 text.toList), ("b.zimg", [120, 10, 255]),
      ("c.zimg", [255, 10, 120])]⟩
    let p : Program := ⟨[(⟨7⟩, ⟨[⟨false, [true], List.cons_ne_nil _ _⟩]⟩)]⟩
    d.loadImage "a.zimg" = Image.parse text ∧
      d.loadImage "b.zimg" = .error (.malformed 1 .missingColon) ∧
      d.loadImage "c.zimg" = .error (.file .invalidText) ∧
      ∃ d', d.write "a.zimg" (Image.toBytes p) = .ok d' ∧ d'.loadImage "a.zimg" = .ok p := by
  intro text d p
  have hbad : ¬ Text.IsUtf8 [255] := by
    rw [← Text.decodeUtf8?_eq_none_iff, Text.decodeUtf8?]
    rfl
  obtain ⟨hread, hwrite⟩ := loadImage_agrees
  obtain ⟨hsame, -, -⟩ := hread d "a.zimg" (Text.encodeUtf8 text.toList) (by decide +kernel)
  obtain ⟨-, -, hflawed⟩ := hread d "b.zimg" [120, 10, 255] (by decide +kernel)
  obtain ⟨-, -, hbroken⟩ := hread d "c.zimg" [255, 10, 120] (by decide +kernel)
  refine ⟨hsame text rfl, ?flawed, ?broken, _, rfl, ?written⟩
  case flawed =>
    have hbreaks : Text.BreaksAfter [120, 10, 255] [['x']] := ⟨[255], [], rfl, hbad⟩
    have hlines : [['x']] = [] ++ ['x'] :: [] := rfl
    exact (hflawed [['x']] hbreaks).1 1 .missingColon (.after hlines rfl rfl)
  case broken =>
    have hbreaks : Text.BreaksAfter [255, 10, 120] [] := ⟨[255], [[120]], rfl, hbad⟩
    refine (hbroken [] hbreaks).2 ?_
    rintro ⟨number, flaw, ⟨hlines, -, -⟩⟩
    simp at hlines
  case written =>
    exact (hwrite d _ "a.zimg" p rfl).mpr ⟨by decide, by decide⟩

end Directory

end BitMachine
