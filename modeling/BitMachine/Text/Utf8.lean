/-!
# UTF-8

* `encodeUtf8` — the bytes of a text.
* `decodeUtf8?` — the text of a list of bytes, refused when the bytes are no UTF-8: a sequence
  that is cut short, longer than needed, or that stands for a surrogate or for no code point.
-/

namespace BitMachine.Text

/-- The bytes of a text. -/
def encodeUtf8 (cs : List Char) : List UInt8 :=
  cs.flatMap String.utf8EncodeChar

/-- The six payload bits of a continuation byte. -/
def continuation? (b : UInt8) : Option Nat :=
  if 0x80 ≤ b && b < 0xC0 then some (b.toNat - 0x80) else none

/-- The character of a code point that needs at least the code point `least`. -/
def scalar? (least n : Nat) : Option Char :=
  if h : n.isValidChar then
    if least ≤ n then some (Char.ofNatAux n h) else none
  else none

/-- The character that starts with the byte `b`, and the bytes after it. -/
def decodeChar? (b : UInt8) (rest : List UInt8) : Option (Char × List UInt8) :=
  if b < 0x80 then (scalar? 0 b.toNat).map (·, rest)
  else if b < 0xC0 then none
  else if b < 0xE0 then
    match rest with
    | c :: rest => do
      let x ← continuation? c
      let ch ← scalar? 0x80 ((b.toNat - 0xC0) * 64 + x)
      some (ch, rest)
    | _ => none
  else if b < 0xF0 then
    match rest with
    | c :: d :: rest => do
      let x ← continuation? c
      let y ← continuation? d
      let ch ← scalar? 0x800 (((b.toNat - 0xE0) * 64 + x) * 64 + y)
      some (ch, rest)
    | _ => none
  else if b < 0xF8 then
    match rest with
    | c :: d :: e :: rest => do
      let x ← continuation? c
      let y ← continuation? d
      let z ← continuation? e
      let ch ← scalar? 0x10000 ((((b.toNat - 0xF0) * 64 + x) * 64 + y) * 64 + z)
      some (ch, rest)
    | _ => none
  else none

theorem length_of_decodeChar? {b : UInt8} {rest : List UInt8} {c : Char} {tail : List UInt8}
    (h : decodeChar? b rest = some (c, tail)) : tail.length ≤ rest.length := by
  unfold decodeChar? at h
  split at h
  · cases hs : scalar? 0 b.toNat <;> simp_all
  split at h
  · cases h
  split at h
  · split at h
    · simp only [Option.bind_eq_bind, Option.bind_eq_some_iff] at h
      obtain ⟨_, _, _, _, h⟩ := h
      cases h; simp
    · cases h
  split at h
  · split at h
    · simp only [Option.bind_eq_bind, Option.bind_eq_some_iff] at h
      obtain ⟨_, _, _, _, _, _, h⟩ := h
      cases h; simp; omega
    · cases h
  split at h
  · split at h
    · simp only [Option.bind_eq_bind, Option.bind_eq_some_iff] at h
      obtain ⟨_, _, _, _, _, _, _, _, h⟩ := h
      cases h; simp; omega
    · cases h
  · cases h

/-- The text of a list of bytes. -/
def decodeUtf8? (bs : List UInt8) : Option (List Char) :=
  match bs with
  | [] => some []
  | b :: rest =>
    match _h : decodeChar? b rest with
    | none => none
    | some (c, tail) => (decodeUtf8? tail).map (c :: ·)
termination_by bs.length
decreasing_by
  have := length_of_decodeChar? _h
  simp only [List.length_cons]
  omega

end BitMachine.Text
