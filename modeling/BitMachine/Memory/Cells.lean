import BitMachine.Address
import BitMachine.Word

/-!
# Memory cells

A finite map from addresses to words, kept as a list with strictly increasing addresses. The
order is part of the type, so two maps with the same entries are equal.
-/

namespace BitMachine

/-- The list with the word at the address, in place of any other word there. -/
def insertEntry (a : Address) (w : Word) : List (Address × Word) → List (Address × Word)
  | [] => [(a, w)]
  | (b, v) :: rest =>
    if a < b then (a, w) :: (b, v) :: rest
    else if a = b then (a, w) :: rest
    else (b, v) :: insertEntry a w rest

theorem mem_insertEntry {a : Address} {w : Word} {es : List (Address × Word)}
    {e : Address × Word} (h : e ∈ insertEntry a w es) : e.1 = a ∨ e ∈ es := by
  induction es with
  | nil => simp_all [insertEntry]
  | cons hd rest ih =>
    obtain ⟨b, v⟩ := hd
    unfold insertEntry at h
    split at h
    · simp only [List.mem_cons] at h ⊢
      rcases h with rfl | h <;> simp_all
    split at h
    · simp only [List.mem_cons] at h ⊢
      rcases h with rfl | h <;> simp_all
    · simp only [List.mem_cons] at h ⊢
      rcases h with rfl | h
      · simp
      · rcases ih h with h | h <;> simp [h]

/-- Strictly increasing addresses. -/
def Increasing (es : List (Address × Word)) : Prop :=
  es.Pairwise fun e f => e.1 < f.1

theorem increasing_insertEntry {a : Address} {w : Word} {es : List (Address × Word)}
    (h : Increasing es) : Increasing (insertEntry a w es) := by
  induction es with
  | nil => simp [insertEntry, Increasing]
  | cons hd rest ih =>
    obtain ⟨b, v⟩ := hd
    have hb := List.pairwise_cons.mp h
    unfold insertEntry
    split
    next hab =>
      refine List.pairwise_cons.mpr ⟨fun f hf => ?_, h⟩
      rcases List.mem_cons.mp hf with rfl | hf
      · exact hab
      · exact UInt64.lt_trans hab (hb.1 f hf)
    next hab =>
      split
      next heq =>
        subst heq
        exact List.pairwise_cons.mpr hb
      next hne =>
        refine List.pairwise_cons.mpr ⟨fun f hf => ?_, ih hb.2⟩
        rcases mem_insertEntry hf with hf | hf
        · rw [hf]
          rcases UInt64.lt_or_lt_of_ne (fun hs => hne (congrArg Address.mk hs)) with hlt | hlt
          · exact absurd hlt hab
          · exact hlt
        · exact hb.1 f hf

/-- A finite map from addresses to words. -/
structure Cells where
  /-- The entries in the order of their addresses. -/
  entries : List (Address × Word)
  /-- The addresses strictly increase. -/
  increasing : Increasing entries

namespace Cells

/-- The map without entries. -/
def empty : Cells :=
  ⟨[], List.Pairwise.nil⟩

/-- The number of entries. -/
def size (c : Cells) : Nat :=
  c.entries.length

/-- The word at an address. -/
def get? (c : Cells) (a : Address) : Option Word :=
  c.entries.lookup a

/-- Whether there is a word at an address. -/
def contains (c : Cells) (a : Address) : Bool :=
  (c.get? a).isSome

/-- Puts a word at an address, in place of any other word there. -/
def insert (c : Cells) (a : Address) (w : Word) : Cells :=
  ⟨insertEntry a w c.entries, increasing_insertEntry c.increasing⟩

/-- Removes the word at an address. -/
def erase (c : Cells) (a : Address) : Cells :=
  ⟨c.entries.filter (·.1 ≠ a), c.increasing.filter _⟩

/-- The entries from an address on. -/
def entriesFrom (c : Cells) (a : Address) : List (Address × Word) :=
  c.entries.filter fun e => ¬ e.1 < a

end Cells

end BitMachine
