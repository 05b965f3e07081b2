import BitMachine.Program
import Mathlib.Data.List.Forall2
import Mathlib.Data.List.Nodup
import Mathlib.Data.Option.Basic

namespace BitMachine

/-!
# Memory as a map, and loading

What a memory holds after words have been stored, in terms of `Cells.get?`:

* `Cells.get?_insert` — storing a word changes one address;
* `Memory.insertAt_eq_ok_iff`, `Memory.insertAt_eq_error_iff` — when a word is stored, and why one
  is refused: the checks come before the writes, so a refused word leaves the memory as it was;
* `Memory.get?_load` — after words have been loaded at distinct addresses, each of these holds
  its word and every other address what it held before;
* `Memory.forall_get?_load` — loading brings in the words of the program and no others;
* `Memory.Alike` — memories with the same occupied slots whose words are related slot by slot,
  and `Memory.Alike.load`: loading keeps this relation and ends in the same way.
-/

/-! ### Entries -/

section Entries

variable {α β : Type} [BEq α] [LawfulBEq α] {es : List (α × β)} {a : α} {x : β}

/-- What is looked up is an entry. -/
theorem mem_of_lookup (h : es.lookup a = some x) : (a, x) ∈ es := by
  obtain ⟨front, rear, hsplit, -⟩ := List.lookup_eq_some_iff.mp h
  rw [hsplit]
  simp

/-- Where keys are distinct, an entry is what is looked up. -/
theorem lookup_of_mem (h : (es.map Prod.fst).Nodup) (hmem : (a, x) ∈ es) :
    es.lookup a = some x := by
  obtain ⟨front, rear, rfl⟩ := List.append_of_mem hmem
  rw [List.map_append, List.map_cons, List.nodup_append] at h
  refine List.lookup_eq_some_iff.mpr ⟨front, rear, rfl, ?_⟩
  -- The entries in front have other keys.
  intro entry hentry
  exact bne_iff_ne.mpr (h.2.2 _ (List.mem_map_of_mem hentry) a List.mem_cons_self).symm

end Entries

/-! ### The map of addresses -/

/-- A lookup in a list of entries looks at the first entry first. -/
theorem lookup_cons_entry {β : Type} (a b : Address) (x : β) (es : List (Address × β)) :
    ((a, x) :: es).lookup b = if b = a then some x else es.lookup b := by
  rw [List.lookup_cons]
  by_cases h : b = a
  · rw [if_pos h, beq_iff_eq.mpr h]
  · rw [if_neg h, beq_eq_false_iff_ne.mpr h]

/-- What is looked up is there if its address is. -/
theorem isSome_lookup_iff {β : Type} {es : List (Address × β)} {a : Address} :
    (es.lookup a).isSome = true ↔ a ∈ es.map Prod.fst := by
  rw [List.lookup_isSome_iff, List.mem_map]
  constructor
  · rintro ⟨entry, hmem, heq⟩
    exact ⟨entry, hmem, (beq_iff_eq.mp heq).symm⟩
  · rintro ⟨entry, hmem, rfl⟩
    exact ⟨entry, hmem, beq_self_eq_true _⟩

/-- Addresses stay distinct iff the further one is new. -/
theorem nodup_concat_entry {β : Type} {es : List (Address × β)} {a : Address} {x : β} :
    ((es ++ [(a, x)]).map Prod.fst).Nodup ↔ a ∉ es.map Prod.fst ∧ (es.map Prod.fst).Nodup := by
  rw [List.map_append, List.nodup_append_comm]
  exact List.nodup_cons

theorem lookup_insertEntry (a b : Address) (w : Word) (es : List (Address × Word)) :
    (insertEntry a w es).lookup b = if b = a then some w else es.lookup b := by
  induction es with
  | nil => exact lookup_cons_entry a b w []
  | cons hd rest ih =>
    obtain ⟨c, v⟩ := hd
    unfold insertEntry
    split
    · rw [lookup_cons_entry]
    split
    next heq =>
      subst heq
      rw [lookup_cons_entry, lookup_cons_entry]
      by_cases h : b = a
      · rw [if_pos h, if_pos h]
      · rw [if_neg h, if_neg h, if_neg h]
    next hne =>
      rw [lookup_cons_entry, lookup_cons_entry, ih]
      -- The word comes later in the list; the entry passed over is at another address.
      by_cases h : b = c
      · have hba : ¬ b = a := fun hba => hne (hba.symm.trans h)
        rw [if_pos h, if_neg hba, if_pos h]
      · rw [if_neg h, if_neg h]

/-- **Storing a word changes one address.** -/
theorem Cells.get?_insert (c : Cells) (a b : Address) (w : Word) :
    (c.insert a w).get? b = if b = a then some w else c.get? b :=
  lookup_insertEntry a b w c.entries

/-- What an address holds is an entry. -/
theorem Cells.mem_of_get? {c : Cells} {a : Address} {w : Word} (h : c.get? a = some w) :
    (a, w) ∈ c.entries :=
  mem_of_lookup h

namespace Memory

section Insertion

variable {m m' : Memory} {a : Address} {w : Word}

/-- **When a word is stored at an address**, and what is written then. -/
theorem insertAt_eq_ok_iff :
    m.insertAt a w = (m', .ok ()) ↔
      w.isEmpty = false ∧ m.isFullFor a = none ∧
        { m with cells := m.cells.insert a w, next := nextAfter m.next a } = m' := by
  unfold insertAt
  cases w.isEmpty with
  | true => simp
  | false => cases m.isFullFor a <;> simp

/-- **What can go wrong with storing a word at an address.** Nothing has been written by then. -/
theorem insertAt_eq_error_iff {e : MemoryError} :
    m.insertAt a w = (m', .error e) ↔
      m = m' ∧ ((w.isEmpty = true ∧ e = .emptyWord a) ∨
        (w.isEmpty = false ∧ ∃ limit, m.isFullFor a = some limit ∧
          e = .outOfMemory a limit.toNat)) := by
  unfold insertAt
  cases w.isEmpty with
  | true => simp [eq_comm]
  | false =>
    cases m.isFullFor a with
    | none => simp
    | some limit => simp [eq_comm]

/-- Without a capacity there is always room. -/
theorem isFullFor_of_unlimited (h : m.capacity = none) (a : Address) : m.isFullFor a = none := by
  unfold isFullFor
  rw [h]
  split <;> rfl

theorem insertAt_eq_ok (h : m.insertAt a w = (m', .ok ())) :
    m' = { m with cells := m.cells.insert a w, next := nextAfter m.next a } :=
  (insertAt_eq_ok_iff.mp h).2.2.symm

/-- **A word that is refused leaves the memory as it was.** -/
theorem insertAt_eq_error {e : MemoryError} (h : m.insertAt a w = (m', .error e)) : m' = m :=
  (insertAt_eq_error_iff.mp h).1.symm

end Insertion

/-- **Loading at distinct addresses.** Each address of the program holds its word afterwards,
    every other address what it held before. -/
theorem get?_load {m m' : Memory} {es : List (Address × Word)} (hnd : (es.map Prod.fst).Nodup)
    (h : m.load es = (m', .ok ())) (a : Address) :
    m'.cells.get? a = (es.lookup a).or (m.cells.get? a) := by
  induction es generalizing m with
  | nil =>
    cases h
    rfl
  | cons e rest ih =>
    obtain ⟨b, w⟩ := e
    rw [List.map_cons, List.nodup_cons] at hnd
    unfold load at h
    split at h
    next hins =>
      rw [ih hnd.2 h, insertAt_eq_ok hins, Cells.get?_insert, lookup_cons_entry]
      by_cases hab : a = b
      · -- The address is not listed again, so the words after this one leave it alone.
        have hrest : rest.lookup b = none := by
          rw [List.lookup_eq_none_iff]
          intro e he
          simpa using fun heq => hnd.1 (List.mem_map.mpr ⟨e, he, heq.symm⟩)
        simp [hab, hrest]
      · simp [hab]
    next => cases h

/-- What the words in memory and the words of the program have in common, the words in memory have
    in common after loading, also after a failure. -/
theorem forall_get?_load {P : Word → Prop} {m : Memory} {es : List (Address × Word)}
    (hm : ∀ a w, m.cells.get? a = some w → P w) (hes : ∀ e ∈ es, P e.2) (a : Address) (w : Word)
    (hw : (m.load es).1.cells.get? a = some w) : P w := by
  induction es generalizing m with
  | nil => exact hm a w hw
  | cons e rest ih =>
    obtain ⟨b, v⟩ := e
    rw [List.forall_mem_cons] at hes
    unfold load at hw
    split at hw
    next m' hins =>
      refine ih ?_ hes.2 hw
      intro c u hu
      rw [insertAt_eq_ok hins, Cells.get?_insert] at hu
      split at hu
      · cases hu
        exact hes.1
      · exact hm c u hu
    next hins =>
      rw [insertAt_eq_error hins] at hw
      exact hm a w hw

/-! ### Memories that hold related words -/

/-- Entries at one address with related words. -/
def EntryRel (R : Word → Word → Prop) (e f : Address × Word) : Prop :=
  e.1 = f.1 ∧ R e.2 f.2

/-- Memories with the same occupied slots, the same place for the next word and the same
    capacity, whose words are related slot by slot. -/
structure Alike (R : Word → Word → Prop) (m n : Memory) : Prop where
  /-- The stored words. -/
  cells : List.Forall₂ (EntryRel R) m.cells.entries n.cells.entries
  /-- Where sequential placement goes on. -/
  next : m.next = n.next
  /-- The capacity. -/
  capacity : m.capacity = n.capacity

variable {R : Word → Word → Prop}

theorem forall₂_insertEntry {a : Address} {v w : Word} (hR : R v w)
    {es fs : List (Address × Word)} (h : List.Forall₂ (EntryRel R) es fs) :
    List.Forall₂ (EntryRel R) (insertEntry a v es) (insertEntry a w fs) := by
  induction h with
  | nil => exact .cons ⟨rfl, hR⟩ .nil
  | @cons e f es fs hef hrest ih =>
    obtain ⟨b, x⟩ := e
    obtain ⟨c, y⟩ := f
    obtain ⟨hbc, hxy⟩ : b = c ∧ R x y := hef
    subst hbc
    unfold insertEntry
    split
    · exact .cons ⟨rfl, hR⟩ (.cons ⟨rfl, hxy⟩ hrest)
    split
    · exact .cons ⟨rfl, hR⟩ hrest
    · exact .cons ⟨rfl, hxy⟩ ih

theorem lookup_forall₂ {es fs : List (Address × Word)} (h : List.Forall₂ (EntryRel R) es fs)
    (a : Address) : Option.Rel R (es.lookup a) (fs.lookup a) := by
  induction h with
  | nil => exact .none
  | @cons e f es fs hef _ ih =>
    obtain ⟨b, x⟩ := e
    obtain ⟨c, y⟩ := f
    obtain ⟨hbc, hxy⟩ : b = c ∧ R x y := hef
    subst hbc
    rw [lookup_cons_entry, lookup_cons_entry]
    split
    · exact .some hxy
    · exact ih

namespace Alike

variable {m n : Memory}

/-- The words at one address are related, or it is empty in both memories. -/
theorem get? (h : m.Alike R n) (a : Address) :
    Option.Rel R (m.cells.get? a) (n.cells.get? a) :=
  lookup_forall₂ h.cells a

theorem isFullFor_eq (h : m.Alike R n) (a : Address) : m.isFullFor a = n.isFullFor a := by
  have hsize : m.size = n.size := h.cells.length_eq
  have hcontains : m.cells.contains a = n.cells.contains a := by
    have hget := h.get? a
    unfold Cells.contains
    generalize m.cells.get? a = x at hget ⊢
    generalize n.cells.get? a = y at hget ⊢
    cases hget <;> rfl
  rw [isFullFor, isFullFor, hsize, hcontains, h.capacity]

/-- Storing related words ends in the same way, and the memories stay related. -/
theorem insertAt (h : m.Alike R n) (a : Address) {v w : Word} (hR : R v w)
    (hempty : v.isEmpty = w.isEmpty) :
    (∃ e, m.insertAt a v = (m, .error e) ∧ n.insertAt a w = (n, .error e)) ∨
      ∃ m' n', m.insertAt a v = (m', .ok ()) ∧ n.insertAt a w = (n', .ok ()) ∧ m'.Alike R n' := by
  unfold Memory.insertAt
  rw [hempty, h.isFullFor_eq a]
  split
  · exact .inl ⟨_, rfl, rfl⟩
  split
  · exact .inl ⟨_, rfl, rfl⟩
  · refine .inr ⟨_, _, rfl, rfl, forall₂_insertEntry hR h.cells, ?_, h.capacity⟩
    rw [h.next]

/-- **Loading related programs** ends in the same way, and the memories stay related, also after
    a failure. -/
theorem load (hempty : ∀ v w, R v w → v.isEmpty = w.isEmpty) (h : m.Alike R n)
    {es fs : List (Address × Word)} (hes : List.Forall₂ (EntryRel R) es fs) :
    (m.load es).1.Alike R (n.load fs).1 ∧ (m.load es).2 = (n.load fs).2 := by
  induction hes generalizing m n with
  | nil => exact ⟨h, rfl⟩
  | @cons e f es fs hef _ ih =>
    obtain ⟨a, v⟩ := e
    obtain ⟨b, w⟩ := f
    obtain ⟨hab, hvw⟩ : a = b ∧ R v w := hef
    subst hab
    unfold Memory.load
    rcases h.insertAt a hvw (hempty v w hvw) with ⟨e, hv, hw⟩ | ⟨m', n', hv, hw, h'⟩
    · rw [hv, hw]
      exact ⟨h, rfl⟩
    · rw [hv, hw]
      exact ih h'

end Alike

/-- Empty memories of one capacity are alike. -/
theorem alike_empty (capacity : Option UInt64) : (empty capacity).Alike R (empty capacity) :=
  ⟨.nil, rfl, rfl⟩

end Memory

end BitMachine
