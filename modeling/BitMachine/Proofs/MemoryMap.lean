import BitMachine.Proofs.Results
import BitMachine.Proofs.Loading
import Mathlib.Data.Finmap

namespace BitMachine

/-!
# Memory as a bounded map

A memory that starts empty and goes through any changes is a finite map from addresses to words
with a limit on the number of its entries:

* `Memory.Change` and `Memory.perform` — the changes that a memory can be asked for, each with the
  memory that it leaves behind;
* `Memory.Succeeds` and `Memory.perform_cases` — how a change succeeds, if it does not fail, and
  `Memory.perform_of_error`: one that fails has written nothing;
* `Memory.ReadsAs` — everything that can be asked about a memory is answered by one map, and
  `Memory.readsAs_of_lookup`: the lookups decide all the other answers;
* `Memory.Represents` — the invariant: the memory reads as a map of non-empty words within the
  capacity, and `Memory.Represents.perform`: no change breaks it;
* `Memory.Changes` — what each change does to the map, and when it fails;
* `Memory.history_refines_map` — all of it after every history.
-/

/-- A finite map from addresses to words. -/
abbrev WordMap := Finmap fun _ : Address => Word

/-- Addresses are ordered by the numbers of their slots. -/
theorem Address.lt_iff_toNat_lt {a b : Address} : a < b ↔ a.slot.toNat < b.slot.toNat :=
  UInt64.lt_iff_toNat_lt

theorem WordMap.keys_insert (map : WordMap) (a : Address) (w : Word) :
    (map.insert a w).keys = insert a map.keys := by
  ext b
  rw [Finmap.mem_keys, Finmap.mem_insert, Finset.mem_insert, Finmap.mem_keys]

/-! ### The entries of a map -/

/-- Addresses that increase are distinct. -/
theorem Increasing.nodup {es : List (Address × Word)} (h : Increasing es) :
    (es.map Prod.fst).Nodup := by
  rw [List.nodup_iff_pairwise_ne, List.pairwise_map]
  refine h.imp ?_
  rintro e f hlt heq
  rw [heq] at hlt
  exact UInt64.lt_irrefl _ hlt

namespace Cells

/-- **The entries of a map are what it holds.** -/
theorem mem_entries_iff {c : Cells} {a : Address} {w : Word} :
    (a, w) ∈ c.entries ↔ c.get? a = some w :=
  ⟨lookup_of_mem c.increasing.nodup, mem_of_get?⟩

/-- **Removing a word changes one address.** -/
theorem get?_erase (c : Cells) (a b : Address) :
    (c.erase a).get? b = if b = a then none else c.get? b := by
  apply Option.ext
  intro w
  have hfilter : (b, w) ∈ (c.erase a).entries ↔ (b, w) ∈ c.entries ∧ b ≠ a := by
    simp [erase, List.mem_filter]
  rw [mem_entries_iff, mem_entries_iff] at hfilter
  rw [hfilter]
  by_cases hb : b = a
  · simp [hb]
  · simp [hb]

/-- **Where there is no word**, removing one changes nothing. -/
theorem erase_of_get?_eq_none {c : Cells} {a : Address} (h : c.get? a = none) : c.erase a = c := by
  have hother : ∀ e ∈ c.entries, decide (e.1 ≠ a) = true := by
    rintro ⟨b, w⟩ he
    rw [decide_eq_true_iff]
    rintro rfl
    rw [mem_entries_iff.mp he] at h
    cases h
  obtain ⟨entries, hincreasing⟩ := c
  unfold erase
  congr 1
  exact List.filter_eq_self.mpr hother

end Cells

namespace Memory

/-! ### Reading -/

/-- **A memory reads as a map.** Everything that can be asked about the memory is answered by the
    map. -/
structure ReadsAs (m : Memory) (map : WordMap) : Prop where
  /-- A read gives the word of the address, or says that there is none. -/
  get : ∀ a, m.get a = match map.lookup a with
    | some w => .ok w
    | none => .error (.notFound a)
  /-- An address is occupied if the map has it. -/
  contains : ∀ a, m.contains a = true ↔ a ∈ map
  /-- The size is the number of occupied addresses. -/
  size : m.size = map.keys.card
  /-- The entries are those of the map. -/
  entries : ∀ a w, (a, w) ∈ m.entries ↔ map.lookup a = some w
  /-- They come in the order of their slots, none of them twice. -/
  ordered : m.entries.Pairwise fun e f => e.1.slot.toNat < f.1.slot.toNat
  /-- A dump has the first entries from an address on. -/
  dump : ∀ start count, m.dump start count =
    (m.entries.filter fun e => start.slot.toNat ≤ e.1.slot.toNat).take count

theorem keys_eq_toFinset {m : Memory} {map : WordMap}
    (h : ∀ a, m.cells.get? a = map.lookup a) :
    map.keys = (m.cells.entries.map Prod.fst).toFinset := by
  ext a
  rw [Finmap.mem_keys, Finmap.mem_iff, List.mem_toFinset, List.mem_map]
  constructor
  · rintro ⟨w, hw⟩
    rw [← h a] at hw
    exact ⟨(a, w), Cells.mem_of_get? hw, rfl⟩
  · rintro ⟨⟨b, w⟩, hmem, rfl⟩
    exact ⟨w, (h b).symm.trans (Cells.mem_entries_iff.mp hmem)⟩

/-- **The lookups decide all the other answers.** -/
theorem readsAs_of_lookup {m : Memory} {map : WordMap}
    (h : ∀ a, m.cells.get? a = map.lookup a) : m.ReadsAs map := by
  constructor
  case get =>
    intro a
    cases hlookup : map.lookup a with
    | none => rw [Memory.get, h a, hlookup]
    | some w => rw [Memory.get, h a, hlookup]
  case contains =>
    intro a
    show (m.cells.get? a).isSome = true ↔ a ∈ map
    rw [h a, Finmap.lookup_isSome]
  case size =>
    -- The keys are the addresses of the entries, and these are distinct.
    have hnodup := m.cells.increasing.nodup
    show m.cells.entries.length = map.keys.card
    rw [keys_eq_toFinset h, List.toFinset_card_of_nodup hnodup, List.length_map]
  case entries =>
    intro a w
    rw [← h a]
    exact Cells.mem_entries_iff
  case ordered => exact m.cells.increasing.imp Address.lt_iff_toNat_lt.mp
  case dump =>
    -- Both take from the same entries; only the order of addresses is spelled differently.
    intro start count
    show (m.cells.entries.filter _).take count = (m.cells.entries.filter _).take count
    congr 2
    funext e
    simp [Address.lt_iff_toNat_lt]

theorem ReadsAs.lookup_eq {m : Memory} {map : WordMap} (h : m.ReadsAs map) (a : Address) :
    m.cells.get? a = map.lookup a := by
  apply Option.ext
  intro w
  rw [← h.entries a w]
  exact Cells.mem_entries_iff.symm

/-- A memory reads as one map only. -/
theorem ReadsAs.unique {m : Memory} {map other : WordMap} (h : m.ReadsAs map)
    (hother : m.ReadsAs other) : other = map := by
  -- The cells decide the lookups of both maps.
  refine Finmap.ext_lookup fun a => ?_
  rw [← h.lookup_eq a, ← hother.lookup_eq a]

/-! ### Changes -/

/-- A change that a memory can be asked for. -/
inductive Change where
  /-- To store a word at the next sequential address. -/
  | insert (w : Word)
  /-- To store a word at an address. -/
  | insertAt (addr : Address) (w : Word)
  /-- To remove the word at an address. -/
  | delete (addr : Address)
  /-- To remove every word. -/
  | clear
deriving DecidableEq

/-- What a change yields. -/
inductive Yield where
  /-- The address of a word that was stored sequentially. -/
  | address (addr : Address)
  /-- The word that was removed. -/
  | word (w : Word)
  /-- Nothing. -/
  | nothing
deriving DecidableEq

/-- The memory that a change leaves behind, and what the change yields. -/
def perform (m : Memory) : Change → Memory × Except MemoryError Yield
  | .insert w =>
    let (m, result) := m.insert w
    (m, result.map .address)
  | .insertAt addr w =>
    let (m, result) := m.insertAt addr w
    (m, result.map fun _ => .nothing)
  | .delete addr =>
    let (m, result) := m.delete addr
    (m, result.map .word)
  | .clear => (m.clear, .ok .nothing)

/-- The memory after a history of changes. -/
def performAll (m : Memory) (history : List Change) : Memory :=
  history.foldl (fun m change => (m.perform change).1) m

/-! ### When a change fails -/

/-- There is no room at an address if it is free and as many words are stored as fit. -/
theorem isFullFor_eq_some_iff {m : Memory} {a : Address} {limit : UInt64} :
    m.isFullFor a = some limit ↔
      m.contains a = false ∧ m.capacity = some limit ∧ limit.toNat ≤ m.size := by
  unfold isFullFor
  show (if m.contains a = true then none else _) = some limit ↔ _
  cases m.contains a with
  | true => simp
  | false => simp [Option.filter_eq_some_iff]

section Placement

variable {m m' : Memory} {w : Word} {a : Address}

/-- A word that is stored sequentially, where there is a next address. -/
theorem insert_of_next (h : m.next = some a) (w : Word) :
    m.insert w = ((m.insertAt a w).1, (m.insertAt a w).2.map fun _ => a) := by
  rw [insert, h]

/-- Without a next address no word can be stored sequentially. -/
theorem insert_of_next_eq_none (h : m.next = none) (w : Word) :
    m.insert w = (m, .error (.outOfMemory Address.last m.size)) := by
  rw [insert, h]

/-- A word that is stored sequentially is stored at the next address. -/
theorem insert_eq_ok_iff :
    m.insert w = (m', .ok a) ↔ m.next = some a ∧ m.insertAt a w = (m', .ok ()) := by
  cases hnext : m.next with
  | none => simp [insert_of_next_eq_none hnext]
  | some addr =>
    rw [insert_of_next hnext, Prod.mk.injEq, map_eq_ok, Option.some.injEq]
    constructor
    · rintro ⟨rfl, _, hok, rfl⟩
      exact ⟨rfl, Prod.ext rfl hok⟩
    · rintro ⟨rfl, hins⟩
      rw [hins]
      exact ⟨rfl, (), rfl, rfl⟩

/-- A word that cannot be stored sequentially leaves the memory as it was: there is no next
    address, or the word is refused there. -/
theorem insert_eq_error {e : MemoryError} (h : m.insert w = (m', .error e)) : m' = m := by
  cases hnext : m.next with
  | none =>
    rw [insert_of_next_eq_none hnext] at h
    exact (Prod.mk.inj h).1.symm
  | some addr =>
    rw [insert_of_next hnext] at h
    obtain ⟨hm', hresult⟩ := Prod.mk.inj h
    have hrefused : m.insertAt addr w = (m', .error e) :=
      Prod.ext hm' (map_eq_error.mp hresult)
    exact insertAt_eq_error hrefused

/-- A word is removed where there is one. -/
theorem delete_of_get? (h : m.cells.get? a = some w) :
    m.delete a = ({ m with cells := m.cells.erase a }, .ok w) := by
  rw [delete, get, h]

/-- **Where there is no word**, none is removed: the cells are written, with what they held. -/
theorem delete_of_get?_eq_none (h : m.cells.get? a = none) :
    m.delete a = (m, .error (.notFound a)) := by
  rw [delete, get, h, Cells.erase_of_get?_eq_none h]

end Placement

/-- **How a change succeeds.** -/
inductive Succeeds (m : Memory) : Change → Memory → Yield → Prop
  /-- The word is stored at the next address. -/
  | insert {w : Word} {a : Address} {m' : Memory} (hnext : m.next = some a)
      (hins : m.insertAt a w = (m', .ok ())) : Succeeds m (.insert w) m' (.address a)
  /-- The word is stored. -/
  | insertAt {a : Address} {w : Word} {m' : Memory} (hins : m.insertAt a w = (m', .ok ())) :
      Succeeds m (.insertAt a w) m' .nothing
  /-- There is a word, and it is removed. -/
  | delete {a : Address} {w : Word} (hword : m.cells.get? a = some w) :
      Succeeds m (.delete a) { m with cells := m.cells.erase a } (.word w)
  /-- Every word is removed. -/
  | clear : Succeeds m .clear m.clear .nothing

/-- **A change fails and changes nothing, or it succeeds.** -/
theorem perform_cases (m : Memory) (change : Change) :
    (∃ e, m.perform change = (m, .error e)) ∨
      ∃ m' yield, m.Succeeds change m' yield ∧ m.perform change = (m', .ok yield) := by
  cases change with
  | insert w =>
    rw [perform]
    rcases hins : m.insert w with ⟨m', e | a⟩
    · obtain rfl := insert_eq_error hins
      exact .inl ⟨e, rfl⟩
    · obtain ⟨hnext, hat⟩ := insert_eq_ok_iff.mp hins
      exact .inr ⟨m', _, .insert hnext hat, rfl⟩
  | insertAt a w =>
    rw [perform]
    rcases hins : m.insertAt a w with ⟨m', e | _⟩
    · obtain rfl := insertAt_eq_error hins
      exact .inl ⟨e, rfl⟩
    · exact .inr ⟨m', _, .insertAt hins, rfl⟩
  | delete a =>
    cases hword : m.cells.get? a with
    | none =>
      rw [perform, delete_of_get?_eq_none hword]
      exact .inl ⟨_, rfl⟩
    | some w =>
      rw [perform, delete_of_get? hword]
      exact .inr ⟨_, _, .delete hword, rfl⟩
  | clear => exact .inr ⟨m.clear, _, .clear, rfl⟩

/-- **A change that fails changes nothing.** -/
theorem perform_of_error {m : Memory} {change : Change} {e : MemoryError}
    (h : (m.perform change).2 = .error e) : (m.perform change).1 = m := by
  rcases m.perform_cases change with ⟨e', he⟩ | ⟨m', yield, -, hok⟩
  · rw [he]
  · rw [hok] at h
    cases h

/-! ### The invariant -/

/-- **A memory represents a map.** The memory reads as the map, no word of the map is empty, and
    there are no more words than the memory has room for. -/
structure Represents (m : Memory) (map : WordMap) : Prop where
  /-- The memory reads as the map. -/
  reads : m.ReadsAs map
  /-- No stored word is empty. -/
  nonempty : ∀ a w, map.lookup a = some w → w.isEmpty = false
  /-- The words fit. -/
  fits : ∀ limit, m.capacity = some limit → map.keys.card ≤ limit.toNat

theorem represents_empty (capacity : Option UInt64) : (empty capacity).Represents ∅ := by
  constructor
  case reads =>
    refine readsAs_of_lookup fun a => ?_
    rw [Finmap.lookup_empty]
    rfl
  case nonempty =>
    intro a w h
    rw [Finmap.lookup_empty] at h
    cases h
  case fits =>
    intro limit _
    simp

namespace Represents

variable {m : Memory} {map : WordMap}

/-- **Storing a word** at an address stores it in the map. -/
theorem insertAt (h : m.Represents map) {m' : Memory} {a : Address} {w : Word}
    (hins : m.insertAt a w = (m', .ok ())) : m'.Represents (map.insert a w) := by
  obtain ⟨hword, hroom, hm'⟩ := insertAt_eq_ok_iff.mp hins
  subst hm'
  constructor
  case reads =>
    refine readsAs_of_lookup fun b => ?_
    show (m.cells.insert a w).get? b = _
    rw [Cells.get?_insert, h.reads.lookup_eq]
    by_cases hb : b = a
    · rw [if_pos hb, hb, Finmap.lookup_insert]
    · rw [if_neg hb, Finmap.lookup_insert_of_ne _ hb]
  case nonempty =>
    intro b v hv
    by_cases hb : b = a
    · rw [hb, Finmap.lookup_insert] at hv
      cases hv
      exact hword
    · rw [Finmap.lookup_insert_of_ne _ hb] at hv
      exact h.nonempty b v hv
  case fits =>
    intro limit hlimit
    rw [WordMap.keys_insert]
    by_cases ha : a ∈ map
    · -- The word takes the place of another one.
      rw [Finset.insert_eq_of_mem (Finmap.mem_keys.mpr ha)]
      exact h.fits limit hlimit
    · -- The address was free, so there was room for one more word.
      have hfree : m.contains a = false := by
        rw [← Bool.not_eq_true, h.reads.contains]
        exact ha
      have hlt : ¬ limit.toNat ≤ m.size := fun hle => by
        rw [isFullFor_eq_some_iff.mpr ⟨hfree, hlimit, hle⟩] at hroom
        cases hroom
      have hcard := Finset.card_insert_le a map.keys
      rw [h.reads.size] at hlt
      omega

/-- **Removing a word** from an address removes it from the map. -/
theorem erase (h : m.Represents map) (a : Address) :
    ({ m with cells := m.cells.erase a } : Memory).Represents (map.erase a) := by
  have hlookup : ∀ b, (m.cells.erase a).get? b = (map.erase a).lookup b := by
    intro b
    rw [Cells.get?_erase, h.reads.lookup_eq]
    by_cases hb : b = a
    · rw [if_pos hb, hb, Finmap.lookup_erase]
    · rw [if_neg hb, Finmap.lookup_erase_ne hb]
  constructor
  case reads => exact readsAs_of_lookup hlookup
  case nonempty =>
    -- A word that is left was there before.
    intro b v hv
    rw [← hlookup, Cells.get?_erase] at hv
    split at hv
    · cases hv
    · rw [h.reads.lookup_eq] at hv
      exact h.nonempty b v hv
  case fits =>
    intro limit hlimit
    have hle : (map.keys.erase a).card ≤ map.keys.card := Finset.card_erase_le
    rw [Finmap.keys_erase]
    exact hle.trans (h.fits limit hlimit)

/-- **Step.** After a change the memory represents a map again, and its capacity is the same. -/
theorem perform (h : m.Represents map) (change : Change) :
    (∃ map', (m.perform change).1.Represents map') ∧
      (m.perform change).1.capacity = m.capacity := by
  rcases m.perform_cases change with ⟨e, hfail⟩ | ⟨m', yield, hdone, hok⟩
  · rw [hfail]
    exact ⟨⟨map, h⟩, rfl⟩
  · rw [hok]
    cases hdone with
    | insert _ hins => exact ⟨⟨_, h.insertAt hins⟩, by rw [insertAt_eq_ok hins]⟩
    | insertAt hins => exact ⟨⟨_, h.insertAt hins⟩, by rw [insertAt_eq_ok hins]⟩
    | @delete a w _ => exact ⟨⟨_, h.erase a⟩, rfl⟩
    | clear => exact ⟨⟨∅, represents_empty m.capacity⟩, rfl⟩

end Represents

/-- **Run.** After every history the memory represents a map. -/
theorem represents_performAll (capacity : Option UInt64) (history : List Change) :
    (∃ map, ((empty capacity).performAll history).Represents map) ∧
      ((empty capacity).performAll history).capacity = capacity := by
  -- The step lemma is about the last change of the history, so it is taken off first.
  induction history using List.reverseRecOn with
  | nil => exact ⟨⟨∅, represents_empty capacity⟩, rfl⟩
  | append_singleton history change ih =>
    obtain ⟨⟨map, hmap⟩, hcapacity⟩ := ih
    obtain ⟨hnext, hsame⟩ := hmap.perform change
    unfold performAll at *
    rw [List.foldl_append]
    exact ⟨hnext, hsame.trans hcapacity⟩

/-! ### Every history -/

/-- **What the changes do** to a memory that represents a map, and when they fail. -/
structure Changes (m : Memory) (map : WordMap) : Prop where
  /-- An empty word is refused, and nothing else is refused for being empty. -/
  emptyWord : ∀ a w, m.insertAt a w = (m, .error (.emptyWord a)) ↔ w.isEmpty = true
  /-- Another word is refused iff the address is free and as many words are stored as fit. -/
  outOfMemory : ∀ a w n, m.insertAt a w = (m, .error (.outOfMemory a n)) ↔
    w.isEmpty = false ∧ a ∉ map ∧ ∃ limit, m.capacity = some limit ∧ limit.toNat = n ∧
      n ≤ map.keys.card
  /-- There is no other reason to refuse a word. -/
  refused : ∀ a w e, (m.insertAt a w).2 = .error e → e = .emptyWord a ∨ ∃ n, e = .outOfMemory a n
  /-- A word that is not refused is stored at the address, and no other address changes. -/
  stored : ∀ a w m', m.insertAt a w = (m', .ok ()) →
    m'.Represents (map.insert a w) ∧ m'.capacity = m.capacity
  /-- To store a word sequentially is to store it at the next address. -/
  sequential : ∀ w a m', m.insert w = (m', .ok a) ↔
    m.next = some a ∧ m.insertAt a w = (m', .ok ())
  /-- A word can be removed where there is one, and no other address changes. -/
  removed : ∀ a w, map.lookup a = some w → ∃ m', m.delete a = (m', .ok w) ∧
    m'.Represents (map.erase a) ∧ m'.next = m.next ∧ m'.capacity = m.capacity
  /-- Where there is no word, none can be removed. -/
  missing : ∀ a, a ∉ map → m.delete a = (m, .error (.notFound a))
  /-- No word is left after clearing. -/
  cleared : m.clear.Represents ∅ ∧ m.clear.capacity = m.capacity
  /-- A change that fails leaves cells, next address and capacity as they were: the memory that it
      hands back is the one that it was given. -/
  atomic : ∀ change e, (m.perform change).2 = .error e → (m.perform change).1 = m

theorem Represents.changes {m : Memory} {map : WordMap} (h : m.Represents map) :
    m.Changes map := by
  constructor
  case emptyWord =>
    intro a w
    simp [insertAt_eq_error_iff]
  case outOfMemory =>
    intro a w n
    have hfree : m.contains a = false ↔ a ∉ map := by
      rw [← Bool.not_eq_true, h.reads.contains]
    rw [insertAt_eq_error_iff]
    simp only [isFullFor_eq_some_iff, hfree, ← h.reads.size, true_and]
    constructor
    · rintro (⟨-, heq⟩ | ⟨hword, limit, ⟨ha, hlimit, hle⟩, heq⟩)
      · cases heq
      · cases heq
        exact ⟨hword, ha, limit, hlimit, rfl, hle⟩
    · rintro ⟨hword, ha, limit, hlimit, rfl, hle⟩
      exact .inr ⟨hword, limit, ⟨ha, hlimit, hle⟩, rfl⟩
  case refused =>
    intro a w e he
    obtain ⟨-, ⟨-, rfl⟩ | ⟨-, limit, -, rfl⟩⟩ := insertAt_eq_error_iff.mp (Prod.ext rfl he)
    · exact .inl rfl
    · exact .inr ⟨_, rfl⟩
  case stored =>
    intro a w m' hm'
    exact ⟨h.insertAt hm', by rw [insertAt_eq_ok hm']⟩
  case sequential =>
    intro w a m'
    exact insert_eq_ok_iff
  case removed =>
    intro a w hw
    refine ⟨{ m with cells := m.cells.erase a }, ?_, h.erase a, rfl, rfl⟩
    exact delete_of_get? ((h.reads.lookup_eq a).trans hw)
  case missing =>
    intro a ha
    exact delete_of_get?_eq_none ((h.reads.lookup_eq a).trans (Finmap.lookup_eq_none.mpr ha))
  case cleared => exact ⟨represents_empty m.capacity, rfl⟩
  case atomic => exact fun _ _ => perform_of_error

/-- **Memory is a bounded map.** A memory that started empty represents, after every history of
    changes, one map of non-empty words within its capacity, by which all of its answers go. Each
    further change does to this map what it says, or fails for a stated reason and changes
    nothing. -/
theorem history_refines_map (capacity : Option UInt64) (history : List Change) :
    let m := (empty capacity).performAll history
    m.capacity = capacity ∧ ∃ map : WordMap,
      m.Represents map ∧ m.Changes map ∧ ∀ other, m.ReadsAs other → other = map := by
  intro m
  obtain ⟨⟨map, hmap⟩, hcapacity⟩ := represents_performAll capacity history
  exact ⟨hcapacity, map, hmap, hmap.changes, fun _ => hmap.reads.unique⟩

/-- A memory for one word, which was removed from the first address and stored at another one: that
    address can be written again, and no other. -/
theorem history_refines_map_full :
    let w : Word := ⟨[⟨false, [true], List.cons_ne_nil _ _⟩]⟩
    let history : List Change := [.insert w, .delete Address.first, .insertAt ⟨7⟩ w]
    let m := (empty (some 1)).performAll history
    ∃ map : WordMap, m.Represents map ∧ ⟨7⟩ ∈ map ∧ map.keys.card = 1 ∧
      m.insertAt ⟨5⟩ w = (m, .error (.outOfMemory ⟨5⟩ 1)) ∧
      ∃ m', m.insertAt ⟨7⟩ w = (m', .ok ()) ∧ m'.Represents (map.insert ⟨7⟩ w) := by
  intro w history m
  obtain ⟨-, map, hmap, hchanges, -⟩ := history_refines_map (some 1) history
  have hseven : ⟨7⟩ ∈ map := (hmap.reads.contains ⟨7⟩).mp (by decide)
  have hfive : ⟨5⟩ ∉ map := fun hmem => absurd ((hmap.reads.contains ⟨5⟩).mpr hmem) (by decide)
  have hcard : map.keys.card = 1 := hmap.reads.size.symm.trans (by decide)
  have hfull : m.insertAt ⟨5⟩ w = (m, .error (.outOfMemory ⟨5⟩ 1)) :=
    (hchanges.outOfMemory ⟨5⟩ w 1).mpr ⟨rfl, hfive, 1, rfl, rfl, hcard.ge⟩
  rcases hstored : m.insertAt ⟨7⟩ w with ⟨m', e | _⟩
  · -- Neither of the two reasons to refuse the word holds.
    obtain rfl := insertAt_eq_error hstored
    rcases hchanges.refused _ _ _ (congrArg Prod.snd hstored) with rfl | ⟨n, rfl⟩
    · cases (hchanges.emptyWord ⟨7⟩ w).mp hstored
    · exact absurd hseven ((hchanges.outOfMemory ⟨7⟩ w n).mp hstored).2.1
  · exact ⟨map, hmap, hseven, hcard, hfull, m', rfl, (hchanges.stored _ _ _ hstored).1⟩

end Memory

end BitMachine
