import BitMachine.Proofs.MemoryMap
import BitMachine.Proofs.Steps
import Mathlib.Data.List.DropRight

namespace BitMachine

/-!
# Sequential placement

A word that is stored sequentially stands above every word that was placed since the memory was
last cleared, also above those that are gone:

* `Memory.Event` and `Memory.events` — a history with what came of each change, and
  `Memory.sinceClear`, its part since the memory was last cleared;
* `Memory.placed`, `Memory.assigned` — the addresses at which words were placed, and those of them
  that were found by the memory;
* `Memory.HighWater` — the invariant: the next address lies above all that were placed, and there
  is none once the last address was placed;
* `Memory.HighWater.perform`, `Memory.highWater_performAll` — the invariant is kept by changes and
  by histories;
* `Memory.insert_never_reuses` — what this says about sequential placement after every history.
-/

/-! ### Addresses one after the other -/

namespace Address

/-- The address after another one, if that is not the last. -/
theorem next?_eq_some {a n : Address} (h : a.next? = some n) :
    n.slot.toNat = a.slot.toNat + 1 := by
  unfold next? at h
  split at h
  · cases h
  next hne =>
    cases h
    have hslot : a.slot ≠ last.slot := fun heq => hne (congrArg Address.mk heq)
    exact toNat_add_one hslot

/-- No address lies above the last one. -/
theorem not_last_lt (a : Address) : ¬ last < a := by
  rw [lt_iff_toNat_lt, toNat_last]
  have hlt := a.slot.toNat_lt
  omega

end Address

namespace Memory

/-- The next address after a word has been placed is the next address from before, or the one behind
    the word if that is higher. -/
theorem nextAfter_eq_some {next : Option Address} {a n : Address}
    (h : nextAfter next a = some n) :
    ∃ before, next = some before ∧
      n.slot.toNat = max before.slot.toNat (a.slot.toNat + 1) := by
  unfold nextAfter at h
  cases next with
  | none => cases h
  | some before =>
    refine ⟨before, rfl, ?_⟩
    by_cases hlt : a < before
    · -- The word was placed below the next address, which stays.
      simp only [if_pos hlt, Option.some.injEq] at h
      subst h
      rw [Address.lt_iff_toNat_lt] at hlt
      omega
    · simp only [if_neg hlt] at h
      have hsucc := Address.next?_eq_some h
      rw [Address.lt_iff_toNat_lt] at hlt
      omega

/-- There is no next address any more once the last one has been used. -/
theorem nextAfter_eq_none_iff {next : Option Address} {a : Address} :
    nextAfter next a = none ↔ next = none ∨ a = Address.last := by
  unfold nextAfter
  cases next with
  | none => simp
  | some before =>
    by_cases hlt : a < before
    · -- Another address lies above the word, so it is not at the last one.
      have hne : a ≠ Address.last := fun heq => Address.not_last_lt before (heq ▸ hlt)
      simp [hlt, hne]
    · simp [hlt, Address.next?]

/-! ### Histories -/

/-- A change of a history, and what came of it. -/
structure Event where
  /-- The change. -/
  change : Change
  /-- What it yielded, or why it failed. -/
  result : Except MemoryError Yield

/-- The address at which an event has placed a word. -/
def Event.placed? : Event → Option Address
  | ⟨.insert _, .ok (.address a)⟩ => some a
  | ⟨.insertAt a _, .ok _⟩ => some a
  | _ => none

/-- The address that an event has found for a word. -/
def Event.assigned? : Event → Option Address
  | ⟨.insert _, .ok (.address a)⟩ => some a
  | _ => none

/-- The events of a history. -/
def events (m : Memory) : List Change → List Event
  | [] => []
  | change :: rest => ⟨change, (m.perform change).2⟩ :: (m.perform change).1.events rest

/-- The events since the memory was last cleared. -/
def sinceClear (events : List Event) : List Event :=
  events.rtakeWhile fun event => event.change ≠ .clear

/-- The addresses at which words were placed. -/
def placed (events : List Event) : List Address :=
  events.filterMap Event.placed?

/-- The addresses that were found for words. -/
def assigned (events : List Event) : List Address :=
  events.filterMap Event.assigned?

theorem performAll_concat (m : Memory) (history : List Change) (change : Change) :
    m.performAll (history ++ [change]) = ((m.performAll history).perform change).1 := by
  unfold performAll
  rw [List.foldl_append]
  rfl

theorem events_concat (m : Memory) (history : List Change) (change : Change) :
    m.events (history ++ [change]) =
      m.events history ++ [⟨change, ((m.performAll history).perform change).2⟩] := by
  induction history generalizing m with
  | nil => rfl
  | cons first rest ih =>
    rw [List.cons_append, events, events, ih, List.cons_append]
    rfl

/-- Clearing the memory forgets the events before. -/
theorem sinceClear_concat (events : List Event) (event : Event) :
    sinceClear (events ++ [event]) =
      if event.change = .clear then [] else sinceClear events ++ [event] := by
  unfold sinceClear
  rw [List.rtakeWhile_concat]
  by_cases hclear : event.change = .clear
  · simp [hclear]
  · simp [hclear]

/-- Every address that was found for a word is one at which a word was placed. -/
theorem assigned_subset_placed (events : List Event) : assigned events ⊆ placed events := by
  intro a ha
  obtain ⟨event, hevent, hassigned⟩ := List.mem_filterMap.mp ha
  refine List.mem_filterMap.mpr ⟨event, hevent, ?_⟩
  unfold Event.assigned? at hassigned
  split at hassigned
  · cases hassigned
    rfl
  · cases hassigned

/-! ### The invariant -/

/-- **The high-water mark.** What the next address says about the events since the memory was
    last cleared. -/
structure HighWater (m : Memory) (recent : List Event) : Prop where
  /-- The next address lies above every address at which a word was placed. -/
  above : ∀ n, m.next = some n → ∀ a ∈ placed recent, a < n
  /-- There is no next address only after a word was placed at the last one. -/
  exhausted : m.next = none → Address.last ∈ placed recent
  /-- Words stand only where words were placed. -/
  occupied : ∀ a, m.contains a = true → a ∈ placed recent
  /-- The addresses that were found for words increase. -/
  increasing : (assigned recent).Pairwise (· < ·)

theorem highWater_empty (capacity : Option UInt64) : (empty capacity).HighWater [] := by
  constructor
  case above =>
    intro n _ a ha
    cases ha
  case exhausted =>
    -- A new memory starts with a next address.
    intro h
    cases h
  case occupied =>
    intro a ha
    cases ha
  case increasing => exact List.Pairwise.nil

namespace HighWater

variable {m : Memory} {recent : List Event}

/-- There is no next address exactly after a word was placed at the last one. -/
theorem next_eq_none_iff (h : m.HighWater recent) :
    m.next = none ↔ Address.last ∈ placed recent := by
  constructor
  · exact h.exhausted
  · intro hlast
    cases hnext : m.next with
    | none => rfl
    | some n => exact absurd (h.above n hnext _ hlast) (Address.not_last_lt n)

/-- An event that places no word changes nothing that the mark is about. -/
theorem idle (h : m.HighWater recent) {m' : Memory} {event : Event}
    (hplaced : event.placed? = none) (hnext : m'.next = m.next)
    (hcells : ∀ a, m'.contains a = true → m.contains a = true) :
    m'.HighWater (recent ++ [event]) := by
  -- An address that was found for a word would be one at which a word was placed.
  have hassigned : event.assigned? = none := by
    cases hfound : event.assigned? with
    | none => rfl
    | some a =>
      have hmem : a ∈ placed [event] := assigned_subset_placed [event] (by simp [assigned, hfound])
      simp [placed, hplaced] at hmem
  have hsame : placed (recent ++ [event]) = placed recent := by simp [placed, hplaced]
  have hsame' : assigned (recent ++ [event]) = assigned recent := by simp [assigned, hassigned]
  constructor
  case above =>
    rw [hsame, hnext]
    exact h.above
  case exhausted =>
    rw [hsame, hnext]
    exact h.exhausted
  case occupied =>
    intro a ha
    rw [hsame]
    exact h.occupied a (hcells a ha)
  case increasing =>
    rw [hsame']
    exact h.increasing

/-- **An event that places a word** raises the mark above it. An address that was found for the
    word was the next one. -/
theorem place (h : m.HighWater recent) {m' : Memory} {a : Address} {w : Word} {event : Event}
    (hins : m.insertAt a w = (m', .ok ())) (hplaced : event.placed? = some a)
    (hassigned : ∀ b, event.assigned? = some b → m.next = some b) :
    m'.HighWater (recent ++ [event]) := by
  have hmore : placed (recent ++ [event]) = placed recent ++ [a] := by simp [placed, hplaced]
  have hm' := insertAt_eq_ok hins
  subst hm'
  constructor
  case above =>
    -- The mark rises above the new word and never falls, so it stays above the older ones.
    intro n hnext b hb
    obtain ⟨before, hbefore, hn⟩ := nextAfter_eq_some hnext
    rw [hmore, List.mem_append, List.mem_singleton] at hb
    rw [Address.lt_iff_toNat_lt]
    rcases hb with hb | rfl
    · have hlt := h.above before hbefore b hb
      rw [Address.lt_iff_toNat_lt] at hlt
      omega
    · omega
  case exhausted =>
    intro hnext
    rw [hmore, List.mem_append, List.mem_singleton]
    rcases nextAfter_eq_none_iff.mp hnext with hnone | rfl
    · exact .inl (h.exhausted hnone)
    · exact .inr rfl
  case occupied =>
    intro b hb
    rw [hmore, List.mem_append, List.mem_singleton]
    by_cases hba : b = a
    · exact .inr hba
    · -- Another address held its word before.
      have hget : (m.cells.insert a w).get? b = m.cells.get? b := by
        rw [Cells.get?_insert, if_neg hba]
      have hold : m.contains b = true := by
        show (m.cells.get? b).isSome = true
        rw [← hget]
        exact hb
      exact .inl (h.occupied b hold)
  case increasing =>
    cases hfound : event.assigned? with
    | none =>
      have hsame : assigned (recent ++ [event]) = assigned recent := by simp [assigned, hfound]
      rw [hsame]
      exact h.increasing
    | some b =>
      have hlast : assigned (recent ++ [event]) = assigned recent ++ [b] := by
        simp [assigned, hfound]
      rw [hlast, List.pairwise_append]
      -- The address was the next one, and the mark says that this lies above the others.
      refine ⟨h.increasing, List.pairwise_singleton _ _, ?_⟩
      intro c hc d hd
      rw [List.mem_singleton.mp hd]
      exact h.above b (hassigned b hfound) c (assigned_subset_placed recent hc)

/-- **Step.** The mark is right after every change. -/
theorem perform (h : m.HighWater recent) (change : Change) :
    (m.perform change).1.HighWater
      (if change = .clear then [] else recent ++ [⟨change, (m.perform change).2⟩]) := by
  rcases m.perform_cases change with ⟨e, hfail⟩ | ⟨m', yield, hdone, hok⟩
  · rw [hfail]
    have hne : change ≠ .clear := by
      rintro rfl
      cases congrArg Prod.snd hfail
    rw [if_neg hne]
    exact h.idle (by cases change <;> rfl) rfl (fun _ ha => ha)
  · rw [hok]
    cases hdone with
    | @insert w a m' hnext hins =>
      rw [if_neg (by simp)]
      refine h.place hins rfl ?_
      intro b hb
      cases hb
      exact hnext
    | insertAt hins =>
      rw [if_neg (by simp)]
      refine h.place hins rfl ?_
      intro b hb
      cases hb
    | @delete a w hword =>
      -- The mark stays where it is, above a word that is gone.
      rw [if_neg (by simp)]
      refine h.idle rfl rfl ?_
      intro b hb
      have hb' : ((m.cells.erase a).get? b).isSome = true := hb
      rw [Cells.get?_erase] at hb'
      split at hb'
      · cases hb'
      · exact hb'
    | clear =>
      rw [if_pos rfl]
      exact highWater_empty m.capacity

end HighWater

/-- **Run.** The mark is right after every history of a memory that started empty. -/
theorem highWater_performAll (capacity : Option UInt64) (history : List Change) :
    ((empty capacity).performAll history).HighWater
      (sinceClear ((empty capacity).events history)) := by
  induction history using List.reverseRecOn with
  | nil => exact highWater_empty capacity
  | append_singleton history change ih =>
    rw [performAll_concat, events_concat, sinceClear_concat]
    exact ih.perform change

/-! ### Sequential placement after every history -/

/-- Only clearing a memory brings back a next address. -/
theorem next_performAll_eq_none {m : Memory} (h : m.next = none) {history : List Change}
    (hclear : .clear ∉ history) : (m.performAll history).next = none := by
  induction history using List.reverseRecOn with
  | nil => exact h
  | append_singleton history change ih =>
    rw [List.mem_append, List.mem_singleton, not_or] at hclear
    have hbefore := ih hclear.1
    rw [performAll_concat]
    rcases (m.performAll history).perform_cases change with ⟨e, hfail⟩ | ⟨m', yield, hdone, hok⟩
    · rw [hfail]
      exact hbefore
    · rw [hok]
      cases hdone with
      | insert hnext _ => rw [hbefore] at hnext; cases hnext
      | insertAt hins =>
        rw [insertAt_eq_ok hins]
        show nextAfter (m.performAll history).next _ = none
        rw [hbefore]
        rfl
      | delete => exact hbefore
      | clear => exact absurd rfl hclear.2

/-- Without a capacity every word that is not empty can be stored at every address. -/
theorem exists_insertAt {m : Memory} (hcapacity : m.capacity = none) (a : Address) {w : Word}
    (hw : w.isEmpty = false) : ∃ m', m.insertAt a w = (m', .ok ()) :=
  ⟨_, insertAt_eq_ok_iff.mpr ⟨hw, isFullFor_of_unlimited hcapacity a, rfl⟩⟩

/-- **Sequential addresses are never reused.** After every history of a memory that started empty,
    a word that is stored sequentially stands above all words that were placed since the memory
    was last cleared, and the addresses found since then increase. Without a capacity, storing a
    word sequentially fails exactly after a word was placed at the last address, and then goes on
    to fail until the memory is cleared; a word can still be stored at every address. -/
theorem insert_never_reuses (capacity : Option UInt64) (history : List Change) :
    let m := (empty capacity).performAll history
    let recent := sinceClear ((empty capacity).events history)
    (∀ w a m', m.insert w = (m', .ok a) → (∀ b ∈ placed recent, b < a) ∧ m.contains a = false) ∧
    (assigned recent).Pairwise (· < ·) ∧
    (capacity = none → ∀ w : Word, w.isEmpty = false →
      ((∃ e, (m.insert w).2 = .error e) ↔ Address.last ∈ placed recent) ∧
      (Address.last ∈ placed recent → ∀ later, .clear ∉ later →
        ∃ e, ((m.performAll later).insert w).2 = .error e) ∧
      ∀ a, ∃ m', m.insertAt a w = (m', .ok ())) := by
  intro m recent
  have hmark : m.HighWater recent := highWater_performAll capacity history
  refine ⟨?_, hmark.increasing, ?_⟩
  · intro w a m' hins
    obtain ⟨hnext, -⟩ := insert_eq_ok_iff.mp hins
    refine ⟨hmark.above a hnext, ?_⟩
    rw [← Bool.not_eq_true]
    intro hused
    -- A word there would have been placed, and so would lie below itself.
    have hlt := hmark.above a hnext a (hmark.occupied a hused)
    rw [Address.lt_iff_toNat_lt] at hlt
    exact lt_irrefl _ hlt
  · intro hcapacity w hw
    have hunlimited : m.capacity = none := by
      rw [← hcapacity]
      exact (represents_performAll capacity history).2
    refine ⟨?_, ?_, fun a => exists_insertAt hunlimited a hw⟩
    · rw [← hmark.next_eq_none_iff]
      constructor
      · rintro ⟨e, he⟩
        by_contra hsome
        obtain ⟨a, hnext⟩ := Option.ne_none_iff_exists'.mp hsome
        obtain ⟨m', hm'⟩ := exists_insertAt hunlimited a hw
        rw [insert_eq_ok_iff.mpr ⟨hnext, hm'⟩] at he
        cases he
      · exact fun hnone => ⟨_, congrArg Prod.snd (insert_of_next_eq_none hnone w)⟩
    · intro hlast later hclear
      have hnone := next_performAll_eq_none (hmark.next_eq_none_iff.mpr hlast) hclear
      exact ⟨_, congrArg Prod.snd (insert_of_next_eq_none hnone w)⟩

/-- A word was placed at the last address and removed again: nothing can be stored sequentially,
    also after a word was stored at an address further down, which still succeeds. -/
theorem insert_never_reuses_exhausted :
    let w : Word := ⟨[⟨false, [true], List.cons_ne_nil _ _⟩]⟩
    let history : List Change := [.insert w, .insertAt Address.last w, .delete Address.last]
    let m := (empty none).performAll history
    m.contains Address.last = false ∧ w.isEmpty = false ∧
      Address.last ∈ placed (sinceClear ((empty none).events history)) ∧
      (∃ e, (m.insert w).2 = .error e) ∧
      (∃ e, ((m.performAll [.insertAt ⟨5⟩ w]).insert w).2 = .error e) ∧
      ∃ m', m.insertAt ⟨5⟩ w = (m', .ok ()) := by
  intro w history m
  have hw : w.isEmpty = false := rfl
  have hlast : Address.last ∈ placed (sinceClear ((empty none).events history)) := by decide
  obtain ⟨-, -, hunlimited⟩ := insert_never_reuses none history
  obtain ⟨hfails, hstays, hplaces⟩ := hunlimited rfl w hw
  exact ⟨by decide, hw, hlast, hfails.mpr hlast, hstays hlast _ (by decide), hplaces ⟨5⟩⟩

end Memory

end BitMachine
