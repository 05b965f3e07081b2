import BitMachine.Debugger.Screen
import BitMachine.Proofs.DebuggerReset
import BitMachine.Proofs.MemoryMap
import Mathlib.Data.Set.Card

namespace BitMachine

/-!
# The memory panel

The memory panel lists stored words from the scroll offset on, and it never scrolls off them:

* `Memory.rank` — the number of words before an address, and `Memory.getElem?_entries_iff`: the
  place of a word in the order of the addresses is its rank;
* `Debugger.getElem?_memoryRows_iff` — the rows of the memory panel are the stored words by their
  ranks, from the offset on;
* `Debugger.InView` — the invariant: the memory is the one that the program was loaded into, and
  the offset is 0 or below the number of words, kept by `Debugger.InView.perform` and
  `Debugger.InView.performAll`;
* `Debugger.memory_stays_in_view` — what the panel lists after every sequence of requests.
-/

/-! ### The order of the words -/

namespace Memory

/-- The number of stored words before an address. -/
noncomputable def rank (m : Memory) (a : Address) : Nat :=
  {b : Address | m.contains b = true ∧ b < a}.ncard

theorem get_eq_ok_iff {m : Memory} {a : Address} {w : Word} :
    m.get a = .ok w ↔ (a, w) ∈ m.entries := by
  show _ ↔ (a, w) ∈ m.cells.entries
  rw [Cells.mem_entries_iff, get]
  cases m.cells.get? a with
  | none => simp
  | some v => simp

theorem contains_iff_mem {m : Memory} {a : Address} :
    m.contains a = true ↔ a ∈ m.entries.map Prod.fst :=
  isSome_lookup_iff

/-- The words before an entry are the entries in front of it. -/
theorem mem_take_iff {m : Memory} {i : Nat} {a b : Address} {w : Word}
    (h : m.entries[i]? = some (a, w)) :
    b ∈ (m.entries.take i).map Prod.fst ↔ m.contains b = true ∧ b < a := by
  obtain ⟨hi, hget⟩ := List.getElem?_eq_some_iff.mp h
  have hsplit : m.entries = m.entries.take i ++ (a, w) :: m.entries.drop (i + 1) := by
    conv_lhs => rw [← List.take_append_drop i m.entries, List.drop_eq_getElem_cons hi, hget]
  have hincreasing : Increasing m.entries := m.cells.increasing
  rw [contains_iff_mem]
  generalize m.entries.take i = front at hsplit ⊢
  generalize m.entries.drop (i + 1) = rear at hsplit
  rw [hsplit] at hincreasing ⊢
  obtain ⟨-, hrear, hfront⟩ := List.pairwise_append.mp hincreasing
  constructor
  · intro hb
    obtain ⟨e, he, rfl⟩ := List.mem_map.mp hb
    exact ⟨by simp [hb], hfront e he (a, w) List.mem_cons_self⟩
  · rintro ⟨hb, hlt⟩
    rw [List.map_append, List.mem_append, List.map_cons, List.mem_cons] at hb
    rcases hb with hb | rfl | hb
    · exact hb
    · exact absurd hlt (UInt64.lt_irrefl _)
    · -- The entries behind come later in the order.
      obtain ⟨e, he, rfl⟩ := List.mem_map.mp hb
      have hgt : a < e.1 := (List.pairwise_cons.mp hrear).1 e he
      exact absurd hlt (UInt64.lt_asymm hgt)

theorem rank_of_getElem? {m : Memory} {i : Nat} {a : Address} {w : Word}
    (h : m.entries[i]? = some (a, w)) : m.rank a = i := by
  obtain ⟨hi, -⟩ := List.getElem?_eq_some_iff.mp h
  have hset : {b : Address | m.contains b = true ∧ b < a} =
      (((m.entries.take i).map Prod.fst).toFinset : Set Address) := by
    ext b
    simp only [Set.mem_ofPred_eq, Finset.mem_coe, List.mem_toFinset, mem_take_iff h]
  have hnodup : ((m.entries.take i).map Prod.fst).Nodup :=
    Increasing.nodup (m.cells.increasing.sublist (List.take_sublist i _))
  rw [rank, hset, Set.ncard_coe_finset, List.toFinset_card_of_nodup hnodup, List.length_map,
    List.length_take]
  exact Nat.min_eq_left hi.le

/-- **The place of a word** in the order of the addresses is its rank. -/
theorem getElem?_entries_iff {m : Memory} {i : Nat} {a : Address} {w : Word} :
    m.entries[i]? = some (a, w) ↔ m.get a = .ok w ∧ m.rank a = i := by
  rw [get_eq_ok_iff]
  constructor
  · intro h
    exact ⟨List.mem_of_getElem? h, rank_of_getElem? h⟩
  · rintro ⟨hmem, rfl⟩
    obtain ⟨j, hj⟩ := List.mem_iff_getElem?.mp hmem
    rw [rank_of_getElem? hj, hj]

end Memory

namespace Debugger

variable {d : Debugger}

/-! ### The rows of the panel -/

/-- **The rows of the memory panel** are the stored words by their ranks, from the offset on. -/
theorem getElem?_memoryRows_iff {rows k : Nat} {t : String} :
    (d.memoryRows rows)[k]? = some t ↔
      k < rows ∧ ∃ a w, d.machine.memory.get a = .ok w ∧ d.machine.memory.rank a = d.scroll + k ∧
        t = memoryRow a w := by
  have hplace (e : Address × Word) :
      ((d.machine.memory.entries.drop d.scroll).take rows)[k]? = some e ↔
        k < rows ∧ d.machine.memory.entries[d.scroll + k]? = some e := by
    rw [List.getElem?_take, List.getElem?_drop]
    by_cases hk : k < rows
    · simp [hk]
    · simp [hk]
  unfold memoryRows
  rw [List.getElem?_map, Option.map_eq_some_iff]
  constructor
  · rintro ⟨⟨a, w⟩, he, rfl⟩
    obtain ⟨hk, hentry⟩ := (hplace _).mp he
    obtain ⟨hget, hrank⟩ := Memory.getElem?_entries_iff.mp hentry
    exact ⟨hk, a, w, hget, hrank, rfl⟩
  · rintro ⟨hk, a, w, hget, hrank, rfl⟩
    exact ⟨(a, w), (hplace _).mpr ⟨hk, Memory.getElem?_entries_iff.mpr ⟨hget, hrank⟩⟩, rfl⟩

theorem length_memoryRows (d : Debugger) (rows : Nat) :
    (d.memoryRows rows).length = min rows (d.machine.memory.size - d.scroll) := by
  unfold memoryRows Memory.size Memory.entries Cells.size
  rw [List.length_map, List.length_take, List.length_drop]

/-! ### The view -/

/-- A request moves the view back, or not at all, or on to a word that there is. -/
theorem scroll_perform (d : Debugger) (r : Request) :
    (d.perform r).scroll ≤ d.scroll ∨ (d.perform r).scroll < d.machine.memory.size := by
  cases r with
  | step => exact .inl d.sameChoices_step.scroll.le
  | run => exact .inl le_rfl
  | tick => exact .inl d.sameChoices_tick.scroll.le
  | toggleBreakpoint =>
    left
    show d.toggleBreakpoint.scroll ≤ d.scroll
    unfold toggleBreakpoint
    dsimp only
    split
    · exact le_rfl
    · exact le_rfl
  | reset => exact .inl le_rfl
  | scrollUp => exact .inl (Nat.sub_le d.scroll 1)
  | scrollDown =>
    show d.scrollDown.scroll ≤ d.scroll ∨ d.scrollDown.scroll < d.machine.memory.size
    unfold scrollDown
    split
    next hlt => exact .inr hlt
    next => exact .inl le_rfl

/-- **The view is on the stored words**, and these are the ones that the program has left when the
    debugger was created. -/
structure InView (d : Debugger) (config : Config) (p : Program) : Prop where
  /-- The debugger can load its program again. -/
  drives : d.Drives config p
  /-- The memory is the one of the new debugger. -/
  memory : d.machine.memory = (create config p).machine.memory
  /-- A word is stored at the offset, unless the view has not been moved. -/
  scroll : d.scroll = 0 ∨ d.scroll < d.machine.memory.size

theorem inView_create (config : Config) (p : Program) : (create config p).InView config p :=
  ⟨drives_create config p, rfl, .inl rfl⟩

namespace InView

variable {config : Config} {p : Program}

/-- **Step.** No request changes the memory or moves the view off it. -/
theorem perform (h : d.InView config p) (r : Request) : (d.perform r).InView config p := by
  have hmemory : (d.perform r).machine.memory = d.machine.memory := by
    obtain ⟨-, hmoves⟩ := d.perform_cases r
    generalize (d.perform r).machine = m at hmoves ⊢
    cases hmoves with
    | stays => rfl
    | steps => exact d.machine.keeps_step.memory
    | reloads =>
      -- Also a program that does not fit leaves the same words each time.
      rw [h.drives.program, loaded_eq h.drives.machine, h.memory]
      rfl
  refine ⟨h.drives.perform r, hmemory.trans h.memory, ?_⟩
  rw [hmemory]
  rcases d.scroll_perform r with hback | hon
  · rcases h.scroll with hzero | hlt
    · left
      omega
    · right
      omega
  · exact .inr hon

/-- **Run.** After any requests the view is on the stored words. -/
theorem performAll (h : d.InView config p) (requests : List Request) :
    (d.performAll requests).InView config p := by
  induction requests generalizing d with
  | nil => exact h
  | cons r rest ih => exact ih (h.perform r)

/-- A panel with room for a row has one, if a word is stored. -/
theorem memoryRows_ne_nil (h : d.InView config p) {rows : Nat} (hrows : 1 ≤ rows)
    (hsize : 0 < d.machine.memory.size) : d.memoryRows rows ≠ [] := by
  have hlength := d.length_memoryRows rows
  have hlt : d.scroll < d.machine.memory.size := by
    rcases h.scroll with hzero | hlt
    · omega
    · exact hlt
  intro hnil
  rw [hnil, List.length_nil] at hlength
  omega

end InView

/-- **The memory panel stays on the contents.** After any requests to a new debugger, whether or not
    its program could be loaded:

    * the memory is the one that the debugger was created with, so the number of words is the same;
    * the scroll offset is 0 or below that number;
    * if a word is stored, a panel with room for a row has one;
    * the rows of the panel are those of the occupied slots by their ranks, from the rank that is
      the offset on, as many as there is room for. -/
theorem memory_stays_in_view (config : Config) (p : Program) (requests : List Request) :
    let new := create config p
    let d := new.performAll requests
    d.machine.memory = new.machine.memory ∧
      (d.scroll = 0 ∨ d.scroll < d.machine.memory.size) ∧
      (∀ rows, 1 ≤ rows → 0 < d.machine.memory.size → d.memoryRows rows ≠ []) ∧
      ∀ rows k t, (d.memoryRows rows)[k]? = some t ↔
        k < rows ∧ ∃ a w, d.machine.memory.get a = .ok w ∧
          d.machine.memory.rank a = d.scroll + k ∧ t = memoryRow a w := by
  intro new d
  have hview : d.InView config p := (inView_create config p).performAll requests
  refine ⟨hview.memory, hview.scroll, ?_, ?_⟩
  · intro rows hrows hsize
    exact hview.memoryRows_ne_nil hrows hsize
  · intro rows k t
    exact getElem?_memoryRows_iff

/-- Three words for two slots. The view is moved on three times, once after the program is loaded
    again. A panel with room for six words shows the second one, and no other. -/
theorem memory_stays_in_view_last_word :
    let three : Bits := ⟨false, [true, true], List.cons_ne_nil _ _⟩
    let config : Config := { memoryCapacity := some 2 }
    let p := Program.ofWords [⟨[three]⟩, ⟨[three]⟩, ⟨[three]⟩]
    let d := (create config p).performAll [.scrollDown, .scrollDown, .step, .reset, .scrollDown]
    d.machine.memory.size = 2 ∧ d.scroll = 1 ∧ d.memoryRows 6 ≠ [] ∧
      d.memoryRows 6 = ["   0x2: 11"] ∧
      ∃ a w, d.machine.memory.get a = .ok w ∧ d.machine.memory.rank a = 1 ∧
        "   0x2: 11" = memoryRow a w := by
  intro three config p d
  obtain ⟨-, -, hrows, hplaces⟩ := memory_stays_in_view config p
    [.scrollDown, .scrollDown, .step, .reset, .scrollDown]
  have hsize : d.machine.memory.size = 2 := by decide
  have hscroll : d.scroll = 1 := by decide
  have hlist : d.memoryRows 6 = ["   0x2: 11"] := by decide
  have hfirst : (d.memoryRows 6)[0]? = some "   0x2: 11" := by rw [hlist]; rfl
  obtain ⟨-, a, w, hget, hrank, htext⟩ := (hplaces 6 0 _).mp hfirst
  refine ⟨hsize, hscroll, ?_, hlist, a, w, hget, ?_, htext⟩
  · exact hrows 6 (by decide) (by rw [hsize]; exact Nat.two_pos)
  · rw [hrank]
    exact hscroll

end Debugger

end BitMachine
