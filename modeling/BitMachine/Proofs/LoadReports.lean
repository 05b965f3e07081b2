import BitMachine.Proofs.DebuggerReset
import BitMachine.Proofs.MemoryMap
import BitMachine.Proofs.Printing

namespace BitMachine

/-!
# What a debugger says about loading

A program is loaded by storing its words one after the other, and the first word that memory
refuses ends that. A new debugger names the reason in its status line. A debugger that is reset
loads its program with the same result, but its status line says in any case that it is ready:

* `Memory.Fits` — words that can be loaded into an empty memory;
* `Memory.Refused` — why other words cannot be loaded: the first one that is refused, and the
  reason. `Memory.Refused.not_fits` and `Memory.Refused.unique` say that it is the only one;
* `Memory.HasStored` — the invariant of loading, with a step lemma for a word that is stored, one
  for a word that is refused, and `Memory.HasStored.load_cases` for all of them;
* `Memory.load_eq_ok_iff`, `Memory.load_eq_error_iff` — how loading into an empty memory ends;
* `Debugger.reset_says_ready` — what the status line says after the loading, and after a reset.
-/

namespace Memory

/-! ### Words that can be loaded, and words that cannot -/

/-- The addresses at which words are placed. -/
def addresses (rows : List (Address × Word)) : Finset Address :=
  (rows.map Prod.fst).toFinset

/-- **Words that can be loaded** into an empty memory: none of them is empty, and there is room for
    all their addresses. -/
structure Fits (capacity : Option UInt64) (rows : List (Address × Word)) : Prop where
  /-- No word is empty. -/
  nonempty : ∀ row ∈ rows, row.2.isEmpty = false
  /-- The addresses fit. One that comes again needs no further room. -/
  room : ∀ limit, capacity = some limit → (addresses rows).card ≤ limit.toNat

/-- Why a word is refused behind words that have been stored. -/
inductive RefusedBehind (capacity : Option UInt64) (front : List (Address × Word)) (a : Address)
    (w : Word) : MemoryError → Prop
  /-- It is empty. -/
  | emptyWord (hword : w.isEmpty = true) : RefusedBehind capacity front a w (.emptyWord a)
  /-- It is placed at a further address, and those before it take all the room. -/
  | noRoom {limit : UInt64} (hword : w.isEmpty = false) (hnew : a ∉ addresses front)
      (hlimit : capacity = some limit) (hfull : (addresses front).card = limit.toNat) :
      RefusedBehind capacity front a w (.outOfMemory a limit.toNat)

/-- **Why words cannot be loaded** into an empty memory: behind words that can be loaded there is
    one that is refused. -/
def Refused (capacity : Option UInt64) (rows : List (Address × Word)) (e : MemoryError) : Prop :=
  ∃ front a w rear, rows = front ++ (a, w) :: rear ∧ Fits capacity front ∧
    RefusedBehind capacity front a w e

variable {capacity : Option UInt64} {rows : List (Address × Word)} {e : MemoryError}

theorem mem_addresses {a : Address} : a ∈ addresses rows ↔ a ∈ rows.map Prod.fst :=
  List.mem_toFinset

theorem addresses_concat (rows : List (Address × Word)) (a : Address) (w : Word) :
    addresses (rows ++ [(a, w)]) = Insert.insert a (addresses rows) := by
  unfold addresses
  rw [List.map_append, List.toFinset_append]
  exact Finset.union_comm _ _

/-- One word is refused for one reason. -/
theorem RefusedBehind.unique {front : List (Address × Word)} {a : Address} {w : Word}
    {e' : MemoryError} (h : RefusedBehind capacity front a w e)
    (h' : RefusedBehind capacity front a w e') : e = e' := by
  cases h with
  | emptyWord hword =>
    cases h' with
    | emptyWord => rfl
    | noRoom hword' => cases hword.symm.trans hword'
  | noRoom hword _ hlimit _ =>
    cases h' with
    | emptyWord hword' => cases hword.symm.trans hword'
    | noRoom _ _ hlimit' _ =>
      cases hlimit.symm.trans hlimit'
      rfl

namespace Refused

/-- Words that cannot be loaded do not fit. -/
theorem not_fits (h : Refused capacity rows e) : ¬ Fits capacity rows := by
  obtain ⟨front, a, w, rear, rfl, -, hreason⟩ := h
  intro hfits
  cases hreason with
  | emptyWord hword =>
    have hne := hfits.nonempty (a, w) (by simp)
    rw [hword] at hne
    cases hne
  | noRoom _ hnew hlimit hfull =>
    -- With the further address there are more than fit.
    have hsubset : addresses (front ++ [(a, w)]) ⊆ addresses (front ++ (a, w) :: rear) := by
      intro b hb
      rw [mem_addresses] at hb ⊢
      simp only [List.map_append, List.map_cons, List.mem_append, List.mem_cons] at hb ⊢
      tauto
    have hcard := Finset.card_le_card hsubset
    rw [addresses_concat, Finset.card_insert_of_notMem hnew, hfull] at hcard
    have hroom := hfits.room _ hlimit
    omega

/-- Words that can be loaded do not reach past a word that is refused. -/
theorem eq_nil_of_fits {front middle rear rear' : List (Address × Word)} {a : Address} {w : Word}
    (hfront : Fits capacity front) (hreason : RefusedBehind capacity front a w e)
    (hsplit : (a, w) :: rear = middle ++ rear') (hfits : Fits capacity (front ++ middle)) :
    middle = [] := by
  cases middle with
  | nil => rfl
  | cons row middle =>
    obtain ⟨rfl, -⟩ := List.cons.inj hsplit
    exact absurd hfits (not_fits ⟨front, a, w, middle, rfl, hfront, hreason⟩)

/-- **One reason.** The word that is refused first gives it. -/
theorem unique {e' : MemoryError} (h : Refused capacity rows e) (h' : Refused capacity rows e') :
    e = e' := by
  obtain ⟨front, a, w, rear, hrows, hfits, hreason⟩ := h
  obtain ⟨front', b, v, rear', hrows', hfits', hreason'⟩ := h'
  -- Neither of the two refused words comes behind the other one.
  have hfront : front = front' ∧ (a, w) :: rear = (b, v) :: rear' := by
    rcases List.append_eq_append_iff.mp (hrows.symm.trans hrows') with
      ⟨middle, rfl, hsplit⟩ | ⟨middle, rfl, hsplit⟩
    · obtain rfl := eq_nil_of_fits hfits hreason hsplit hfits'
      exact ⟨(List.append_nil _).symm, hsplit⟩
    · obtain rfl := eq_nil_of_fits hfits' hreason' hsplit hfits
      exact ⟨List.append_nil _, hsplit.symm⟩
  obtain ⟨rfl, hrow⟩ := hfront
  obtain ⟨⟨rfl, rfl⟩, -⟩ : (a = b ∧ w = v) ∧ rear = rear' := by simpa using hrow
  exact hreason.unique hreason'

end Refused

/-! ### How loading ends -/

/-- **A memory that has stored words** one after the other, and no others. -/
structure HasStored (m : Memory) (rows : List (Address × Word)) : Prop where
  /-- The occupied addresses are those of the words. -/
  occupied : ∃ map, m.Represents map ∧ map.keys = addresses rows
  /-- None of the words is empty. -/
  nonempty : ∀ row ∈ rows, row.2.isEmpty = false

theorem hasStored_empty (capacity : Option UInt64) : (empty capacity).HasStored [] :=
  ⟨⟨∅, represents_empty capacity, rfl⟩, nofun⟩

namespace HasStored

variable {m m' : Memory} {a : Address} {w : Word}

/-- Words that have been stored fit. -/
theorem fits (h : m.HasStored rows) : Fits m.capacity rows := by
  obtain ⟨⟨map, hmap, hkeys⟩, hnonempty⟩ := h
  refine ⟨hnonempty, fun limit hlimit => ?_⟩
  rw [← hkeys]
  exact hmap.fits limit hlimit

/-- **Step.** A further word is stored behind the others. -/
theorem push (h : m.HasStored rows) (hins : m.insertAt a w = (m', .ok ())) :
    m'.HasStored (rows ++ [(a, w)]) := by
  obtain ⟨⟨map, hmap, hkeys⟩, hnonempty⟩ := h
  refine ⟨⟨map.insert a w, hmap.insertAt hins, ?_⟩, fun row hrow => ?_⟩
  · rw [WordMap.keys_insert, hkeys, addresses_concat]
  · rcases List.mem_append.mp hrow with hmem | hmem
    · exact hnonempty row hmem
    · rw [List.mem_singleton.mp hmem]
      exact (insertAt_eq_ok_iff.mp hins).1

/-- **Step.** A further word is refused behind the others. -/
theorem refusedBehind (h : m.HasStored rows) (hins : m.insertAt a w = (m', .error e)) :
    RefusedBehind m.capacity rows a w e := by
  have hroom := h.fits.room
  obtain ⟨⟨map, hmap, hkeys⟩, -⟩ := h
  obtain ⟨-, ⟨hword, rfl⟩ | ⟨hword, limit, hfull, rfl⟩⟩ := insertAt_eq_error_iff.mp hins
  · exact .emptyWord hword
  · obtain ⟨hfree, hlimit, hle⟩ := isFullFor_eq_some_iff.mp hfull
    have hnew : a ∉ addresses rows := by
      rw [← hkeys, Finmap.mem_keys, ← hmap.reads.contains, hfree]
      decide
    rw [hmap.reads.size, hkeys] at hle
    exact .noRoom hword hnew hlimit (Nat.le_antisymm (hroom limit hlimit) hle)

/-- **Run.** Further words are all stored behind the others, or one of them is refused. -/
theorem load_cases (h : m.HasStored rows) (rest : List (Address × Word)) :
    ((m.load rest).2 = .ok () ∧ Fits m.capacity (rows ++ rest)) ∨
      ∃ e, (m.load rest).2 = .error e ∧ Refused m.capacity (rows ++ rest) e := by
  -- Each word that is stored moves from the words to come to those that have been stored.
  induction rest generalizing m rows with
  | nil =>
    rw [List.append_nil]
    exact .inl ⟨rfl, h.fits⟩
  | cons row rest ih =>
    obtain ⟨a, w⟩ := row
    unfold load
    rcases hins : m.insertAt a w with ⟨m', e | _⟩
    · exact .inr ⟨e, rfl, rows, a, w, rest, rfl, h.fits, h.refusedBehind hins⟩
    · have hcapacity : m'.capacity = m.capacity := by rw [insertAt_eq_ok hins]
      have hrest := ih (h.push hins)
      rw [hcapacity, List.append_assoc] at hrest
      exact hrest

end HasStored

/-- **Loading goes one of two ways**: the words fit, or one of them is refused. -/
theorem load_empty_cases (capacity : Option UInt64) (rows : List (Address × Word)) :
    (((empty capacity).load rows).2 = .ok () ∧ Fits capacity rows) ∨
      ∃ e, ((empty capacity).load rows).2 = .error e ∧ Refused capacity rows e :=
  (hasStored_empty capacity).load_cases rows

/-- **When words can be loaded** into an empty memory. -/
theorem load_eq_ok_iff : ((empty capacity).load rows).2 = .ok () ↔ Fits capacity rows := by
  rcases load_empty_cases capacity rows with ⟨hok, hfits⟩ | ⟨e, herror, hrefused⟩
  · exact iff_of_true hok hfits
  · refine iff_of_false ?_ hrefused.not_fits
    rw [herror]
    nofun

/-- **Why words cannot be loaded** into an empty memory, if they cannot. -/
theorem load_eq_error_iff :
    ((empty capacity).load rows).2 = .error e ↔ Refused capacity rows e := by
  rcases load_empty_cases capacity rows with ⟨hok, hfits⟩ | ⟨e', herror, hrefused⟩
  · rw [hok]
    exact iff_of_false nofun fun h => h.not_fits hfits
  · rw [herror, Except.error.injEq]
    exact ⟨fun h => h ▸ hrefused, fun h => hrefused.unique h⟩

end Memory

namespace Debugger

variable {m : Machine} {config : Config} {p : Program}

/-! ### What the status line says -/

/-- The status line of a new debugger whose program is loaded. -/
def readyText : String := "Ready. Press 's' to step, 'r' to run, 'q' to quit."

/-- What loading leaves in the status of a machine. -/
theorem status_loaded (h : m.BuiltFrom config) (p : Program) :
    (loaded m p).status = match ((Memory.empty config.memoryCapacity).load p.words).2 with
      | .ok () => .running
      | .error e => .faulted (.memory e) := by
  have hload : (Machine.create config).loadProgram p =
      ({ Machine.create config with
          memory := ((Memory.empty config.memoryCapacity).load p.words).1 },
        ((Memory.empty config.memoryCapacity).load p.words).2) := rfl
  unfold loaded
  rw [h.reset_eq, hload]
  cases ((Memory.empty config.memoryCapacity).load p.words).2 with
  | ok _ => rfl
  | error e => rfl

/-- **A machine goes on** after loading exactly if the program fits. -/
theorem status_loaded_eq_running_iff (h : m.BuiltFrom config) :
    (loaded m p).status = .running ↔ Memory.Fits config.memoryCapacity p.words := by
  rw [status_loaded h p, ← Memory.load_eq_ok_iff]
  cases ((Memory.empty config.memoryCapacity).load p.words).2 with
  | ok _ => simp
  | error e => simp

/-- **A machine has a memory fault** after loading exactly if that is why the program does not
    fit. -/
theorem status_loaded_eq_faulted_iff (h : m.BuiltFrom config) {e : MemoryError} :
    (loaded m p).status = .faulted (.memory e) ↔
      Memory.Refused config.memoryCapacity p.words e := by
  rw [status_loaded h p, ← Memory.load_eq_error_iff]
  cases ((Memory.empty config.memoryCapacity).load p.words).2 with
  | ok _ => simp
  | error e' => simp

/-- What a new debugger says goes by the fault of its machine. -/
theorem status_create (config : Config) (p : Program) :
    (create config p).status = match (loaded (Machine.create config) p).fault? with
      | some fault => s!"Load failed: {fault.message}"
      | none => readyText := rfl

/-- The status line of a new debugger whose program fits. -/
theorem status_create_of_fits (h : Memory.Fits config.memoryCapacity p.words) :
    (create config p).status = readyText := by
  have hstatus := (status_loaded_eq_running_iff (Machine.builtFrom_create config)).mpr h
  rw [status_create, Machine.fault?, hstatus]

/-- **A new debugger names the reason** why its program does not fit. -/
theorem status_create_of_refused {e : MemoryError}
    (h : Memory.Refused config.memoryCapacity p.words e) :
    (create config p).status = s!"Load failed: memory error: {e.message}" := by
  have hstatus := (status_loaded_eq_faulted_iff (Machine.builtFrom_create config)).mpr h
  have hopening : "Load failed: memory error: " = "Load failed: " ++ "memory error: " := rfl
  rw [status_create, Machine.fault?, hstatus]
  show "Load failed: " ++ ("memory error: " ++ e.message)
    = "Load failed: memory error: " ++ e.message
  rw [hopening, String.append_assoc]

/-- A new debugger says that it is ready exactly if its program fits. -/
theorem status_create_eq_readyText_iff :
    (create config p).status = readyText ↔ Memory.Fits config.memoryCapacity p.words := by
  rcases Memory.load_empty_cases config.memoryCapacity p.words with ⟨-, hfits⟩ | ⟨e, -, hrefused⟩
  · exact iff_of_true (status_create_of_fits hfits) hfits
  · refine iff_of_false (fun hready => ?_) hrefused.not_fits
    -- The two lines differ in their first letter.
    have hchars := congrArg String.toList ((status_create_of_refused hrefused).symm.trans hready)
    simp [readyText, toString_text] at hchars

/-- **A debugger that is reset says that it is ready**, after any requests and whether or not its
    program fits. That is true exactly if the program fits: only then the machine goes on, and only
    then the debugger has said that it is ready when it was created. Otherwise it has reported a
    memory error then, and the same error stops the machine after the reset. -/
theorem reset_says_ready (config : Config) (p : Program) (requests : List Request) :
    let new := create config p
    let d := (new.performAll requests).reset
    d.status = "Reset. Ready." ∧
      (d.machine.status = .running ↔ Memory.Fits config.memoryCapacity p.words) ∧
      (new.status = readyText ↔ Memory.Fits config.memoryCapacity p.words) ∧
      ∀ e, Memory.Refused config.memoryCapacity p.words e →
        new.status = s!"Load failed: memory error: {e.message}" ∧
          d.machine.status = .faulted (.memory e) := by
  intro new d
  have hdrives : (new.performAll requests).Drives config p :=
    (drives_create config p).performAll requests
  have hmachine : d.machine = loaded (new.performAll requests).machine p := by
    rw [← hdrives.program]
    rfl
  refine ⟨rfl, ?_, status_create_eq_readyText_iff, fun e hrefused => ⟨?_, ?_⟩⟩
  · rw [hmachine]
    exact status_loaded_eq_running_iff hdrives.machine
  · exact status_create_of_refused hrefused
  · rw [hmachine]
    exact (status_loaded_eq_faulted_iff hdrives.machine).mpr hrefused

/-- The second of three words is empty. A step is refused, and after the reset the machine has the
    memory error again, while the status line says that the debugger is ready. -/
theorem reset_says_ready_empty_word :
    let one : Bits := ⟨false, [true], List.cons_ne_nil _ _⟩
    let p : Program := ⟨[(⟨1⟩, ⟨[one]⟩), (⟨2⟩, ⟨[]⟩), (⟨3⟩, ⟨[one]⟩)]⟩
    let d := ((create {} p).performAll [.step]).reset
    Memory.Refused none p.words (.emptyWord ⟨2⟩) ∧
      (create {} p).status
        = "Load failed: memory error: refusing to store an empty word at 0x2" ∧
      d.machine.status = .faulted (.memory (.emptyWord ⟨2⟩)) ∧ d.status = "Reset. Ready." := by
  intro one p d
  have hrefused : Memory.Refused none p.words (.emptyWord ⟨2⟩) := by
    refine ⟨[(⟨1⟩, ⟨[one]⟩)], ⟨2⟩, ⟨[]⟩, _, rfl, ⟨?_, nofun⟩, .emptyWord rfl⟩
    intro row hrow
    rw [List.mem_singleton.mp hrow]
    rfl
  obtain ⟨hstatus, -, -, hreport⟩ := reset_says_ready {} p [.step]
  obtain ⟨hcreate, hmachine⟩ := hreport _ hrefused
  exact ⟨hrefused, hcreate.trans (by decide), hmachine, hstatus⟩

/-- **Ready without a program.** Two words do not fit into one slot. The new debugger says so; the
    same debugger after a reset says that it is ready, and its machine does not go on. -/
theorem reset_ready_of_load_failure :
    let two : Bits := ⟨false, [true, false], List.cons_ne_nil _ _⟩
    let d := create { memoryCapacity := some 1 } (Program.ofWords [⟨[two]⟩, ⟨[two]⟩])
    d.status = "Load failed: memory error: cannot store at 0x2: memory full (1 slots)" ∧
      (d.perform .reset).status = "Reset. Ready." ∧
      (d.perform .reset).machine.status = .faulted (.memory (.outOfMemory ⟨2⟩ 1)) := by
  decide

end Debugger

end BitMachine
