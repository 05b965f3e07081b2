import BitMachine.Proofs.LoadedPrograms

namespace BitMachine

/-!
# The two sequential loaders

Words can be stored one after the other in two ways: each at the address that the memory finds for
it, or as a program that places them at the first addresses. On a machine at its start, both come
to the same:

* `Program.placeFrom_append`, `Program.slots_placeFrom` — where a program places its words;
* `Memory.loadSequentially_eq` — the loaders stay in step: as long as words are left, the address
  that the memory finds is the one that the program has for the next word;
* `Machine.loaders_agree` — **the loaders agree**, also if a word is refused.
-/

namespace Program

/-! ### Consecutive addresses -/

@[simp]
theorem length_placeFrom (a : Address) (ws : List Word) : (placeFrom a ws).length = ws.length := by
  induction ws generalizing a with
  | nil => rfl
  | cons w rest ih => rw [placeFrom, List.length_cons, ih, List.length_cons]

/-- Further words are placed behind the first ones. -/
theorem placeFrom_append (a : Address) (front rest : List Word) :
    placeFrom a (front ++ rest) =
      placeFrom a front ++ placeFrom ⟨a.slot + .ofNat front.length⟩ rest := by
  induction front generalizing a with
  | nil => simp [placeFrom]
  | cons w front ih =>
    have hslot : a.slot + 1 + .ofNat front.length = a.slot + .ofNat (w :: front).length := by
      rw [List.length_cons, Nat.add_comm, UInt64.ofNat_add, UInt64.add_assoc]
      rfl
    simp only [List.cons_append, placeFrom, ih, hslot]

/-- A slot that is not beyond the last one. -/
theorem toNat_slot_add {a : Address} {k : Nat} (h : a.slot.toNat + k < 2 ^ 64) :
    (a.slot + .ofNat k).toNat = a.slot.toNat + k := by
  rw [UInt64.toNat_add, UInt64.toNat_ofNat', Nat.add_mod_mod, Nat.mod_eq_of_lt h]

/-- The numbers of the slots are consecutive. -/
theorem slots_placeFrom {a : Address} {ws : List Word} (h : a.slot.toNat + ws.length ≤ 2 ^ 64) :
    (placeFrom a ws).map (·.1.slot.toNat) = List.range' a.slot.toNat ws.length := by
  induction ws using List.reverseRecOn with
  | nil => rfl
  | append_singleton front w ih =>
    rw [List.length_append, List.length_singleton] at h
    have hslot := @toNat_slot_add a front.length (by omega)
    rw [placeFrom_append, List.map_append, ih (by omega), List.length_append,
      List.length_singleton, List.range'_concat]
    simp [placeFrom, hslot]

/-- No two words are placed at the same address. -/
theorem nodup_placeFrom {a : Address} {ws : List Word} (h : a.slot.toNat + ws.length ≤ 2 ^ 64) :
    ((placeFrom a ws).map Prod.fst).Nodup := by
  have hslots : ((placeFrom a ws).map (·.1.slot.toNat)).Nodup := by
    rw [slots_placeFrom h]
    exact List.nodup_range'
  refine List.Nodup.of_map (·.slot.toNat) ?_
  rw [List.map_map]
  exact hslots

/-- A word of a program, and the words around it. -/
theorem placeFrom_eq_append {a b : Address} {ws : List Word} {w : Word}
    {front rear : List (Address × Word)} (h : placeFrom a ws = front ++ (b, w) :: rear) :
    ∃ before after, ws = before ++ w :: after ∧ front = placeFrom a before ∧
      b.slot = a.slot + .ofNat before.length := by
  -- The words before it are as many as the entries before it.
  have hle : front.length ≤ ws.length := by
    rw [← length_placeFrom a ws, h, List.length_append]
    exact Nat.le_add_right _ _
  have hlength : (ws.take front.length).length = front.length := List.length_take_of_le hle
  rw [← List.take_append_drop front.length ws, placeFrom_append] at h
  obtain ⟨hfront, hrest⟩ := List.append_inj h (by rw [length_placeFrom, hlength])
  cases hdrop : ws.drop front.length with
  | nil =>
    rw [hdrop] at hrest
    cases hrest
  | cons v after =>
    rw [hdrop] at hrest
    cases hrest
    exact ⟨ws.take front.length, after, by rw [← hdrop, List.take_append_drop], hfront.symm, rfl⟩

end Program

namespace Memory

open Program (placeFrom)

/-! ### In step -/

/-- After a word was stored at the next address, the one behind it is the next address. -/
theorem next_of_insertAt {m m' : Memory} {a : Address} {w : Word} (h : m.next = some a)
    (hins : m.insertAt a w = (m', .ok ())) (hlast : a ≠ Address.last) :
    m'.next = some ⟨a.slot + 1⟩ := by
  rw [insertAt_eq_ok hins]
  show nextAfter m.next a = _
  have hself : ¬ a < a := UInt64.lt_irrefl a.slot
  rw [h, nextAfter, if_neg hself, Address.next?, if_neg hlast]

/-- A memory at its start places words from the first address on. -/
theorem IsFresh.next_eq {m : Memory} (h : m.IsFresh) : m.next = some Address.first := by
  rw [h.eq_empty]
  rfl

/-- **In step.** To store words sequentially is to store them at consecutive addresses from the next
    one on, and these are what is yielded. -/
theorem loadSequentially_eq {m : Memory} {a : Address} {ws : List Word}
    (hnext : ws ≠ [] → m.next = some a) (hroom : a.slot.toNat + ws.length ≤ 2 ^ 64) :
    m.loadSequentially ws = ((m.load (placeFrom a ws)).1,
      (m.load (placeFrom a ws)).2.map fun _ => (placeFrom a ws).map Prod.fst) := by
  induction ws generalizing m a with
  | nil => rfl
  | cons w rest ih =>
    have hat := hnext (List.cons_ne_nil w rest)
    rw [loadSequentially, insert_of_next hat, placeFrom, load]
    rcases hins : m.insertAt a w with ⟨m', e | _⟩
    · rfl
    · rw [List.length_cons] at hroom
      have hroom' : (a.slot + 1).toNat + rest.length ≤ 2 ^ 64 := by
        rw [UInt64.toNat_add]
        have hle := Nat.mod_le (a.slot.toNat + (1 : UInt64).toNat) (2 ^ 64)
        have hone : (1 : UInt64).toNat = 1 := rfl
        omega
      have hnext' : rest ≠ [] → m'.next = some ⟨a.slot + 1⟩ := by
        intro hrest
        -- There is room for a further word, so this one is not at the last address.
        have hpos := List.length_pos_of_ne_nil hrest
        refine next_of_insertAt hat hins ?_
        rintro rfl
        rw [Address.toNat_last] at hroom
        omega
      simp only [Except.map, ih hnext' hroom']
      cases (m'.load (placeFrom ⟨a.slot + 1⟩ rest)).2 <;> rfl

end Memory

namespace Machine

/-! ### The theorem -/

/-- **The loaders agree.** A machine whose memory has just been created or cleared is the same after
    words were stored sequentially and after they were loaded as a program. Either all of them are
    stored, from address 1 on, or both loaders report the same error for the same word, and exactly
    the words before it are stored. The number of words is one of 64 bits. -/
theorem loaders_agree {m : Machine} {ws : List Word} (hfresh : m.memory.IsFresh)
    (hlength : ws.length < 2 ^ 64) :
    (m.loadWords ws).1 = (m.loadProgram (Program.ofWords ws)).1 ∧
    ((∃ addrs, (m.loadWords ws).2 = .ok addrs ∧
        addrs.map (·.slot.toNat) = List.range' 1 ws.length ∧
        (m.loadProgram (Program.ofWords ws)).2 = .ok () ∧
        (m.loadWords ws).1.memory.HoldsExactly (Program.ofWords ws)) ∨
      ∃ before w after addr e, ws = before ++ w :: after ∧ addr.slot.toNat = before.length + 1 ∧
        (m.loadWords ws).2 = .error e ∧ (m.loadProgram (Program.ofWords ws)).2 = .error e ∧
        m.memory.Refuses before.length addr w e ∧
        (m.loadWords ws).1.memory.HoldsExactly (Program.ofWords before)) := by
  -- The addresses do not come round to the first slot again.
  have hroom : Address.first.slot.toNat + ws.length ≤ 2 ^ 64 := by
    rw [show Address.first.slot.toNat = 1 from rfl]
    omega
  have hloads := hfresh.loads (Program.nodup_placeFrom hroom)
  have hstep := Memory.loadSequentially_eq (fun _ => hfresh.next_eq) hroom
  unfold loadWords loadProgram Program.ofWords
  rw [hstep]
  generalize m.memory.load (Program.placeFrom Address.first ws) = result at hloads
  refine ⟨rfl, ?_⟩
  generalize hrows : Program.placeFrom Address.first ws = rows at hloads
  cases hloads with
  | stored _ _ hholds =>
    refine .inl ⟨_, rfl, ?_, rfl, hholds⟩
    rw [← hrows, List.map_map]
    exact Program.slots_placeFrom hroom
  | @refused _ front _ addr w e hsplit hreason hholds =>
    obtain ⟨before, after, hws, hfront, hslot⟩ :=
      Program.placeFrom_eq_append (hrows.trans hsplit)
    have hslots : Address.first.slot.toNat + before.length < 2 ^ 64 := by
      rw [hws, List.length_append, List.length_cons] at hroom
      omega
    refine .inr ⟨before, w, after, addr, e, hws, ?_, rfl, rfl, ?_, ?_⟩
    · rw [hslot, Program.toNat_slot_add hslots, Nat.add_comm]
      rfl
    · rw [hfront, Program.length_placeFrom, Program.size_empty, Nat.zero_add] at hreason
      exact hreason
    · rw [← hfront]
      exact hholds

/-- A new machine for three words is given four, of which the third one is empty. -/
theorem loaders_agree_refused :
    let m := create { memoryCapacity := some 3 }
    let zero : Word := ⟨[⟨false, [false], List.cons_ne_nil _ _⟩]⟩
    let ws : List Word := [zero, zero, ⟨[]⟩, zero]
    m.memory.IsFresh ∧ ws.length < 2 ^ 64 ∧
      (m.loadWords ws).1 = (m.loadProgram (Program.ofWords ws)).1 ∧
      (m.loadWords ws).2 = .error (.emptyWord ⟨3⟩) ∧
      (m.loadProgram (Program.ofWords ws)).2 = .error (.emptyWord ⟨3⟩) ∧
      (m.loadWords ws).1.memory.HoldsExactly (Program.ofWords [zero, zero]) := by
  intro m zero ws
  have hfresh : m.memory.IsFresh := .inl ⟨some 3, rfl⟩
  have hlength : ws.length < 2 ^ 64 := by decide
  have herror : (m.loadWords ws).2 = .error (.emptyWord ⟨3⟩) := rfl
  obtain ⟨hsame, hend⟩ := loaders_agree hfresh hlength
  rcases hend with
    ⟨addrs, hok, -⟩ | ⟨before, w, after, addr, e, hws, hslot, hwords, hprogram, hreason, hholds⟩
  · cases herror.symm.trans hok
  · cases herror.symm.trans hwords
    -- The reported address says how many words there are before the empty one.
    obtain rfl : ⟨3⟩ = addr := by
      rcases hreason with ⟨-, heq⟩ | ⟨-, limit, -, -, heq⟩
      · exact MemoryError.emptyWord.inj heq
      · cases heq
    have hbefore : before = ws.take before.length := by rw [hws, List.take_left]
    have htwo : before.length = 2 := (Nat.succ.inj hslot).symm
    rw [htwo] at hbefore
    rw [hbefore] at hholds
    exact ⟨hfresh, hlength, hsame, herror, hprogram, hholds⟩

end Machine

end BitMachine
