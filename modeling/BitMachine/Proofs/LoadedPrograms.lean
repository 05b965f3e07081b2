import BitMachine.Proofs.AssembledImage
import BitMachine.Proofs.SequentialPlacement

namespace BitMachine

/-!
# Loaded programs

What a memory holds after a program has been loaded into it, and where loading stops if the
program does not fit:

* `Program.highestSlot` — the highest slot at which a program places a word;
* `Memory.HoldsExactly` — a memory holds the words of a program and nothing else, and sequential
  placement goes on above them;
* `Memory.HoldsExactly.push` — storing a word at a new address adds it to what is held, and
  `Memory.HoldsExactly.unique`: the order of the words makes no difference;
* `Memory.Loads` and `Memory.HoldsExactly.load` — how loading ends: all words are held, or those
  before the first one that is refused;
* `Memory.load_faithful` — **loading is faithful**.
-/

/-! ### Words in any order -/

/-- Where addresses are distinct, the order of the entries makes no difference to a lookup. -/
theorem lookup_perm {es fs : List (Address × Word)} (hnodup : (fs.map Prod.fst).Nodup)
    (h : es.Perm fs) (a : Address) : es.lookup a = fs.lookup a := by
  have hnodup' : (es.map Prod.fst).Nodup := (h.map Prod.fst).nodup_iff.mpr hnodup
  -- A lookup finds whatever entry there is, and both lists have the same ones.
  apply Option.ext
  intro w
  exact ⟨fun hw => lookup_of_mem hnodup (h.mem_iff.mp (mem_of_lookup hw)),
    fun hw => lookup_of_mem hnodup' (h.mem_iff.mpr (mem_of_lookup hw))⟩

/-- A word at a new address is a further entry. -/
theorem perm_insertEntry {a : Address} {w : Word} {es : List (Address × Word)}
    (h : a ∉ es.map Prod.fst) : (insertEntry a w es).Perm ((a, w) :: es) := by
  induction es with
  | nil => exact List.Perm.refl _
  | cons e rest ih =>
    obtain ⟨b, v⟩ := e
    rw [List.map_cons, List.mem_cons, not_or] at h
    unfold insertEntry
    split
    · exact List.Perm.refl _
    · -- The entry has not found its place yet. It does not replace this one either, which is at
      -- another address.
      rw [if_neg h.1]
      exact ((ih h.2).cons _).trans (List.Perm.swap _ _ _)

namespace Program

@[simp]
theorem size_empty : size {} = 0 := rfl

@[simp]
theorem size_push (p : Program) (addr : Address) (w : Word) : (p.push addr w).size = p.size + 1 :=
  List.length_append

/-- The highest slot at which a program places a word; 0 if there is none. -/
def highestSlot (p : Program) : Nat :=
  (p.words.map fun row => row.1.slot.toNat).foldl max 0

theorem highestSlot_push (p : Program) (addr : Address) (w : Word) :
    (p.push addr w).highestSlot = max p.highestSlot addr.slot.toNat := by
  simp [highestSlot, push]

theorem highestSlot_perm {p q : Program} (h : p.words.Perm q.words) :
    p.highestSlot = q.highestSlot :=
  (h.map _).foldl_eq 0

end Program

namespace Memory

/-! ### What a memory holds -/

/-- **A memory holds exactly a program.** -/
structure HoldsExactly (m : Memory) (p : Program) : Prop where
  /-- Each address holds what the program places there. -/
  get : ∀ a, m.cells.get? a = p.get? a
  /-- There are as many words as in the program. -/
  size : m.size = p.size
  /-- The entries are the words of the program with their addresses. -/
  listed : m.entries.Perm p.words
  /-- They come in the order of their slots. -/
  ordered : m.entries.Pairwise fun e f => e.1.slot.toNat < f.1.slot.toNat
  /-- Sequential placement goes on one past the highest slot, at slot 1 if there is none above 0. -/
  next : ∀ n, m.next = some n → n.slot.toNat = p.highestSlot + 1
  /-- It does not go on only if a word is placed at the last slot. -/
  exhausted : m.next = none ↔ Address.last ∈ p.words.map Prod.fst

/-- **The entries decide all that a memory holds**, but for where sequential placement goes on. -/
theorem holdsExactly_of_listed {m : Memory} {p : Program} (hlisted : m.entries.Perm p.words)
    (hnext : ∀ n, m.next = some n → n.slot.toNat = p.highestSlot + 1)
    (hexhausted : m.next = none ↔ Address.last ∈ p.words.map Prod.fst) : m.HoldsExactly p where
  get a := by
    have hnodup : (p.words.map Prod.fst).Nodup :=
      (hlisted.map Prod.fst).nodup_iff.mp m.cells.increasing.nodup
    exact lookup_perm hnodup hlisted a
  size := hlisted.length_eq
  listed := hlisted
  ordered := m.cells.increasing.imp Address.lt_iff_toNat_lt.mp
  next := hnext
  exhausted := hexhausted

theorem holdsExactly_empty (capacity : Option UInt64) : (empty capacity).HoldsExactly {} := by
  refine holdsExactly_of_listed (List.Perm.refl _) ?_ (by simp [empty])
  intro n hn
  cases hn
  rfl

namespace HoldsExactly

variable {m : Memory} {p : Program}

/-- **Step.** A word that is stored at a new address is added to what is held. -/
theorem push (h : m.HoldsExactly p) {m' : Memory} {a : Address} {w : Word}
    (hnew : a ∉ p.words.map Prod.fst) (hins : m.insertAt a w = (m', .ok ())) :
    m'.HoldsExactly (p.push a w) := by
  have hm' := insertAt_eq_ok hins
  subst hm'
  have hentries : a ∉ m.cells.entries.map Prod.fst :=
    fun hmem => hnew ((h.listed.map Prod.fst).mem_iff.mp hmem)
  have hplaced : Address.last ∈ (p.push a w).words.map Prod.fst ↔
      m.next = none ∨ a = Address.last := by
    simp [Program.push, h.exhausted, eq_comm]
  refine holdsExactly_of_listed ?_ ?_ ?_
  · calc
      List.Perm (insertEntry a w m.cells.entries) ((a, w) :: m.cells.entries) :=
        perm_insertEntry hentries
      List.Perm _ ((a, w) :: p.words) := h.listed.cons _
      List.Perm _ (p.words ++ [(a, w)]) := (List.perm_append_singleton _ _).symm
  · intro n hn
    change nextAfter m.next a = some n at hn
    -- There was a next address, and it was one past the highest slot.
    obtain ⟨before, hbefore, hslot⟩ := nextAfter_eq_some hn
    rw [hslot, h.next before hbefore, Program.highestSlot_push]
    omega
  · show nextAfter m.next a = none ↔ _
    rw [hplaced]
    exact nextAfter_eq_none_iff

/-- **One memory.** Memories of one capacity that hold the same words at the same addresses are the
    same, whatever the order in which the words came. -/
theorem unique {n : Memory} {q : Program} (hm : m.HoldsExactly p) (hn : n.HoldsExactly q)
    (hperm : p.words.Perm q.words) (hcapacity : m.capacity = n.capacity) : m = n := by
  obtain ⟨⟨mentries, mincreasing⟩, mnext, mcapacity⟩ := m
  obtain ⟨⟨nentries, nincreasing⟩, nnext, ncapacity⟩ := n
  -- The entries are the same up to their order, and that is given by the slots.
  have hlisted : mentries.Perm nentries := (hm.listed.trans hperm).trans hn.listed.symm
  have hentries : mentries = nentries := by
    refine List.Perm.eq_of_pairwise ?_ mincreasing nincreasing hlisted
    intro e f _ _ hlt hgt
    exact absurd (UInt64.lt_trans hlt hgt) (UInt64.lt_irrefl _)
  have hnone : mnext = none ↔ nnext = none :=
    calc mnext = none ↔ Address.last ∈ p.words.map Prod.fst := hm.exhausted
      _ ↔ Address.last ∈ q.words.map Prod.fst := (hperm.map Prod.fst).mem_iff
      _ ↔ nnext = none := hn.exhausted.symm
  -- Both next addresses are one past the same slot, or there is none in either.
  have hnext : mnext = nnext := by
    cases hmnext : mnext with
    | none => exact (hnone.mp hmnext).symm
    | some a =>
      cases hnnext : nnext with
      | none => exact absurd (hnone.mpr hnnext) (by simp [hmnext])
      | some b =>
        have hslots : a.slot.toNat = b.slot.toNat :=
          calc a.slot.toNat = p.highestSlot + 1 := hm.next a hmnext
            _ = q.highestSlot + 1 := by rw [Program.highestSlot_perm hperm]
            _ = b.slot.toNat := (hn.next b hnnext).symm
        exact congrArg (fun slot => some (Address.mk slot)) (UInt64.toNat_inj.mp hslots)
  change mcapacity = ncapacity at hcapacity
  subst hentries hnext hcapacity
  rfl

end HoldsExactly

/-! ### How loading ends -/

/-- Why a word is refused: it is empty, or as many words are stored as fit. -/
def Refuses (m : Memory) (stored : Nat) (a : Address) (w : Word) (e : MemoryError) : Prop :=
  (w.isEmpty = true ∧ e = .emptyWord a) ∨
    (w.isEmpty = false ∧ ∃ limit, m.capacity = some limit ∧ limit.toNat = stored ∧
      e = .outOfMemory a stored)

/-- **How loading ends** in a memory that holds a program: further words are added to it. -/
inductive Loads (m : Memory) (p : Program) (rows : List (Address × Word)) :
    Memory × Except MemoryError Unit → Prop
  /-- All words are stored. None of them is empty, and they all fit. -/
  | stored {m' : Memory} (hnonempty : ∀ row ∈ rows, row.2.isEmpty = false)
      (hfits : ∀ limit, m.capacity = some limit → p.size + rows.length ≤ limit.toNat)
      (hholds : m'.HoldsExactly ⟨p.words ++ rows⟩) : Loads m p rows (m', .ok ())
  /-- The words before the first one that is refused are stored. -/
  | refused {m' : Memory} {front rear : List (Address × Word)} {a : Address} {w : Word}
      {e : MemoryError} (hsplit : rows = front ++ (a, w) :: rear)
      (hreason : m.Refuses (p.size + front.length) a w e)
      (hholds : m'.HoldsExactly ⟨p.words ++ front⟩) : Loads m p rows (m', .error e)

/-- A further word, which is stored, comes before the others. -/
theorem Loads.cons {m m' : Memory} {p : Program} {rows : List (Address × Word)} {a : Address}
    {w : Word} {result : Memory × Except MemoryError Unit}
    (h : m'.Loads (p.push a w) rows result) (hcapacity : m'.capacity = m.capacity)
    (hword : w.isEmpty = false) : m.Loads p ((a, w) :: rows) result := by
  have hsize (k : Nat) : (p.push a w).size + k = p.size + (k + 1) := by
    rw [Program.size_push]
    omega
  have happend (front : List (Address × Word)) :
      (p.push a w).words ++ front = p.words ++ (a, w) :: front :=
    List.append_assoc _ _ _
  cases h with
  | stored hnonempty hfits hholds =>
    rw [hcapacity] at hfits
    rw [happend] at hholds
    refine .stored (List.forall_mem_cons.mpr ⟨hword, hnonempty⟩) (fun limit hlimit => ?_) hholds
    rw [List.length_cons, ← hsize]
    exact hfits limit hlimit
  | @refused _ front _ b v e hsplit hreason hholds =>
    have hreason' : m.Refuses (p.size + ((a, w) :: front).length) b v e := by
      rw [List.length_cons, ← hsize, Refuses, ← hcapacity]
      exact hreason
    rw [happend] at hholds
    exact .refused (congrArg (List.cons (a, w)) hsplit) hreason' hholds

namespace HoldsExactly

variable {m : Memory} {p : Program}

/-- The first of further words: it is refused, or it is added to what is held. -/
theorem insertAt_cases (h : m.HoldsExactly p)
    (hroom : ∀ limit, m.capacity = some limit → p.size ≤ limit.toNat) {a : Address}
    (hnew : a ∉ p.words.map Prod.fst) (w : Word) :
    (∃ e, m.insertAt a w = (m, .error e) ∧ m.Refuses p.size a w e) ∨
      ∃ m', m.insertAt a w = (m', .ok ()) ∧ m'.HoldsExactly (p.push a w) ∧
        m'.capacity = m.capacity ∧ w.isEmpty = false ∧
        ∀ limit, m.capacity = some limit → p.size + 1 ≤ limit.toNat := by
  have hfree : m.contains a = false := by
    show (m.cells.get? a).isSome = false
    rw [h.get, ← Bool.not_eq_true, Program.get?, isSome_lookup_iff]
    exact hnew
  rcases hins : m.insertAt a w with ⟨m', e | _⟩
  · obtain ⟨rfl, hreason⟩ := insertAt_eq_error_iff.mp hins
    refine .inl ⟨e, rfl, ?_⟩
    rcases hreason with hempty | ⟨hword, limit, hfull, rfl⟩
    · exact .inl hempty
    · -- There are as many words as fit, and there are never more.
      obtain ⟨-, hlimit, hle⟩ := isFullFor_eq_some_iff.mp hfull
      have heq : limit.toNat = p.size := Nat.le_antisymm (h.size ▸ hle) (hroom limit hlimit)
      exact .inr ⟨hword, limit, hlimit, heq, by rw [heq]⟩
  · obtain ⟨hword, hfull, rfl⟩ := insertAt_eq_ok_iff.mp hins
    refine .inr ⟨_, rfl, h.push hnew hins, rfl, hword, fun limit hlimit => ?_⟩
    -- With no room left, the word would have been refused.
    by_contra hle
    rw [isFullFor_eq_some_iff.mpr ⟨hfree, hlimit, h.size ▸ by omega⟩] at hfull
    cases hfull

/-- **Run.** Further words at new addresses are loaded one after the other. -/
theorem load (h : m.HoldsExactly p)
    (hroom : ∀ limit, m.capacity = some limit → p.size ≤ limit.toNat)
    {rows : List (Address × Word)} (hnodup : ((p.words ++ rows).map Prod.fst).Nodup) :
    m.Loads p rows (m.load rows) := by
  -- Each word that is stored moves from the words to come to those that are held.
  induction rows generalizing m p with
  | nil =>
    refine .stored nofun hroom ?_
    rw [List.append_nil]
    exact h
  | cons row rest ih =>
    obtain ⟨a, w⟩ := row
    have hnodup' : (((p.push a w).words ++ rest).map Prod.fst).Nodup := by
      rw [Program.push, List.append_assoc]
      exact hnodup
    have hnew : a ∉ p.words.map Prod.fst := by
      rw [List.map_append, List.nodup_append] at hnodup
      intro hmem
      exact hnodup.2.2 a hmem a (by simp) rfl
    unfold Memory.load
    rcases h.insertAt_cases hroom hnew w with
      ⟨e, hins, hreason⟩ | ⟨m', hins, hm', hcapacity, hword, hroom'⟩
    · rw [hins]
      have hsplit : (a, w) :: rest = [] ++ (a, w) :: rest := rfl
      refine .refused hsplit hreason ?_
      rw [List.append_nil]
      exact h
    · rw [hins]
      refine (ih hm' ?_ hnodup').cons hcapacity hword
      intro limit hlimit
      rw [hcapacity] at hlimit
      rw [Program.size_push]
      exact hroom' limit hlimit

end HoldsExactly

/-! ### The theorem -/

/-- **A memory at its start**: it has just been created or cleared. -/
def IsFresh (m : Memory) : Prop :=
  (∃ capacity, m = empty capacity) ∨ ∃ before : Memory, m = before.clear

theorem IsFresh.eq_empty {m : Memory} (h : m.IsFresh) : m = empty m.capacity := by
  rcases h with ⟨capacity, rfl⟩ | ⟨before, rfl⟩
  · rfl
  · rfl

/-- How loading ends in it. -/
theorem IsFresh.loads {m : Memory} (h : m.IsFresh) {rows : List (Address × Word)}
    (hnodup : (rows.map Prod.fst).Nodup) : m.Loads {} rows (m.load rows) := by
  rw [h.eq_empty]
  exact (holdsExactly_empty m.capacity).load (fun _ _ => Nat.zero_le _) hnodup

/-- How loading ends in it if no word is empty: all words fit and are stored, or as many of the
    first ones are stored as fit. -/
theorem IsFresh.load_cases {m : Memory} (h : m.IsFresh) {p : Program} (hp : p.WellFormed) :
    ((∀ limit, m.capacity = some limit → p.size ≤ limit.toNat) ∧
      ∃ m', m.load p.words = (m', .ok ()) ∧ m'.HoldsExactly p) ∨
    ∃ limit addr w m', m.capacity = some limit ∧ p.words[limit.toNat]? = some (addr, w) ∧
      m.load p.words = (m', .error (.outOfMemory addr limit.toNat)) ∧
      m'.HoldsExactly ⟨p.words.take limit.toNat⟩ := by
  have hloads := h.loads hp.distinct
  generalize m.load p.words = result at hloads ⊢
  cases hloads with
  | @stored m' _ hfits hholds =>
    rw [Program.size_empty, Nat.zero_add] at hfits
    exact .inl ⟨hfits, m', rfl, hholds⟩
  | @refused m' front rear a w e hsplit hreason hholds =>
    -- The word is not refused for being empty, so the memory was full.
    have hword : w.isEmpty = false := hp.nonempty (a, w) (by simp [hsplit])
    rcases hreason with ⟨hempty, -⟩ | ⟨-, limit, hlimit, hlength, rfl⟩
    · rw [hword] at hempty
      cases hempty
    · rw [Program.size_empty, Nat.zero_add] at hlength ⊢
      refine .inr ⟨limit, a, w, m', hlimit, ?_, by rw [hlength], ?_⟩
      · simp [hsplit, hlength]
      · rw [hsplit, hlength, List.take_left]
        exact hholds

/-- Words that are all stored are stored in any other order as well, and it is the same memory that
    holds them then. -/
theorem IsFresh.load_perm {m loaded : Memory} (h : m.IsFresh) {p q : Program} (hp : p.WellFormed)
    (hperm : q.words.Perm p.words) (hload : m.load p.words = (loaded, .ok ())) :
    m.load q.words = (loaded, .ok ()) := by
  have hq : q.WellFormed :=
    ⟨(hperm.map Prod.fst).nodup_iff.mpr hp.distinct,
      fun row hrow => hp.nonempty row (hperm.mem_iff.mp hrow)⟩
  have hsize : q.size = p.size := hperm.length_eq
  rcases h.load_cases hp with ⟨hfits, m', hm', hholds⟩ | ⟨_, _, _, _, _, _, herror, _⟩
  · cases hm'.symm.trans hload
    rcases h.load_cases hq with ⟨-, n', hn', hholds'⟩ | ⟨limit, addr, w, -, hlimit, hword, -⟩
    · have hcapacity : n'.capacity = loaded.capacity :=
        calc n'.capacity = m.capacity := by rw [← m.capacity_load q.words, hn']
          _ = loaded.capacity := by rw [← m.capacity_load p.words, hload]
      rw [hn', hholds'.unique hholds hperm hcapacity]
    · -- The other order has as many words, so all of them fit as well.
      have hlt : limit.toNat < q.size := (List.getElem?_eq_some_iff.mp hword).1
      rw [hsize] at hlt
      exact absurd (hfits limit hlimit) (Nat.not_le.mpr hlt)
  · cases herror.symm.trans hload

end Memory

/-- **A program from a source or an image.** -/
def Program.IsProduced (p : Program) : Prop :=
  (∃ source width, Source.assemble source width = .ok p) ∨ ∃ text, Image.parse text = .ok p

theorem Program.IsProduced.wellFormed {p : Program} (h : p.IsProduced) : p.WellFormed := by
  rcases h with ⟨source, width, hassemble⟩ | ⟨text, hparse⟩
  · exact Source.wellFormed_of_assemble hassemble
  · exact Image.addLines_wellFormed Program.wellFormed_empty hparse

namespace Memory

/-- **Loading is faithful.** A program from a source or an image is loaded into a memory at its
    start if there is no capacity or its words fit. Then the memory holds exactly the program,
    and the order of the words makes no difference. Otherwise it holds exactly as many of the first
    words as fit, and the address of the next one is reported with the capacity. -/
theorem load_faithful {p : Program} {m : Memory} (hp : p.IsProduced) (hm : m.IsFresh) :
    ((m.load p.words).2 = .ok () ↔ ∀ limit, m.capacity = some limit → p.size ≤ limit.toNat) ∧
    ((m.load p.words).2 = .ok () →
      (m.load p.words).1.HoldsExactly p ∧ (m.load p.words).1.capacity = m.capacity ∧
        ∀ q : Program, q.words.Perm p.words → m.load q.words = m.load p.words) ∧
    ∀ e, (m.load p.words).2 = .error e → ∃ limit addr w,
      m.capacity = some limit ∧ p.words[limit.toNat]? = some (addr, w) ∧
        e = .outOfMemory addr limit.toNat ∧
        (m.load p.words).1.HoldsExactly ⟨p.words.take limit.toNat⟩ ∧
        (m.load p.words).1.capacity = m.capacity := by
  rcases hm.load_cases hp.wellFormed with
    ⟨hfits, loaded, hload, hholds⟩ | ⟨limit, addr, w, loaded, hlimit, hword, hload, hholds⟩
  · have hcapacity : loaded.capacity = m.capacity := by
      rw [← m.capacity_load p.words, hload]
    rw [hload]
    refine ⟨⟨fun _ => hfits, fun _ => rfl⟩, fun _ => ⟨hholds, hcapacity, fun q hq => ?_⟩, nofun⟩
    rw [hm.load_perm hp.wellFormed hq hload]
  · have hcapacity : loaded.capacity = m.capacity := by
      rw [← m.capacity_load p.words, hload]
    rw [hload]
    refine ⟨⟨nofun, fun hfits => ?_⟩, nofun, ?_⟩
    · have hlt := (List.getElem?_eq_some_iff.mp hword).1
      exact absurd (hfits limit hlimit) (Nat.not_le.mpr hlt)
    · rintro e ⟨⟩
      exact ⟨limit, addr, w, hlimit, hword, rfl, hholds, hcapacity⟩

/-- An image with words at the last slot, at slot 7 and at slot 0: no slot is left for sequential
    placement once it is loaded, and a memory that was cleared and has room for two words keeps the
    first two. -/
theorem load_faithful_image :
    let negative : Bits := ⟨true, [false, true], List.cons_ne_nil _ _⟩
    let zero : Bits := ⟨false, [false], List.cons_ne_nil _ _⟩
    let p : Program :=
      ⟨[(Address.last, ⟨[negative, zero]⟩), (⟨7⟩, ⟨[zero]⟩), (⟨0⟩, ⟨[zero, zero]⟩)]⟩
    let before : Memory := { empty (some 2) with cells := Cells.empty.insert ⟨7⟩ ⟨[zero]⟩ }
    p.IsProduced ∧ (empty none).IsFresh ∧ before.clear.IsFresh ∧
      ((empty none).load p.words).1.HoldsExactly p ∧
      ((empty none).load p.words).1.next = none ∧
      (before.clear.load p.words).2 = .error (.outOfMemory ⟨0⟩ 2) ∧
      (before.clear.load p.words).1.HoldsExactly ⟨p.words.take 2⟩ := by
  intro negative zero p before
  have hproduced : p.IsProduced := by
    rcases Image.parse_render p with ⟨-, hparse⟩ | ⟨hnot, -⟩
    · exact .inr ⟨_, hparse⟩
    · exact absurd ⟨by decide, by decide⟩ hnot
  have hempty : (empty none).IsFresh := .inl ⟨none, rfl⟩
  have hcleared : before.clear.IsFresh := .inr ⟨before, rfl⟩
  obtain ⟨hfits, hstored, -⟩ := load_faithful hproduced hempty
  obtain ⟨hholds, -, -⟩ := hstored (hfits.mpr nofun)
  obtain ⟨-, -, hrefused⟩ := load_faithful hproduced hcleared
  have herror : (before.clear.load p.words).2 = .error (.outOfMemory ⟨0⟩ 2) := rfl
  obtain ⟨limit, _, _, hlimit, -, -, hpart, -⟩ := hrefused _ herror
  cases hlimit
  exact ⟨hproduced, hempty, hcleared, hholds, hholds.exhausted.mpr (by decide), herror, hpart⟩

end Memory

end BitMachine
