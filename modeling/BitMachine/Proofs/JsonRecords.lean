import BitMachine.Json.Model
import BitMachine.Proofs.JsonTexts
import BitMachine.Proofs.Literals
import BitMachine.Proofs.Loading

namespace BitMachine.Json

/-!
# Records in JSON are read back

What is written as a number, a record, a tagged value or an optional field is read as it was
written, and what is read of a value is a part of the value:

* `uint64?_ofUInt64`, `record?_ofMembers`, `settings?_ofMembers`, `tagged?_ofMembers`,
  `optional?_ofOption` — the values that the readers get back;
* `Within` — the values that a value contains, and `within_of_record?`, `within_of_tagged?`: fields
  and contents are among them;
* `written_ofMembers` and its like — the values are written ones.
-/

/-! ### Numbers -/

/-- Digits are read as the number that they were made from. -/
theorem plainNat?_toDigits (n : Nat) : plainNat? (Nat.toDigits 10 n) = some n := by
  have hdigits : (Nat.toDigits 10 n).all Char.isDigit = true := by
    rw [List.all_eq_true]
    exact fun _ => isDigit_of_mem_toDigits
  have hshort : ((Nat.toDigits 10 n).head? != some '0' || (Nat.toDigits 10 n).length == 1)
      = true := by
    rcases toDigits_cases n with hzero | ⟨d, ds, hds, -, hne⟩
    · rw [hzero]
      rfl
    · simp [hds, hne]
  have hvalue : Nat.ofDigitChars 10 (Nat.toDigits 10 n) 0 = n :=
    Nat.ofDigitChars_toDigits (by decide) (by decide)
  unfold plainNat?
  rw [hdigits, hshort, hvalue]
  simp

theorem uint64?_ofUInt64 (n : UInt64) : (ofUInt64 n).uint64? = some n := by
  show (plainNat? (Nat.toDigits 10 n.toNat)).bind Text.narrow? = some n
  rw [plainNat?_toDigits]
  exact Text.narrow?_eq_some_iff.mpr rfl

theorem written_ofUInt64 (n : UInt64) : (ofUInt64 n).Written :=
  .number n.toNat

/-- Digits are no characters that a string writes as escapes. -/
theorem escape_of_isDigit {cs : List Char} (h : ∀ c ∈ cs, c.isDigit = true) : escape cs = cs := by
  have hchar : ∀ c ∈ cs, escapeChar c = [c] := by
    intro c hc
    have hctrl : ¬ c.toNat < 0x20 := by
      have hlow : 48 ≤ c.toNat := (Char.isDigit_iff_toNat.mp (h c hc)).1
      omega
    have hne : ∀ d : Char, d.isDigit = false → c ≠ d := fun _ => ne_of_isDigit (h c hc)
    unfold escapeChar
    rw [if_neg (hne _ (by decide)), if_neg (hne _ (by decide)), if_neg (hne _ (by decide)),
      if_neg (hne _ (by decide)), if_neg (hne _ (by decide)), if_neg (hne _ (by decide)),
      if_neg (hne _ (by decide)), if_neg hctrl]
  calc escape cs = cs.flatMap fun c => [c] := List.flatMap_congr hchar
    _ = cs := List.flatMap_singleton' cs

/-! ### Records -/

section Members

variable {members : List (String × Json)}

theorem distinctKeys_of_nodup (h : (members.map Prod.fst).Nodup) :
    distinctKeys members = true := by
  induction members with
  | nil => rfl
  | cons member rest ih =>
    obtain ⟨key, value⟩ := member
    obtain ⟨hnew, hrest⟩ := List.nodup_cons.mp h
    have hnone : rest.lookup key = none := by
      rw [List.lookup_eq_none_iff]
      intro other hother
      rw [bne_iff_ne]
      rintro rfl
      exact hnew (List.mem_map.mpr ⟨other, hother, rfl⟩)
    rw [distinctKeys, hnone, ih hrest]
    rfl

/-- The values of an object are picked in the order of its keys. -/
theorem pickFields?_of_nodup (h : (members.map Prod.fst).Nodup) :
    pickFields? (members.map Prod.fst) members =
      some (members.map fun member => some member.2) := by
  unfold pickFields?
  rw [if_pos (distinctKeys_of_nodup h), List.map_map]
  exact congrArg some (List.map_congr_left fun member hmem => lookup_of_mem h hmem)

/-- All members are fields. -/
theorem contains_of_mem {member : String × Json} (h : member ∈ members) :
    (members.map Prod.fst).contains member.1 = true :=
  List.contains_iff_mem.mpr (List.mem_map_of_mem h)

/-- **The fields of a record** are the values that it was made of. -/
theorem record?_ofMembers (h : (members.map Prod.fst).Nodup) :
    (ofMembers members).record? (members.map Prod.fst) =
      some (members.map fun member => some member.2) := by
  have hall : (members.filter fun member => (members.map Prod.fst).contains member.1) = members :=
    List.filter_eq_self.mpr fun _ => contains_of_mem
  show ((ofMembers members).members? >>= fun ms => pickFields? (members.map Prod.fst)
    (ms.filter fun member => (members.map Prod.fst).contains member.1)) = _
  rw [members?_ofMembers, Option.bind_eq_bind, Option.bind_some, hall, pickFields?_of_nodup h]

/-- **The fields of a record of settings** are the values that it was made of. -/
theorem settings?_ofMembers (h : (members.map Prod.fst).Nodup) :
    (ofMembers members).settings? (members.map Prod.fst) =
      some (members.map fun member => some member.2) := by
  have hall : (members.all fun member => (members.map Prod.fst).contains member.1) = true :=
    List.all_eq_true.mpr fun _ => contains_of_mem
  show ((ofMembers members).members? >>= fun ms =>
    if ms.all fun member => (members.map Prod.fst).contains member.1 then
      pickFields? (members.map Prod.fst) ms else none) = _
  rw [members?_ofMembers, Option.bind_eq_bind, Option.bind_some, if_pos hall,
    pickFields?_of_nodup h]

theorem written_ofMembers (h : ∀ member ∈ members, member.2.Written) :
    (ofMembers members).Written := by
  refine .object ?_ ?_
  · intro member hmem
    obtain ⟨⟨key, value⟩, -, rfl⟩ := List.mem_map.mp hmem
    exact ⟨key.toList, rfl⟩
  · intro member hmem
    obtain ⟨other, hother, rfl⟩ := List.mem_map.mp hmem
    exact h other hother

end Members

/-- **The content of a tagged value.** -/
theorem tagged?_ofMembers (name : String) (content : Json) :
    (ofMembers [(name, content)]).tagged? = some (name, content) := by
  show (unescape? (escape name.toList)).map (fun key => (String.ofList key, content)) = _
  rw [unescape?_escape, Option.map_some, String.ofList_toList]

/-! ### Optional fields -/

section Options

variable {α : Type} {write : α → Json} {read : Json → Option α}

theorem optional?_ofOption (hnull : ∀ x, write x ≠ null) (h : ∀ x, read (write x) = some x)
    (x : Option α) : optional? read (some (ofOption write x)) = some x := by
  cases x with
  | none => rfl
  | some x =>
    show optional? read (some (write x)) = _
    unfold optional?
    split
    next heq => cases heq
    next heq => exact absurd (Option.some.inj heq) (hnull x)
    next heq =>
      cases heq
      rw [h x]
      rfl

theorem written_ofOption (h : ∀ x, (write x).Written) (x : Option α) :
    (ofOption write x).Written := by
  cases x with
  | none => exact .null
  | some x => exact h x

/-- What an optional field holds is read from it. -/
theorem read_of_optional? {field : Option Json} {x : α}
    (h : optional? read field = some (some x)) : ∃ j, field = some j ∧ read j = some x := by
  unfold optional? at h
  split at h
  next => cases h
  next => cases h
  next j _ =>
    obtain ⟨y, hy, hsome⟩ := Option.map_eq_some_iff.mp h
    cases hsome
    exact ⟨j, rfl, hy⟩

end Options

/-! ### Parts of values -/

/-- **The values that a value contains**: itself, and those that its items and members contain. -/
inductive Within (inner : Json) : Json → Prop
  /-- The value itself. -/
  | self : Within inner inner
  /-- What an item of an array contains. -/
  | item {items : List Json} {item : Json} (hmem : item ∈ items) (h : Within inner item) :
      Within inner (.array items)
  /-- What a member of an object contains. -/
  | member {members : List (List Char × Json)} {key : List Char} {value : Json}
      (hmem : (key, value) ∈ members) (h : Within inner value) : Within inner (.object members)

section Parts

variable {inner middle j : Json}

theorem Within.trans (h : inner.Within middle) (hmiddle : middle.Within j) : inner.Within j := by
  induction hmiddle with
  | self => exact h
  | item hmem _ ih => exact .item hmem ih
  | member hmem _ ih => exact .member hmem ih

theorem within_of_items? {items : List Json} (h : j.items? = some items) (hmem : inner ∈ items) :
    inner.Within j := by
  cases j with
  | array others =>
    cases h
    exact .item hmem .self
  | _ => cases h

theorem within_of_members? {members : List (String × Json)} (h : j.members? = some members)
    {name : String} (hmem : (name, inner) ∈ members) : inner.Within j := by
  cases j with
  | object raw =>
    obtain ⟨⟨key, value⟩, hraw, hread⟩ := exists_of_mapM_eq_some h hmem
    obtain ⟨cs, -, heq⟩ := Option.map_eq_some_iff.mp hread
    cases heq
    exact .member hraw .self
  | _ => cases h

/-- **The fields of a record** are parts of the value. -/
theorem within_of_record? {names : List String} {fields : List (Option Json)}
    (h : j.record? names = some fields) (hmem : some inner ∈ fields) : inner.Within j := by
  unfold record? at h
  split at h
  next items =>
    split at h
    next =>
      cases h
      exact .item (by simpa using hmem) .self
    next => cases h
  next =>
    obtain ⟨members, hmembers, hpick⟩ := Option.bind_eq_some_iff.mp h
    unfold pickFields? at hpick
    split at hpick
    next =>
      cases hpick
      obtain ⟨name, -, hlookup⟩ := List.mem_map.mp hmem
      exact within_of_members? hmembers (List.mem_of_mem_filter (mem_of_lookup hlookup))
    next => cases hpick

/-- **The content of a tagged value** is a part of it. -/
theorem within_of_tagged? {name : String} (h : j.tagged? = some (name, inner)) :
    inner.Within j := by
  unfold tagged? at h
  split at h
  next key value =>
    obtain ⟨cs, -, heq⟩ := Option.map_eq_some_iff.mp h
    cases heq
    exact .member List.mem_cons_self .self
  next => cases h

end Parts

end BitMachine.Json
