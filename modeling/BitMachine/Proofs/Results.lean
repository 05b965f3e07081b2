import Mathlib.Data.List.Forall2

namespace BitMachine

/-!
# Results that may fail

Reasoning about computations in `Except`, one at a time and two side by side:

* `bind_eq_ok`, `bind_eq_error` — a sequence succeeds if both of its parts do, and fails where
  the first of them fails;
* `mapM_eq_ok`, `mapM_eq_error` — a computation for each element of a list succeeds if all of them
  do, and fails where the first of them fails;
* `exists_of_mapM_eq_some`, `mapM_map_eq_some` — the same in `Option`, where the error is lost;
* `outcome` — what the run of a computation on a state yields, and `outcome_bind`: the outcomes of
  sequences are sequences of outcomes;
* `Related` — two computations that both succeed with related values or both fail with related
  errors, and `Related.bind`, by which this passes through sequences.
-/

variable {ε ε' α α' β β' : Type}

@[simp] theorem ok_bind (a : α) (f : α → Except ε β) : (Except.ok a >>= f) = f a := rfl

@[simp] theorem error_bind (e : ε) (f : α → Except ε β) : (Except.error e >>= f) = .error e := rfl

/-- A sequence succeeds iff both of its parts do. -/
theorem bind_eq_ok {x : Except ε α} {f : α → Except ε β} {b : β} :
    (x >>= f) = .ok b ↔ ∃ a, x = .ok a ∧ f a = .ok b := by
  cases x with
  | error e => simp [bind, Except.bind]
  | ok a => simp [bind, Except.bind]

/-- A sequence fails iff its first part fails, or that succeeds and its second part fails. -/
theorem bind_eq_error {x : Except ε α} {f : α → Except ε β} {e : ε} :
    (x >>= f) = .error e ↔ x = .error e ∨ ∃ a, x = .ok a ∧ f a = .error e := by
  cases x with
  | error e' => simp [bind, Except.bind]
  | ok a => simp [bind, Except.bind]

@[simp] theorem mapError_ok (g : ε → ε') (a : α) :
    (Except.ok a : Except ε α).mapError g = .ok a := rfl

@[simp] theorem mapError_error (g : ε → ε') (e : ε) :
    (Except.error e : Except ε α).mapError g = .error (g e) := rfl

theorem mapError_eq_ok {x : Except ε α} {g : ε → ε'} {a : α} :
    x.mapError g = .ok a ↔ x = .ok a := by
  cases x <;> simp

theorem mapError_eq_error {x : Except ε α} {g : ε → ε'} {e' : ε'} :
    x.mapError g = .error e' ↔ ∃ e, x = .error e ∧ g e = e' := by
  cases x <;> simp

theorem map_eq_ok {x : Except ε α} {g : α → β} {b : β} :
    x.map g = .ok b ↔ ∃ a, x = .ok a ∧ g a = b := by
  cases x <;> simp [Except.map]

theorem map_eq_error {x : Except ε α} {g : α → β} {e : ε} :
    x.map g = .error e ↔ x = .error e := by
  cases x <;> simp [Except.map]

/-- A computation for each element of a list succeeds iff all of them do. -/
theorem mapM_eq_ok {f : α → Except ε β} {xs : List α} {ys : List β} :
    xs.mapM f = .ok ys ↔ List.Forall₂ (fun x y => f x = .ok y) xs ys := by
  induction xs generalizing ys with
  | nil =>
    rw [List.mapM_nil, List.forall₂_nil_left_iff]
    constructor
    · intro h
      cases h
      rfl
    · rintro rfl
      rfl
  | cons x xs ih =>
    rw [List.mapM_cons, List.forall₂_cons_left_iff, bind_eq_ok]
    constructor
    · rintro ⟨y, hy, hrest⟩
      obtain ⟨zs, hzs, hpure⟩ := bind_eq_ok.mp hrest
      cases hpure
      exact ⟨y, zs, hy, ih.mp hzs, rfl⟩
    · rintro ⟨y, zs, hy, hzs, rfl⟩
      exact ⟨y, hy, bind_eq_ok.mpr ⟨zs, ih.mpr hzs, rfl⟩⟩

/-- A computation for each element of a list fails at the first element for which it fails. -/
theorem mapM_eq_error {f : α → Except ε β} {xs : List α} {e : ε} :
    xs.mapM f = .error e ↔
      ∃ front x rear, xs = front ++ x :: rear ∧ (∀ y ∈ front, ∃ b, f y = .ok b) ∧
        f x = .error e := by
  induction xs with
  | nil =>
    rw [List.mapM_nil]
    constructor
    · intro h
      cases h
    · rintro ⟨front, x, rear, hsplit, -⟩
      simp at hsplit
  | cons x xs ih =>
    rw [List.mapM_cons, bind_eq_error]
    constructor
    · rintro (hx | ⟨b, hb, hrest⟩)
      · exact ⟨[], x, xs, rfl, by simp, hx⟩
      · rcases bind_eq_error.mp hrest with hxs | ⟨_, -, hpure⟩
        · obtain ⟨front, y, rear, rfl, hfront, hy⟩ := ih.mp hxs
          exact ⟨x :: front, y, rear, rfl, List.forall_mem_cons.mpr ⟨⟨b, hb⟩, hfront⟩, hy⟩
        · cases hpure
    · rintro ⟨front, y, rear, hsplit, hfront, hy⟩
      rcases List.cons_eq_append_iff.mp hsplit with ⟨rfl, heq⟩ | ⟨front', rfl, rfl⟩
      · cases heq
        exact .inl hy
      · obtain ⟨⟨b, hb⟩, hfront'⟩ := List.forall_mem_cons.mp hfront
        exact .inr ⟨b, hb, bind_eq_error.mpr (.inl (ih.mpr ⟨front', y, rear, rfl, hfront', hy⟩))⟩

/-- What a computation in `Option` yields for the elements of a list comes from these elements. -/
theorem exists_of_mapM_eq_some {f : α → Option β} {xs : List α} {ys : List β}
    (h : xs.mapM f = some ys) {y : β} (hy : y ∈ ys) : ∃ x ∈ xs, f x = some y := by
  induction xs generalizing ys with
  | nil =>
    cases h
    cases hy
  | cons x xs ih =>
    simp only [List.mapM_cons, Option.bind_eq_bind, Option.bind_eq_some_iff] at h
    obtain ⟨z, hz, zs, hzs, hpure⟩ := h
    cases hpure
    rcases List.mem_cons.mp hy with rfl | hmem
    · exact ⟨x, List.mem_cons_self, hz⟩
    · obtain ⟨w, hw, hread⟩ := ih hzs hmem
      exact ⟨w, List.mem_cons_of_mem x hw, hread⟩

/-- A computation in `Option` undoes a function on a list if it does so on the elements. -/
theorem mapM_map_eq_some {f : α → Option β} {g : β → α} (h : ∀ y, f (g y) = some y)
    (ys : List β) : (ys.map g).mapM f = some ys := by
  induction ys with
  | nil => rfl
  | cons y ys ih =>
    rw [List.map_cons, List.mapM_cons, h y, ih]
    rfl

/-- **What a run yields**: its value and the state after it, or its error. The state that a failing
    run leaves behind is not looked at. -/
def outcome {σ : Type} : EStateM.Result ε σ α → Except ε (α × σ)
  | .ok a s => .ok (a, s)
  | .error e _ => .error e

theorem outcome_bind {σ : Type} (x : EStateM ε σ α) (f : α → EStateM ε σ β) (s : σ) :
    outcome ((x >>= f).run s) = outcome (x.run s) >>= fun p => outcome ((f p.1).run p.2) := by
  rw [EStateM.run_bind]
  cases x.run s with
  | ok a s' => rfl
  | error e s' => rfl

/-- Two computations that agree: both succeed with related values, or both fail with related
    errors. -/
inductive Related (E : ε → ε' → Prop) (R : α → α' → Prop) : Except ε α → Except ε' α' → Prop
  /-- Both succeed. -/
  | ok {a : α} {a' : α'} (h : R a a') : Related E R (.ok a) (.ok a')
  /-- Both fail. -/
  | error {e : ε} {e' : ε'} (h : E e e') : Related E R (.error e) (.error e')

namespace Related

variable {E : ε → ε' → Prop} {R : α → α' → Prop} {S : β → β' → Prop}
variable {x : Except ε α} {x' : Except ε' α'}

/-- A computation agrees with itself. -/
theorem refl {E : ε → ε → Prop} [Std.Refl E] {R : α → α → Prop} [Std.Refl R] (x : Except ε α) :
    Related E R x x := by
  cases x with
  | ok a => exact .ok (Std.Refl.refl a)
  | error e => exact .error (Std.Refl.refl e)

/-- **Agreement of sequences.** Sequences agree when their first parts agree and their second
    parts agree on related values. -/
theorem bind {f : α → Except ε β} {f' : α' → Except ε' β'} (h : Related E R x x')
    (hf : ∀ a a', R a a' → Related E S (f a) (f' a')) : Related E S (x >>= f) (x' >>= f') := by
  cases h with
  | ok ha => exact hf _ _ ha
  | error he => exact .error he

/-- Agreement is kept when the values are turned into others. -/
theorem map {g : α → β} {g' : α' → β'} (h : Related E R x x')
    (hg : ∀ a a', R a a' → S (g a) (g' a')) : Related E S (x.map g) (x'.map g') := by
  cases h with
  | ok ha => exact .ok (hg _ _ ha)
  | error he => exact .error he

/-- Agreement is kept when the errors are put into other words. -/
theorem mapError {δ δ' : Type} {D : δ → δ' → Prop} {g : ε → δ} {g' : ε' → δ'}
    (h : Related E R x x') (hg : ∀ e e', E e e' → D (g e) (g' e')) :
    Related D R (x.mapError g) (x'.mapError g') := by
  cases h with
  | ok ha => exact .ok ha
  | error he => exact .error (hg _ _ he)

end Related

end BitMachine
