import BitMachine.Proofs.Encoding
import BitMachine.Proofs.FreshStart
import BitMachine.Session

namespace BitMachine.Session

/-!
# The history of a session

A source text is loaded as a whole or not at all, and a reset goes back to the last load:

* `Request`, `perform` and `performAll` — the operations, one by one and in a row;
* `lastLoaded` — the session right after the last load of a history that succeeded;
* `fresh` — the session into which a program has just been loaded, and `load_eq`: loading succeeds
  exactly for the source texts that can be assembled, because no assembled word is empty and the
  canonical memory has no capacity;
* `Canonical` — the invariant: the machine is a canonical one, and the program has no empty words,
  kept by every request (`Canonical.answers`) and by every history (`Canonical.performAll`);
* `load_atomic_reset_exact` — loading and resetting after every history.
-/

variable {s : Session}

/-! ### Requests -/

/-- What can be asked of a session. -/
inductive Request where
  /-- To load a source text. -/
  | load (source : String)
  /-- One cycle. -/
  | step
  /-- A number of cycles. -/
  | run (budget : UInt32)
  /-- To go back to the last load. -/
  | reset

/-- The session after a request. -/
def perform (s : Session) : Request → Session
  | .load source => (s.load source).1
  | .step => s.step.1
  | .run budget => (s.run budget).1
  | .reset => s.reset.1

/-- The session after requests in a row. -/
def performAll (s : Session) (requests : List Request) : Session :=
  requests.foldl perform s

/-- Whether a request is a load that succeeds. -/
def loads (s : Session) : Request → Bool
  | .load source => (s.load source).2.isOk
  | _ => false

/-- The session right after the last load of a history that succeeded, or the session at the start
    if none did. -/
def lastLoaded (s start : Session) : List Request → Session
  | [] => start
  | r :: rest =>
    (s.perform r).lastLoaded (if s.loads r then s.perform r else start) rest

/-! ### Loading -/

/-- The session into which a program has just been loaded. -/
def fresh (p : Program) : Session where
  machine := ((Machine.create {}).loadProgram p).1
  program := p

/-- **The invariant.** The machine is built like a canonical one, and every word of the program can
    be stored. -/
structure Canonical (s : Session) : Prop where
  /-- The machine. -/
  machine : s.machine.BuiltFrom {}
  /-- The program. -/
  program : ∀ row ∈ s.program.words, row.2.isEmpty = false

theorem canonical_fresh {p : Program} (h : ∀ row ∈ p.words, row.2.isEmpty = false) :
    (fresh p).Canonical :=
  ⟨(Machine.builtFrom_create {}).loadProgram p, h⟩

/-- **Loading the program again** does not depend on what the machine has gone through, and cannot
    fail. -/
theorem reload_eq (h : s.Canonical) : s.reload = (fresh s.program, .ok ()) := by
  have hok : ((Machine.create {}).loadProgram s.program).2 = .ok () :=
    Memory.load_eq_ok_of_unlimited rfl h.program
  unfold reload
  rw [h.machine.reset_eq]
  show (fresh s.program, ((Machine.create {}).loadProgram s.program).2.mapError SessionError.memory)
    = _
  rw [hok]
  rfl

/-- **What loading does** is decided by the source text. -/
theorem load_eq (h : s.Canonical) (source : String) :
    s.load source = match Source.assemble source ({} : Config).tokenWidth.toNat with
      | .error cause => (s, .error (.source cause))
      | .ok p => (fresh p, .ok p.size) := by
  unfold load
  rw [h.machine.config]
  cases hasm : Source.assemble source ({} : Config).tokenWidth.toNat with
  | error cause => rfl
  | ok p =>
    have hwith : ({ s with program := p } : Session).Canonical :=
      ⟨h.machine, Source.isEmpty_of_mem_assemble hasm⟩
    simp only [reload_eq hwith]
    rfl

/-! ### Histories -/

/-- **A step of a session is a step of its machine**, and the program stays. -/
theorem step_fst (s : Session) : s.step.1 = { s with machine := s.machine.step.1 } := by
  unfold step
  by_cases hrun : s.machine.isRunning = true
  · rw [if_neg (by simp [hrun])]
    rcases s.machine.step with ⟨m, f | _ | i⟩ <;> rfl
  · -- The step is refused, and the machine it leaves is the same.
    have hstop := Machine.not_goesOn_of_not_isRunning hrun
    rw [if_pos (by simp [hrun]), Machine.step_of_not_goesOn hstop]

/-- What a request does to a session: it is a load that succeeds, or leaves the program as it is. -/
inductive Answers (s : Session) (r : Request) : Prop
  /-- A program has been loaded. -/
  | loads {p : Program} (hloads : s.loads r = true) (hperform : s.perform r = fresh p)
      (hfresh : (fresh p).Canonical) : Answers s r
  /-- The program is the same. -/
  | keeps (hloads : s.loads r = false) (hprogram : (s.perform r).program = s.program)
      (hcanonical : (s.perform r).Canonical) : Answers s r

/-- **Every request keeps the invariant.** -/
theorem Canonical.answers (h : s.Canonical) (r : Request) : s.Answers r := by
  cases r with
  | load source =>
    have hload := load_eq h source
    cases hasm : Source.assemble source ({} : Config).tokenWidth.toNat with
    | error cause =>
      rw [hasm] at hload
      have hperform : s.perform (.load source) = s := congrArg Prod.fst hload
      apply Answers.keeps
      · show (s.load source).2.isOk = false
        rw [hload]
        rfl
      · rw [hperform]
      · rw [hperform]
        exact h
    | ok p =>
      rw [hasm] at hload
      have hperform : s.perform (.load source) = fresh p := congrArg Prod.fst hload
      refine .loads ?_ hperform (canonical_fresh (Source.isEmpty_of_mem_assemble hasm))
      show (s.load source).2.isOk = true
      rw [hload]
      rfl
  | step =>
    have hperform : s.perform .step = { s with machine := s.machine.step.1 } := s.step_fst
    apply Answers.keeps rfl
    · rw [hperform]
    · rw [hperform]
      exact ⟨h.machine.of_keeps s.machine.keeps_step, h.program⟩
  | run budget =>
    refine .keeps rfl rfl ⟨?_, h.program⟩
    show (s.machine.runLimited budget.toUInt64).1.BuiltFrom {}
    rw [Machine.runLimited_eq_after]
    exact h.machine.of_keeps (s.machine.keeps_after _)
  | reset =>
    have hperform : s.perform .reset = fresh s.program := congrArg Prod.fst (reload_eq h)
    apply Answers.keeps rfl
    · rw [hperform]
      rfl
    · rw [hperform]
      exact canonical_fresh h.program

theorem Canonical.performAll (h : s.Canonical) (requests : List Request) :
    (s.performAll requests).Canonical := by
  induction requests generalizing s with
  | nil => exact h
  | cons r rest ih =>
    apply ih
    show (s.perform r).Canonical
    cases h.answers r with
    | loads _ hperform hfresh =>
      rw [hperform]
      exact hfresh
    | keeps _ _ hcanonical => exact hcanonical

/-- **The last load** is the one of the program that the session has now. -/
theorem Canonical.lastLoaded_eq (h : s.Canonical) (requests : List Request) :
    s.lastLoaded (fresh s.program) requests = fresh (s.performAll requests).program := by
  induction requests generalizing s with
  | nil => rfl
  | cons r rest ih =>
    show (s.perform r).lastLoaded (if s.loads r then s.perform r else fresh s.program) rest
      = fresh ((s.perform r).performAll rest).program
    cases h.answers r with
    | loads hloads hperform hfresh =>
      rw [if_pos hloads, hperform]
      exact ih hfresh
    | keeps hloads hprogram hcanonical =>
      rw [if_neg (by simp [hloads]), ← hprogram]
      exact ih hcanonical

/-- A new session is one into which the program without words has been loaded. -/
theorem fresh_empty : fresh {} = {} := rfl

theorem canonical_new : Canonical {} := by
  refine ⟨Machine.builtFrom_create {}, ?_⟩
  intro row hrow
  cases hrow

/-- **Loading is atomic, and a reset goes back to the last load.** After every sequence of requests
    to a new session

    * a source text that is refused leaves the machine and the program exactly as they were;
    * a source text that is accepted yields what it yields in a new session, machine, program and
      number of words;
    * a reset succeeds, and restores the session right after the last load that succeeded, or the
      new session if there was none. -/
theorem load_atomic_reset_exact (requests : List Request) :
    let s := ({} : Session).performAll requests
    (∀ source e, (s.load source).2 = .error e → (s.load source).1 = s) ∧
      (∀ source count, (s.load source).2 = .ok count →
        s.load source = ({} : Session).load source) ∧
      s.reset = (({} : Session).lastLoaded {} requests, .ok ()) := by
  intro s
  have hs : s.Canonical := canonical_new.performAll requests
  refine ⟨?_, ?_, ?_⟩
  · intro source e he
    rw [load_eq hs source] at he ⊢
    cases hasm : Source.assemble source ({} : Config).tokenWidth.toNat with
    | error cause => rfl
    | ok p =>
      rw [hasm] at he
      cases he
  · intro source count hcount
    rw [load_eq hs source] at hcount
    rw [load_eq hs source, load_eq canonical_new source]
    cases hasm : Source.assemble source ({} : Config).tokenWidth.toNat with
    | error cause =>
      rw [hasm] at hcount
      cases hcount
    | ok p => rfl
  · have hlast := canonical_new.lastLoaded_eq requests
    rw [fresh_empty] at hlast
    rw [hlast]
    exact reload_eq hs

/-- After a load, a step and a load that was refused, a reset goes back to the first of them. -/
theorem load_atomic_reset_exact_refused :
    let s := ({} : Session).performAll [.load "OUT reg0\nEXIT $3", .step, .load "NOP"]
    s.machine.serial.values = [none] ∧ (s.load "NOP").1 = s ∧
      s.load "EXIT $0" = ({} : Session).load "EXIT $0" ∧
      s.reset = (({} : Session).perform (.load "OUT reg0\nEXIT $3"), .ok ()) := by
  intro s
  have hrefused : (s.load "NOP").2 = .error (.source ⟨1, .unknownMnemonic "NOP"⟩) := by
    decide +kernel
  have haccepted : (s.load "EXIT $0").2 = .ok 1 := by decide +kernel
  obtain ⟨herror, hok, hreset⟩ := load_atomic_reset_exact
    [.load "OUT reg0\nEXIT $3", .step, .load "NOP"]
  refine ⟨by decide +kernel, herror _ _ hrefused, hok _ _ haccepted, ?_⟩
  exact hreset

end BitMachine.Session
