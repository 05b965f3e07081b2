import BitMachine.Proofs.Budgets
import BitMachine.Proofs.DebuggerOperations
import BitMachine.Proofs.FreshStart
import BitMachine.Proofs.ImageReading
import BitMachine.Session

namespace BitMachine

/-!
# The drivers of a machine

The loop with a budget, the run command, the debugger and the session each have a loop of their
own. Started on a freshly loaded machine they all take the same steps:

* `runIn_runCycles` — the loop of the run command prints what the steps emit, and hands the
  machine after the steps to its end;
* `Debugger.machine_ticks` — rounds of continuous execution without breakpoints are steps;
* `Session.machine_run` — a session that loads a source text and runs it;
* `runIn_runScript` — what the run command prints, and its exit code;
* `drivers_agree` — all of them side by side.
-/

/-! ### A freshly loaded machine -/

namespace Machine

/-- What loading leaves as it is in a fresh machine. -/
structure IsFresh (m : Machine) : Prop where
  /-- The machine goes on. -/
  status : m.status = .running
  /-- No cycle has been counted. -/
  cycle : m.cycle = 0
  /-- Nothing has been emitted. -/
  serial : m.serial = {}

theorem isFresh_of_load {config : Config} {p : Program} {m : Machine}
    {result : Except MemoryError Unit} (h : (create config).loadProgram p = (m, result)) :
    m.IsFresh := by
  cases h
  exact ⟨rfl, rfl, rfl⟩

variable {m : Machine}

theorem IsFresh.room_eq (h : m.IsFresh) (limit : UInt64) : m.room limit = limit.toNat := by
  rw [room, h.cycle]
  rfl

theorem IsFresh.fault?_eq (h : m.IsFresh) : m.fault? = none := by
  rw [fault?, h.status]

/-- A budget of a fresh machine is a limit of its cycle count. -/
theorem IsFresh.allowed_eq (h : m.IsFresh) (budget : UInt64) :
    m.allowed budget = budget.toNat := by
  refine allowed_of_lt ?_
  rw [h.cycle, UInt64.toNat_zero, Nat.zero_add]
  exact budget.toNat_lt

/-- A new start of a fresh machine changes nothing. -/
theorem reset_create (config : Config) : (create config).reset.clearSerial = create config :=
  (builtFrom_create config).reset_eq

end Machine

/-! ### The run command -/

/-- The text of lines, each with its end. -/
def linesText (lines : List String) : String :=
  String.join (lines.map (· ++ "\n"))

theorem linesText_append (as bs : List String) :
    linesText (as ++ bs) = linesText as ++ linesText bs := by
  simp [linesText]

namespace Outcome

/-- An outcome with texts written before it. -/
def after (output errors : String) (o : Outcome) : Outcome :=
  { o with output := output ++ o.output, errors := errors ++ o.errors }

@[simp] theorem after_empty (o : Outcome) : o.after "" "" = o := by
  simp [after]

@[simp] theorem after_after (a b c d : String) (o : Outcome) :
    (o.after c d).after a b = o.after (a ++ c) (b ++ d) := by
  simp [after, String.append_assoc]

end Outcome

namespace Script

theorem runIn_reportLine (d : Directory) (line : String) (next : Script) :
    (reportLine line next).runIn d = (next.runIn d).after "" (line ++ "\n") := by
  simp [reportLine, runIn, Outcome.after]

theorem runIn_printLine (d : Directory) (line : String) (next : Script) :
    (printLine line next).runIn d = (next.runIn d).after (line ++ "\n") "" := by
  simp [printLine, runIn, Outcome.after]

theorem runIn_printLines (d : Directory) (lines : List String) (next : Script) :
    (printLines lines next).runIn d = (next.runIn d).after (linesText lines) "" := by
  induction lines with
  | nil => simp [printLines, linesText]
  | cons line rest ih =>
    show (printLine line (printLines rest next)).runIn d = _
    rw [runIn_printLine, ih, Outcome.after_after]
    simp [linesText]

end Script

/-- The lines that a machine has emitted since another one. -/
def Machine.linesSince (m m' : Machine) : List String :=
  m'.serial.lines.drop m.serial.values.length

theorem Machine.linesSince_self (m : Machine) : m.linesSince m = [] := by
  unfold linesSince SerialLog.lines
  exact List.drop_eq_nil_of_le (by rw [List.length_map])

/-- What is emitted since a machine is emitted up to some moment and after it. -/
theorem Machine.linesSince_trans {a b c : Machine} (hab : a.serial.values <+: b.serial.values)
    (hbc : b.serial.values <+: c.serial.values) :
    a.linesSince c = a.linesSince b ++ b.linesSince c := by
  obtain ⟨xs, hxs⟩ := hab
  obtain ⟨ys, hys⟩ := hbc
  have hlen (vs : List (Option Int)) : vs.length = (vs.map emissionText).length :=
    List.length_map _ |>.symm
  unfold linesSince SerialLog.lines
  rw [← hys, ← hxs, hlen a.serial.values, hlen (a.serial.values ++ xs)]
  simp only [List.map_append]
  rw [List.drop_left, List.drop_left, List.append_assoc, List.drop_left]

section RunCycles

variable {trace : Bool} {limit : UInt64} {finish : Machine → Option Fault → Script}
variable {m m' : Machine}

theorem runCycles_of_stop (h : ¬ (m.isRunning ∧ m.cycle < limit)) :
    runCycles trace limit finish m = finish m none := by
  rw [runCycles, dif_neg h]

theorem runCycles_of_step_error {f : Fault} (hgo : m.isRunning ∧ m.cycle < limit)
    (hstep : m.step = (m', .error f)) :
    runCycles trace limit finish m = finish m' (some f) := by
  rw [runCycles, dif_pos hgo]
  split
  next hs =>
    cases hstep.symm.trans hs
    rfl
  next hs =>
    cases hstep.symm.trans hs

theorem runCycles_of_step_ok {executed : Option Instruction}
    (hgo : m.isRunning ∧ m.cycle < limit) (hstep : m.step = (m', .ok executed)) :
    runCycles trace limit finish m =
      .printLines (m.linesSince m')
        (if trace then
          .reportLine (traceLine m.nextAddress executed m'.registers)
            (runCycles trace limit finish m')
        else runCycles trace limit finish m') := by
  rw [runCycles, dif_pos hgo]
  split
  next hs =>
    cases hstep.symm.trans hs
  next hs =>
    cases hstep.symm.trans hs
    rfl

end RunCycles

/-- **The loop of the run command** prints what the steps to its limit emit, line by line, and
    hands the machine after these steps to its end, with the fault that stopped it. What it
    reports on the way is the trace. -/
theorem runIn_runCycles (trace : Bool) (limit : UInt64) (m : Machine) (hfault : m.fault? = none) :
    ∃ errors, ∀ (finish : Machine → Option Fault → Script) (d : Directory),
      (runCycles trace limit finish m).runIn d
        = ((finish (m.after (m.room limit)) (m.after (m.room limit)).fault?).runIn d).after
            (linesText (m.linesSince (m.after (m.room limit)))) errors := by
  induction m using Machine.runTo.induct limit with
  | case1 m hgo m' f hstep =>
    -- The failing cycle emits nothing, and its fault is the one of the machine.
    have hm' := Machine.step_error_eq (Machine.goesOn_of_isRunning hgo) hstep
    have hf : m'.fault? = some f := by
      rw [hm']
      rfl
    have hlines : m.linesSince m' = [] := by
      rw [hm']
      exact m.linesSince_self
    obtain ⟨n, hn⟩ := Machine.exists_room_eq_succ hgo.2
    refine ⟨"", fun finish d => ?_⟩
    rw [runCycles_of_step_error hgo hstep, hn, Machine.after_succ_of_step_error hstep, hf, hlines]
    exact (Outcome.after_empty _).symm
  | case2 m hgo m' executed hstep ih =>
    obtain ⟨errors, herrors⟩ := ih (Machine.fault?_of_step_ok hstep)
    have hafter : m.after (m.room limit) = m'.after (m'.room limit) := by
      rw [Machine.room_of_step_ok hgo.2 hstep, Machine.after_succ, hstep]
    have hlines : m.linesSince (m'.after (m'.room limit))
        = m.linesSince m' ++ m'.linesSince (m'.after (m'.room limit)) := by
      have hkeeps := m.keeps_step
      rw [hstep] at hkeeps
      exact Machine.linesSince_trans hkeeps.serial (m'.keeps_after _).serial
    let line := traceLine m.nextAddress executed m'.registers ++ "\n"
    refine ⟨(if trace then line else "") ++ errors, fun finish d => ?_⟩
    rw [runCycles_of_step_ok hgo hstep, Script.runIn_printLines, hafter, hlines, linesText_append]
    -- The trace goes to the standard error stream and changes nothing else.
    cases trace with
    | false =>
      rw [if_neg Bool.false_ne_true, if_neg Bool.false_ne_true, herrors, Outcome.after_after]
    | true =>
      rw [if_pos rfl, if_pos rfl, Script.runIn_reportLine, herrors, Outcome.after_after,
        Outcome.after_after, String.append_empty, String.empty_append]
  | case3 m hstop =>
    refine ⟨"", fun finish d => ?_⟩
    rw [runCycles_of_stop hstop, Machine.after_room_of_stop hstop, hfault,
      Machine.linesSince_self]
    exact (Outcome.after_empty _).symm

/-- The same for a fresh machine, whose emitted values are all printed. -/
theorem runIn_runCycles_of_isFresh (trace : Bool) (n : UInt64) {m : Machine} (h : m.IsFresh) :
    ∃ errors, ∀ (finish : Machine → Option Fault → Script) (d : Directory),
      (runCycles trace n finish m).runIn d
        = ((finish (m.after n.toNat) (m.after n.toNat).fault?).runIn d).after
            (linesText (m.after n.toNat).serial.lines) errors := by
  have hlines (m' : Machine) : m.linesSince m' = m'.serial.lines := by
    rw [Machine.linesSince, h.serial]
    rfl
  have hcycles := runIn_runCycles trace n m h.fault?_eq
  rwa [h.room_eq, hlines] at hcycles

/-- The exit code of the run command: that of the EXIT, as the system passes it on, or 1. -/
def Machine.exitStatus (m : Machine) : Nat :=
  match m.status with
  | .halted code => code % Script.exitCodes
  | _ => 1

/-- The end of a run writes nothing to the standard output. -/
theorem runIn_runEnd (maxCycles : UInt64) (m : Machine) (d : Directory) :
    ((runEnd maxCycles m m.fault?).runIn d).output = "" ∧
      ((runEnd maxCycles m m.fault?).runIn d).code = m.exitStatus := by
  unfold runEnd Machine.fault? Machine.exitCode? Machine.exitStatus
  cases m.status with
  | running => exact ⟨rfl, rfl⟩
  | halted code => exact ⟨rfl, rfl⟩
  | faulted f => exact ⟨rfl, rfl⟩

/-- The bytes of a text are read as that text. -/
theorem textOf_encodeUtf8 (source : String) :
    textOf (.ok (Text.encodeUtf8 source.toList)) = .ok source := by
  rw [textOf, ok_bind, Text.decodeUtf8?_encodeUtf8]
  simp only [String.ofList_toList]
  rfl

/-- A file holds a program: as a source text, if its extension says so, or else as an image. -/
def Directory.Holds (d : Directory) (path : String) (config : Config) (p : Program) : Prop :=
  if Path.extension? path = some sourceExtension then
    ∃ source, textOf (d.read path) = .ok source ∧
      Source.assemble source config.tokenWidth.toNat = .ok p
  else ((d.read path).mapError ImageError.file).bind Image.ofBytes = .ok p

/-- A command goes on with the program that its file holds. -/
theorem runIn_withProgram {d : Directory} {path : String} {config : Config} {p : Program}
    (h : d.Holds path config p) :
    ∃ errors, ∀ next : Program → Script,
      (withProgram path config next).runIn d
        = ((withProgram.nonEmpty next p).runIn d).after "" errors := by
  unfold Directory.Holds at h
  by_cases hext : Path.extension? path = some sourceExtension
  · rw [if_pos hext] at h
    obtain ⟨source, htext, hasm⟩ := h
    refine ⟨s!"📝 Assembled {p.size} words" ++ "\n", fun next => ?_⟩
    rw [withProgram, if_pos hext, withSource, Script.runIn, htext]
    simp only [hasm]
    exact Script.runIn_reportLine d _ _
  · rw [if_neg hext] at h
    have hload : d.loadImage path = .ok p := h
    refine ⟨s!"📂 Loaded {p.size} words" ++ "\n", fun next => ?_⟩
    rw [withProgram, if_neg hext, Directory.runIn_withImage, hload]
    exact Script.runIn_reportLine d _ _

/-- A program without words stops its machine in the first cycle, and nothing is emitted. -/
theorem Machine.after_of_isEmpty {config : Config} {p : Program} {m : Machine}
    (hload : (create config).loadProgram p = (m, .ok ())) (hempty : p.isEmpty = true) (n : Nat) :
    (m.after n).serial = {} ∧ (m.after n).exitStatus = 1 := by
  have hwords : p.words = [] := List.isEmpty_iff.mp hempty
  rw [loadProgram, hwords] at hload
  cases hload
  cases n with
  | zero => exact ⟨rfl, rfl⟩
  | succ n =>
    have hgo : (create config).GoesOn := ⟨rfl, by show (0 : UInt64) ≠ _; decide⟩
    rcases step_cases hgo with ⟨f, -, hstep⟩ | ⟨m', executed, hcycle, -⟩
    · have hafter : (create config).after (n + 1) = _ := after_succ_of_step_error hstep n
      exact ⟨congrArg Machine.serial hafter, congrArg exitStatus hafter⟩
    · cases hcycle with
      | data hslot | executed hslot => cases hslot

/-- **The run command** prints the emitted values, one on each line, and passes the code of the
    EXIT on, or 1 if there was none. -/
theorem runIn_runScript {d : Directory} {path : String} {config : Config} {p : Program}
    {m : Machine} (hload : (Machine.create config).loadProgram p = (m, .ok ()))
    (h : d.Holds path config p) (maxCycles : UInt64) (trace : Bool) :
    ((runScript path maxCycles trace config).runIn d).output
        = linesText (m.after maxCycles.toNat).serial.lines ∧
      ((runScript path maxCycles trace config).runIn d).code
        = (m.after maxCycles.toNat).exitStatus := by
  obtain ⟨errors, hprogram⟩ := runIn_withProgram h
  have hfresh := Machine.isFresh_of_load hload
  rw [runScript, Script.runIn_reportLine, hprogram, withProgram.nonEmpty]
  by_cases hempty : p.isEmpty = true
  · -- The command refuses to run nothing, which a run would not have shown either.
    obtain ⟨hserial, hcode⟩ := Machine.after_of_isEmpty hload hempty maxCycles.toNat
    rw [if_pos hempty, hserial, hcode]
    exact ⟨rfl, rfl⟩
  · obtain ⟨errors', hcycles⟩ := runIn_runCycles_of_isFresh trace maxCycles hfresh
    obtain ⟨houtput, hcode⟩ := runIn_runEnd maxCycles (m.after maxCycles.toNat) d
    rw [if_neg hempty, hload]
    simp only [hcycles, Outcome.after, houtput, hcode, String.empty_append, String.append_empty]
    exact ⟨trivial, trivial⟩

/-! ### The debugger -/

namespace Debugger

/-- A debugger without breakpoints that goes on as long as its machine does. -/
structure RunsFreely (d : Debugger) : Prop where
  /-- No breakpoint stops it. -/
  breakpoints : d.breakpoints = []
  /-- It goes on, or its machine has stopped. -/
  goesOn : d.running = true ∨ ¬ d.machine.GoesOn

/-- **A round of continuous execution** is one step of the machine. A round that only notices that
    the machine has stopped is a step too: one that is refused. -/
theorem machine_tick {d : Debugger} (h : d.RunsFreely) :
    d.tick.machine = d.machine.step.1 ∧ d.tick.RunsFreely := by
  obtain ⟨hbreak, hgoes⟩ := h
  have hstill : d.tick.breakpoints = [] := d.sameChoices_tick.breakpoints.trans hbreak
  rcases d.tick_cases with ⟨hidle, htick⟩ | ⟨hpauses, status, htick⟩ | ⟨hrunning, -, htick⟩
  · have hstop : ¬ d.machine.GoesOn := hgoes.resolve_left (by simp [hidle])
    rw [htick, Machine.step_of_not_goesOn hstop]
    exact ⟨rfl, hbreak, .inr hstop⟩
  · -- The round only notices that the machine has stopped.
    have hstop : ¬ d.machine.GoesOn :=
      Machine.not_goesOn_of_not_isRunning (hpauses.resolve_right (by simp [hbreak]))
    rw [htick, Machine.step_of_not_goesOn hstop]
    exact ⟨rfl, hbreak, .inr hstop⟩
  · rw [htick] at hstill ⊢
    refine ⟨d.machine_step, hstill, ?_⟩
    rcases d.step_cases with ⟨m, executed, status, -, heq⟩ | ⟨m, f, status, hstep, heq⟩
    · left
      rw [heq]
      exact hrunning
    · right
      rw [heq]
      exact Machine.not_goesOn_of_step_error hstep

theorem machine_ticks {d : Debugger} (h : d.RunsFreely) (n : Nat) :
    (d.ticks n).machine = d.machine.after n := by
  induction n generalizing d with
  | zero => rfl
  | succ n ih =>
    obtain ⟨hmachine, hfree⟩ := machine_tick h
    rw [ticks, ih hfree, hmachine, Machine.after_succ]

/-- A debugger starts with the machine that the program was loaded into. -/
theorem machine_create {config : Config} {p : Program} {m : Machine}
    (hload : (Machine.create config).loadProgram p = (m, .ok ())) :
    (create config p).machine = m := by
  show loaded (Machine.create config) p = m
  rw [loaded, Machine.reset_create, hload]

end Debugger

/-! ### The session -/

/-- A session that loads a source text and runs it. -/
theorem Session.machine_run {source : String} {p : Program} {m : Machine}
    (hasm : Source.assemble source 4 = .ok p)
    (hload : (Machine.create {}).loadProgram p = (m, .ok ())) (budget : UInt32) :
    ((({} : Session).load source).1.run budget).1.machine = (m.runLimited budget.toUInt64).1 := by
  have hassembled : Source.assemble source ({} : Session).machine.config.tokenWidth.toNat = .ok p :=
    hasm
  rw [load, hassembled]
  simp only [reload, Machine.reset_create, hload]
  rfl

/-! ### All of them -/

/-- **All drivers run the same machine.** From a freshly loaded machine on, with any budget, the
    loop with a budget, the loop of the run command whatever follows it, the debugger without
    breakpoints, and on the canonical machine the session reach the machine that so many steps
    lead to. The run command prints what that machine has emitted, one value on each line, and its
    exit code is the code of the EXIT as the system passes it on, or 1 if there was none. -/
theorem drivers_agree (config : Config) (p : Program) (m : Machine) (n : UInt64)
    (hload : (Machine.create config).loadProgram p = (m, .ok ())) :
    (m.runLimited n).1 = m.after n.toNat ∧
      (∀ trace, ∃ errors, ∀ (finish : Machine → Option Fault → Script) (d : Directory),
        (runCycles trace n finish m).runIn d
          = ((finish (m.after n.toNat) (m.after n.toNat).fault?).runIn d).after
              (linesText (m.after n.toNat).serial.lines) errors) ∧
      ((Debugger.create config p).run.ticks n.toNat).machine = m.after n.toNat ∧
      (∀ (source : String) (budget : UInt32), config = {} →
        Source.assemble source config.tokenWidth.toNat = .ok p → budget.toUInt64 = n →
        ((({} : Session).load source).1.run budget).1.machine = m.after n.toNat) ∧
      ∀ (d : Directory) (path : String) (trace : Bool), d.Holds path config p →
        ((runScript path n trace config).runIn d).output
            = linesText (m.after n.toNat).serial.lines ∧
          ((runScript path n trace config).runIn d).code = (m.after n.toNat).exitStatus := by
  have hfresh := Machine.isFresh_of_load hload
  refine ⟨?_, ?_, ?_, ?_, ?_⟩
  · rw [Machine.runLimited_eq_after, hfresh.allowed_eq]
  · intro trace
    exact runIn_runCycles_of_isFresh trace n hfresh
  · have hfree : (Debugger.create config p).run.RunsFreely := ⟨rfl, .inl rfl⟩
    rw [Debugger.machine_ticks hfree]
    exact congrArg (Machine.after · n.toNat) (Debugger.machine_create hload)
  · rintro source budget rfl hasm rfl
    rw [Session.machine_run hasm hload, Machine.runLimited_eq_after, hfresh.allowed_eq]
  · intro d path trace hd
    exact runIn_runScript hload hd n trace

/-- A source file that emits 3 and 4 and exits with 5: in the loop with a budget, in the debugger
    and in the session, and as the run command shows it. -/
theorem drivers_agree_exit :
    let source := "MOV reg0 $3\nOUT reg0\nMOV reg0 $4\nOUT reg0\nEXIT $5"
    let p := Source.programOf
      [(⟨1⟩, .loadValue 0 3), (⟨2⟩, .out 0), (⟨3⟩, .loadValue 0 4), (⟨4⟩, .out 0),
        (⟨5⟩, .exit 5)] 4
    let d : Directory := ⟨[("a.zev", Text.encodeUtf8 source.toList)]⟩
    let limited := (((Machine.create {}).loadProgram p).1.runLimited 9).1
    let outcome := (runScript "a.zev" 9 false {}).runIn d
    (limited.status = .halted 5 ∧ limited.serial.lines = ["3", "4"]) ∧
      ((Debugger.create {} p).run.ticks 9).machine = limited ∧
      ((({} : Session).load source).1.run 9).1.machine = limited ∧
      outcome.output = "3\n4\n" ∧ outcome.code = 5 := by
  intro source p d limited outcome
  let m := ((Machine.create {}).loadProgram p).1
  have hload : (Machine.create {}).loadProgram p = (m, .ok ()) := Prod.ext rfl rfl
  have hasm : Source.assemble source 4 = .ok p := by
    have hlayout : Source.layout source = .ok
        [(⟨1⟩, .loadValue 0 3), (⟨2⟩, .out 0), (⟨3⟩, .loadValue 0 4), (⟨4⟩, .out 0),
          (⟨5⟩, .exit 5)] := by
      decide +kernel
    rw [Source.assemble, hlayout]
    rfl
  have hholds : d.Holds "a.zev" {} p := by
    have hresolve : d.resolve "a.zev" = .ok (.entry "a.zev" "a.zev") :=
      @Directory.resolve_eq_ok {} d _ _ (by decide +kernel)
    have hread : d.read "a.zev" = .ok (Text.encodeUtf8 source.toList) :=
      Directory.read_eq_ok_iff.mpr ⟨_, _, hresolve, by decide +kernel, rfl⟩
    have hext : Path.extension? "a.zev" = some sourceExtension := by decide +kernel
    rw [Directory.Holds, if_pos hext]
    exact ⟨source, (congrArg textOf hread).trans (textOf_encodeUtf8 source), hasm⟩
  obtain ⟨hlimited, -, hdebugger, hsession, hcommand⟩ := drivers_agree {} p m 9 hload
  obtain ⟨houtput, hcode⟩ := hcommand d "a.zev" false hholds
  refine ⟨?_, hdebugger.trans hlimited.symm, (hsession source 9 rfl hasm rfl).trans hlimited.symm,
    houtput.trans ?_, hcode.trans ?_⟩
  · show (m.runLimited 9).1.status = _ ∧ (m.runLimited 9).1.serial.lines = _
    rw [hlimited]
    decide +kernel
  · decide +kernel
  · decide +kernel

end BitMachine
