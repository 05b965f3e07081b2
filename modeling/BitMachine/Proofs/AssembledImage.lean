import BitMachine.Proofs.Drivers
import BitMachine.Proofs.Simulation

namespace BitMachine

/-!
# An assembled image runs as its source

Assembling a source file writes an image beside it. Running the image then shows what running the
source shows:

* `Settings.load` — the configuration that settings describe, which an image cannot change but
  only make unreadable (`Settings.load_of_write`);
* `runScript_agrees` — files that hold the same program run alike, whatever becomes of the run;
* `Saving` — what the command that assembles can do;
* `assembled_image_runs_as_source` — the theorem about source files.
-/

/-- Two outcomes that look the same from outside: what is on the standard output, and the exit
    code. -/
structure Outcome.Agrees (o o' : Outcome) : Prop where
  /-- The standard output. -/
  output : o.output = o'.output
  /-- The exit code. -/
  code : o.code = o'.code

/-- What the command that runs a file leaves behind. -/
def Outcome.ofRun (s : Settings) (d : Directory) (path : String) (maxCycles : UInt64)
    (trace : Bool) : Outcome :=
  (Invocation.script ⟨s, .run path maxCycles trace⟩).runIn d

/-- What the command that assembles a file leaves behind, with no other name given for the
    image. -/
def Outcome.ofAssemble (s : Settings) (d : Directory) (path : String) : Outcome :=
  (Invocation.script ⟨s, .assemble path none⟩).runIn d

/-! ### The settings -/

/-- The configuration of the file that settings name, or the default one. -/
def Settings.base (s : Settings) (d : Directory) : Except String Config :=
  match s.config with
  | none => .ok {}
  | some path =>
    (((d.read path).mapError ConfigError.file).bind Config.ofBytes).mapError fun e =>
      s!"Failed to load config {path}: {e.message}"

/-- The configuration that settings describe in a directory, or the message that there is none. -/
def Settings.load (s : Settings) (d : Directory) : Except String Config := do
  (s.override (← s.base d)).validate.mapError ConfigError.message

/-- Every command goes on with the configuration that the settings describe. -/
theorem runIn_withConfig (s : Settings) (d : Directory) (next : Config → Script) :
    (s.withConfig next).runIn d =
      match s.load d with
      | .ok config => (next config).runIn d
      | .error message => (Script.fail message).runIn d := by
  have hchecked (config : Config) : (Settings.withConfig.checked s next config).runIn d =
      match (s.override config).validate.mapError ConfigError.message with
      | .ok config => (next config).runIn d
      | .error message => (Script.fail message).runIn d := by
    unfold Settings.withConfig.checked
    cases (s.override config).validate <;> rfl
  unfold Settings.withConfig Settings.load Settings.base
  rcases s.config with _ | path
  · exact hchecked {}
  · dsimp only
    rw [Script.runIn]
    cases ((d.read path).mapError ConfigError.file).bind Config.ofBytes with
    | error e => rfl
    | ok config => exact hchecked config

theorem Settings.base_of_write {s : Settings} {d d' : Directory} {target : String} {p : Program}
    {config : Config} (h : d.write target (Image.toBytes p) = .ok d')
    (hbase : s.base d = .ok config) :
    s.base d' = .ok config ∨ ∃ message, s.base d' = .error message := by
  unfold base at hbase ⊢
  generalize s.config = file at hbase ⊢
  rcases file with _ | path
  · exact .inl hbase
  dsimp only at hbase ⊢
  obtain ⟨old, hold, -⟩ := bind_eq_ok.mp (mapError_eq_ok.mp hbase)
  have hread : d.read path = .ok old := mapError_eq_ok.mp hold
  rcases Directory.read_of_write_cases h hread with hsame | ⟨-, himage⟩
  · left
    rw [hsame, ← hread, hbase]
  · -- The image took the place of the file.
    right
    have hnone : (Except.ok (Image.toBytes p)).bind Config.ofBytes
        = (.error .malformed : Except ConfigError Config) := Config.ofBytes_toBytes p
    rw [himage, mapError_ok, hnone]
    exact ⟨_, rfl⟩

/-- **An image does not change what settings describe.** If it was written over their file, they
    describe nothing any more. -/
theorem Settings.load_of_write {s : Settings} {d d' : Directory} {target : String} {p : Program}
    {config : Config} (h : d.write target (Image.toBytes p) = .ok d')
    (hload : s.load d = .ok config) :
    s.load d' = .ok config ∨ ∃ message, s.load d' = .error message := by
  obtain ⟨found, hbase, hvalid⟩ := bind_eq_ok.mp hload
  unfold load
  rcases base_of_write h hbase with hsame | ⟨message, hnone⟩
  · left
    rw [hsame, ok_bind, hvalid]
  · right
    exact ⟨message, by rw [hnone, error_bind]⟩

/-! ### The runs -/

/-- A program that cannot be loaded is not run. -/
theorem runIn_runScript_of_error {d : Directory} {path : String} {config : Config} {p : Program}
    {m : Machine} {e : MemoryError}
    (hload : (Machine.create config).loadProgram p = (m, .error e))
    (h : d.Holds path config p) (maxCycles : UInt64) (trace : Bool) :
    ((runScript path maxCycles trace config).runIn d).output = "" ∧
      ((runScript path maxCycles trace config).runIn d).code = 1 := by
  obtain ⟨errors, hprogram⟩ := runIn_withProgram h
  rw [runScript, Script.runIn_reportLine, hprogram, withProgram.nonEmpty]
  by_cases hempty : p.isEmpty = true
  · rw [if_pos hempty]
    exact ⟨rfl, rfl⟩
  · rw [if_neg hempty, hload]
    exact ⟨rfl, rfl⟩

/-- **Files that hold the same program run alike.** -/
theorem runScript_agrees {d d' : Directory} {path path' : String} {config : Config} {p : Program}
    (h : d.Holds path config p) (h' : d'.Holds path' config p) (maxCycles : UInt64)
    (trace : Bool) :
    ((runScript path maxCycles trace config).runIn d).Agrees
      ((runScript path' maxCycles trace config).runIn d') := by
  -- What is shown depends on the program alone, whether it can be loaded or not.
  rcases hload : (Machine.create config).loadProgram p with ⟨m, e | ⟨⟩⟩
  · obtain ⟨houtput, hcode⟩ := runIn_runScript_of_error hload h maxCycles trace
    obtain ⟨houtput', hcode'⟩ := runIn_runScript_of_error hload h' maxCycles trace
    exact ⟨houtput.trans houtput'.symm, hcode.trans hcode'.symm⟩
  · obtain ⟨houtput, hcode⟩ := runIn_runScript hload h maxCycles trace
    obtain ⟨houtput', hcode'⟩ := runIn_runScript hload h' maxCycles trace
    exact ⟨houtput.trans houtput'.symm, hcode.trans hcode'.symm⟩

/-! ### Assembling -/

/-- A file is a source text that assembles to a program. -/
def Directory.Assembles (d : Directory) (path : String) (config : Config) (p : Program) : Prop :=
  ∃ source, textOf (d.read path) = .ok source ∧
    Source.assemble source config.tokenWidth.toNat = .ok p

theorem Directory.Assembles.unique {d : Directory} {path : String} {config : Config}
    {p q : Program} (hp : d.Assembles path config p) (hq : d.Assembles path config q) : p = q := by
  obtain ⟨source, htext, hp⟩ := hp
  obtain ⟨source', htext', hq⟩ := hq
  obtain rfl : source = source' := Except.ok.inj (htext.symm.trans htext')
  exact Except.ok.inj (hp.symm.trans hq)

/-- What the command that assembles can do, told by its outcome. -/
inductive Saving (s : Settings) (d : Directory) (path target : String) (o : Outcome) : Prop where
  /-- The image is written. -/
  | saved (config : Config) (p : Program) (hload : s.load d = .ok config)
      (hasm : d.Assembles path config p)
      (hwrite : d.write target (Image.toBytes p) = .ok o.directory) (hcode : o.code = 0)
  /-- There is a program, but its image cannot be written. -/
  | unsaved (config : Config) (p : Program) (e : FileError) (hload : s.load d = .ok config)
      (hasm : d.Assembles path config p)
      (hwrite : d.write target (Image.toBytes p) = .error e)
      (hcode : o.code = 1) (hdirectory : o.directory = d)
  /-- There is no program. -/
  | refused (hnone : ∀ config p, s.load d = .ok config → ¬ d.Assembles path config p)
      (hcode : o.code = 1) (hdirectory : o.directory = d)

/-- A command goes on with the program that a source file assembles to, or it fails. -/
theorem runIn_withSource (d : Directory) (path : String) (config : Config) :
    (∃ p, d.Assembles path config p ∧
        ∀ next, (withSource path config next).runIn d = (next p).runIn d) ∨
      ((∀ p, ¬ d.Assembles path config p) ∧
        ∃ message, ∀ next, (withSource path config next).runIn d
          = (Script.fail message).runIn d) := by
  unfold withSource
  simp only [Script.runIn]
  rcases htext : textOf (d.read path) with e | source
  · refine .inr ⟨fun p hp => ?_, _, fun next => rfl⟩
    obtain ⟨source, hsource, -⟩ := hp
    cases htext.symm.trans hsource
  dsimp only
  rcases hasm : Source.assemble source config.tokenWidth.toNat with e | p
  · refine .inr ⟨fun p hp => ?_, _, fun next => rfl⟩
    obtain ⟨source', hsource, hassemble⟩ := hp
    cases htext.symm.trans hsource
    cases hasm.symm.trans hassemble
  · exact .inl ⟨p, ⟨source, htext, hasm⟩, fun next => rfl⟩

theorem saving_ofAssemble (s : Settings) (d : Directory) (path : String) :
    Saving s d path (Path.withExtension path imageExtension) (.ofAssemble s d path) := by
  show Saving s d path _ ((s.withConfig (assembleScript path none)).runIn d)
  rw [runIn_withConfig]
  rcases hload : s.load d with message | config
  · refine .refused (fun config p hconfig => ?_) rfl rfl
    cases hload.symm.trans hconfig
  show Saving s d path _ ((assembleScript path none config).runIn d)
  unfold assembleScript
  dsimp only [Option.getD_none]
  generalize Path.withExtension path imageExtension = target
  rw [Script.runIn_printLine]
  rcases runIn_withSource d path config with ⟨p, hasm, hgoes⟩ | ⟨hnone, message, hfails⟩
  · rw [hgoes, Script.runIn_printLine, Script.runIn]
    rcases hwrite : d.write target (Image.toBytes p) with e | d'
    · exact .unsaved config p e hload hasm hwrite rfl rfl
    · exact .saved config p hload hasm hwrite rfl
  · rw [hfails]
    refine .refused (fun config' p hconfig => ?_) rfl rfl
    cases hload.symm.trans hconfig
    exact hnone p

section Saving

variable {s : Settings} {d : Directory} {path target : String} {o : Outcome}

theorem Saving.written (h : Saving s d path target o) (hzero : o.code = 0) :
    ∃ config p, s.load d = .ok config ∧ d.Assembles path config p ∧
      d.write target (Image.toBytes p) = .ok o.directory := by
  rcases h with
    ⟨config, p, hload, hasm, hwrite, -⟩ | ⟨-, -, -, -, -, -, hone, -⟩ | ⟨-, hone, -⟩
  · exact ⟨config, p, hload, hasm, hwrite⟩
  · omega
  · omega

theorem Saving.code_eq_zero (h : Saving s d path target o) {config : Config} {p : Program}
    {d' : Directory} (hload : s.load d = .ok config) (hasm : d.Assembles path config p)
    (hwrite : d.write target (Image.toBytes p) = .ok d') : o.code = 0 := by
  rcases h with
    ⟨-, -, -, -, -, hzero⟩ | ⟨config', p', e, hload', hasm', hfail, -, -⟩ | ⟨hnone, -, -⟩
  · exact hzero
  · obtain rfl : config = config' := Except.ok.inj (hload.symm.trans hload')
    obtain rfl : p = p' := hasm.unique hasm'
    cases hwrite.symm.trans hfail
  · exact absurd hasm (hnone config p hload)

/-- Without a program nothing happens to the files. -/
theorem Saving.unchanged (h : Saving s d path target o)
    (hnone : ∀ config p, s.load d = .ok config → ¬ d.Assembles path config p) :
    o.code = 1 ∧ o.directory = d := by
  rcases h with
    ⟨config, p, hload, hasm, -, -⟩ | ⟨config, p, e, hload, hasm, -, -, -⟩ | ⟨-, hone, hdirectory⟩
  · exact absurd hasm (hnone config p hload)
  · exact absurd hasm (hnone config p hload)
  · exact ⟨hone, hdirectory⟩

end Saving

/-- **Assembled programs are well-formed**: an image can hold them. -/
theorem Source.wellFormed_of_assemble {source : String} {width : Nat} {p : Program}
    (h : assemble source width = .ok p) : p.WellFormed where
  distinct := by
    obtain ⟨items, hlayout, hp⟩ := bind_eq_ok.mp h
    cases hp
    rw [map_fst_programOf]
    exact layout_nodup hlayout
  nonempty := isEmpty_of_mem_assemble h

/-- The path of an image is not that of a source file. -/
theorem extension?_image_ne (path : String) :
    Path.extension? (Path.withExtension path imageExtension) ≠ some sourceExtension := by
  intro hsource
  have himage := @Path.extension?_withExtension path imageExtension (by decide) (by decide)
    (by decide)
  rw [hsource] at himage
  exact absurd himage (by decide)

theorem holds_iff_assembles {d : Directory} {path : String} {config : Config} {p : Program}
    (hpath : Path.extension? path = some sourceExtension) :
    d.Holds path config p ↔ d.Assembles path config p := by
  rw [Directory.Holds, if_pos hpath, Directory.Assembles]

/-- After an image was written, its file holds the program, and so does the source file still. -/
theorem holds_of_write {d d' : Directory} {target path : String} {config : Config} {p : Program}
    (hpath : Path.extension? path = some sourceExtension)
    (htarget : Path.extension? target ≠ some sourceExtension) (hasm : d.Assembles path config p)
    (hwrite : d.write target (Image.toBytes p) = .ok d') :
    d'.Holds target config p ∧ d'.Holds path config p := by
  obtain ⟨source, htext, hassemble⟩ := hasm
  constructor
  · rw [Directory.Holds, if_neg htarget]
    exact (Directory.loadImage_of_write hwrite).mpr (Source.wellFormed_of_assemble hassemble)
  · -- The image has another extension, so it was not written over the source file.
    obtain ⟨bytes, hread, -⟩ := bind_eq_ok.mp htext
    have hsame : d'.read path = .ok bytes := by
      rcases Directory.read_of_write_cases hwrite hread with hsame | ⟨hext, -⟩
      · exact hsame
      · exact absurd (hext.symm.trans hpath) htarget
    rw [Directory.Holds, if_pos hpath, hsame, ← hread]
    exact ⟨source, htext, hassemble⟩

/-! ### The theorem -/

/-- Commands whose settings describe the same configuration run files alike that hold the same
    program. -/
theorem ofRun_agrees {s : Settings} {d d' : Directory} {path path' : String} {p : Program}
    (hload : s.load d = s.load d')
    (h : ∀ config, s.load d = .ok config → d.Holds path config p ∧ d'.Holds path' config p)
    (maxCycles : UInt64) (trace : Bool) :
    (Outcome.ofRun s d path maxCycles trace).Agrees (.ofRun s d' path' maxCycles trace) := by
  show Outcome.Agrees ((s.withConfig (runScript path maxCycles trace)).runIn d)
    ((s.withConfig (runScript path' maxCycles trace)).runIn d')
  rw [runIn_withConfig, runIn_withConfig, ← hload]
  rcases hconfig : s.load d with message | config
  · exact ⟨rfl, rfl⟩
  · obtain ⟨hold, hold'⟩ := h config hconfig
    exact runScript_agrees hold hold' maxCycles trace

/-- Once an image is written, files that hold its program run alike, in the new directory and, if
    the settings still describe the same, in the old one. -/
theorem ofRun_agrees_of_write {s : Settings} {d d' : Directory} {target path : String}
    {config : Config} {p : Program} (hload : s.load d = .ok config)
    (hwrite : d.write target (Image.toBytes p) = .ok d') (htarget : d'.Holds target config p)
    (hpath : d'.Holds path config p) (hbefore : d.Holds path config p) (maxCycles : UInt64)
    (trace : Bool) :
    (Outcome.ofRun s d' target maxCycles trace).Agrees (.ofRun s d' path maxCycles trace) ∧
      (s.load d' = s.load d →
        (Outcome.ofRun s d' target maxCycles trace).Agrees (.ofRun s d path maxCycles trace)) := by
  -- The settings can only have lost their file to the image.
  have hsettings {config' : Config} (h : s.load d' = .ok config') : config' = config := by
    rcases Settings.load_of_write hwrite hload with hsame | ⟨message, hlost⟩
    · exact Except.ok.inj (h.symm.trans hsame)
    · cases h.symm.trans hlost
  constructor
  · have hholds (config' : Config) (h : s.load d' = .ok config') :
        d'.Holds target config' p ∧ d'.Holds path config' p := by
      rw [hsettings h]
      exact ⟨htarget, hpath⟩
    exact ofRun_agrees rfl hholds maxCycles trace
  · intro hsame
    have hholds (config' : Config) (h : s.load d' = .ok config') :
        d'.Holds target config' p ∧ d.Holds path config' p := by
      rw [hsettings h]
      exact ⟨htarget, hbefore⟩
    exact ofRun_agrees hsame hholds maxCycles trace

/-- **An assembled image runs as its source.** For a source file and any settings, with no other
    name given for the image: if assembling succeeds, the image file has the lines of the
    assembled program, and running it shows what running the source file then shows, and what
    running it before showed if the settings still describe the same. It succeeds if the source
    text assembles and the image can be written; if there is no program, the exit code is 1 and
    no file is made or changed. -/
theorem assembled_image_runs_as_source (s : Settings) (d : Directory) (path : String)
    (hpath : Path.extension? path = some sourceExtension) :
    let image := Path.withExtension path imageExtension
    let assembled := Outcome.ofAssemble s d path
    (assembled.code = 0 →
      (∃ config p, s.load d = .ok config ∧ d.Assembles path config p ∧
        d.write image (Image.toBytes p) = .ok assembled.directory ∧
        assembled.directory.read image = .ok (Image.toBytes p)) ∧
      ∀ maxCycles trace,
        (Outcome.ofRun s assembled.directory image maxCycles trace).Agrees
          (.ofRun s assembled.directory path maxCycles trace) ∧
        (s.load assembled.directory = s.load d →
          (Outcome.ofRun s assembled.directory image maxCycles trace).Agrees
            (.ofRun s d path maxCycles trace))) ∧
    (∀ config p d', s.load d = .ok config → d.Assembles path config p →
      d.write image (Image.toBytes p) = .ok d' → assembled.code = 0) ∧
    ((∀ config p, s.load d = .ok config → ¬ d.Assembles path config p) →
      assembled.code = 1 ∧ assembled.directory = d) := by
  intro image assembled
  have hsaving : Saving s d path image assembled := saving_ofAssemble s d path
  have hext : Path.extension? image ≠ some sourceExtension := extension?_image_ne path
  clear_value assembled image
  refine ⟨?_, ?_, ?_⟩
  · intro hzero
    obtain ⟨config, p, hload, hasm, hwrite⟩ := hsaving.written hzero
    obtain ⟨himage, hsource⟩ := holds_of_write hpath hext hasm hwrite
    have hread := Directory.read_of_write hwrite
    have hbefore := (holds_iff_assembles hpath).mpr hasm
    exact ⟨⟨config, p, hload, hasm, hwrite, hread⟩,
      ofRun_agrees_of_write hload hwrite himage hsource hbefore⟩
  · intro config p d' hload hasm hwrite
    exact hsaving.code_eq_zero hload hasm hwrite
  · exact hsaving.unchanged

/-- A source file that emits 3 and exits with 5, as its image does. -/
theorem assembled_image_runs_as_source_exit :
    let d : Directory := ⟨[("a.zev", Text.encodeUtf8 "MOV reg0 $3\nOUT reg0\nEXIT $5".toList)]⟩
    let assembled := Outcome.ofAssemble {} d "a.zev"
    assembled.code = 0 ∧
      (Outcome.ofRun {} assembled.directory "a.zimg" 9 false).output = "3\n" ∧
      (Outcome.ofRun {} assembled.directory "a.zimg" 9 false).code = 5 := by
  intro d assembled
  let source := "MOV reg0 $3\nOUT reg0\nEXIT $5"
  let items : List (Address × Source.Item) :=
    [(⟨1⟩, .loadValue 0 3), (⟨2⟩, .out 0), (⟨3⟩, .exit 5)]
  let p := Source.programOf items 4
  let m := ((Machine.create {}).loadProgram p).1
  have hext : Path.extension? "a.zev" = some sourceExtension := by decide +kernel
  have himage : Path.withExtension "a.zev" imageExtension = "a.zimg" := by decide +kernel
  have hsource : d.resolve "a.zev" = .ok (.entry "a.zev" "a.zev") :=
    @Directory.resolve_eq_ok {} d _ _ (by decide +kernel)
  have htarget : d.resolve "a.zimg" = .ok (.entry "a.zimg" "a.zimg") :=
    @Directory.resolve_eq_ok {} d _ _ (by decide +kernel)
  have hread : d.read "a.zev" = .ok (Text.encodeUtf8 source.toList) :=
    Directory.read_eq_ok_iff.mpr ⟨_, _, hsource, by decide +kernel, rfl⟩
  have hasm : d.Assembles "a.zev" {} p := by
    refine ⟨source, (congrArg textOf hread).trans (textOf_encodeUtf8 source), ?_⟩
    have hlayout : Source.layout source = .ok items := by decide +kernel
    show Source.assemble source 4 = .ok p
    rw [Source.assemble, hlayout]
    rfl
  have hwrite : d.write "a.zimg" (Image.toBytes p) = .ok (d.insert "a.zimg" (Image.toBytes p)) :=
    Directory.write_eq_ok_iff.mpr ⟨_, _, htarget, by decide +kernel, by decide +kernel, rfl⟩
  obtain ⟨hruns, hsucceeds, -⟩ := assembled_image_runs_as_source {} d "a.zev" hext
  rw [himage] at hruns hsucceeds
  have hzero : assembled.code = 0 := hsucceeds {} p _ rfl hasm hwrite
  obtain ⟨-, hagrees⟩ := hruns hzero
  obtain ⟨houtput, hcode⟩ := (hagrees 9 false).2 rfl
  have hload : (Machine.create {}).loadProgram p = (m, .ok ()) := Prod.ext rfl rfl
  obtain ⟨houtput', hcode'⟩ := runIn_runScript hload ((holds_iff_assembles hext).mpr hasm) 9 false
  refine ⟨hzero, houtput.trans ?_, hcode.trans ?_⟩
  · exact houtput'.trans (by decide +kernel)
  · exact hcode'.trans (by decide +kernel)

end BitMachine
