/-
# Sequences of reflections

A job is one of many reflections in a row.  The conduct of the tools is a part of
every job: what the toolchain answers, how the build ends and what becomes of the
probe.  A build may write an executable as the in-memory toolchain does, and it may
fail whether or not it wrote one.  Questions and probes of a conduct change no files,
and a build writes nothing else.

A job does not see what was called before it.  All that it knows of a
site are the entries of the file tree, the directory it starts in and the number
of the next name for a workspace, so two sites that agree in these give the same
result and agree again afterwards.
-/

import InterfaceProbe.Pipeline.InMemory
import InterfaceProbe.Proofs.Files.SameEntries
import InterfaceProbe.Proofs.Pipeline.Steps

namespace InterfaceProbe

/-- How a build goes.  It may fail before it writes, while it writes, or after it wrote. -/
structure BuildConduct where
  /-- The contents of the executable, if one is written. -/
  written : Option String := none
  /-- How the build of a directory ends, unless the executable cannot be written. -/
  result : PathName → Except ToolchainError Unit := fun _ => .ok ()

/-- What the tools do during one reflection.  They are asked for each of these once at most, so one
answer to each is all that a reflection can see of them. -/
structure ToolConduct where
  project : Except ToolchainError String
  suffix : Except ToolchainError String
  build : BuildConduct
  probe : PathName → Except ExecutionError ProbeOutput

namespace ToolConduct

/-- The settings, empty where there is no answer. -/
def settings (tools : ToolConduct) : InMemoryToolchain :=
  (InMemoryToolchain.ofProject (tools.project.toOption.getD "") .succeed).withValue
    executableSuffixKey (tools.suffix.toOption.getD "")

/-- The toolchain of this conduct. -/
def toolchain (tools : ToolConduct) : Toolchain where
  query key _ :=
    if key = projectDirectoryKey then tools.project
    else if key = executableSuffixKey then tools.suffix
    else .error (.queryFailed key "unknown key")
  build workspace site :=
    match tools.build.written with
    | none => { result := tools.build.result workspace, files := site.files }
    | some contents =>
      let outcome :=
        { tools.settings with behaviour := .writeExecutable contents }.build workspace site
      { outcome with result := outcome.result.bind fun _ => tools.build.result workspace }

/-- The runner of this conduct. -/
def runner (tools : ToolConduct) : Runner where
  run program _ := tools.probe program

end ToolConduct

/-- One reflection, with the conduct of the tools. -/
structure Job where
  request : ProbeRequest
  options : ReflectOptions
  tools : ToolConduct

namespace Job

def reflector (job : Job) (config : BuildConfig) : Reflector :=
  ⟨job.tools.toolchain, job.tools.runner, config⟩

/-- The result of the job at a site, and the site afterwards. -/
def carryOut (job : Job) (config : BuildConfig) (site : Site) :
    Except ReflectError ReflectOutcome × Site :=
  ((job.reflector config).reflect job.request job.options).carryOut site

end Job

/-- The site after some jobs in a row. -/
def BuildConfig.siteAfter (config : BuildConfig) (jobs : List Job) (site : Site) :
    Site :=
  jobs.foldl (fun site job => (job.carryOut config site).2) site

/-- The sites agree in all that a reflection knows of them. -/
structure Site.Alike (site other : Site) : Prop where
  files : site.files.get? = other.files.get?
  directory : site.directory = other.directory
  nextName : site.nextName = other.nextName

namespace Site

/-- The program gives the same value at sites that are alike, and leaves them alike. -/
def Respects {α : Type} (program : StateM Site α) : Prop :=
  ∀ site other : Site, site.Alike other →
    (program.run site).1 = (program.run other).1 ∧ (program.run site).2.Alike (program.run other).2

variable {α β ε : Type} {program : StateM Site α}

theorem respects_pure (value : α) : Respects (pure value) :=
  fun _ _ halike => ⟨rfl, halike⟩

theorem Respects.bind {next : α → StateM Site β} (h : Respects program)
    (hnext : ∀ value, Respects (next value)) : Respects (program >>= next) := by
  intro site other halike
  obtain ⟨hvalue, hafter⟩ := h site other halike
  have hrest := hnext (program.run other).1 _ _ hafter
  have hrun : ∀ site, (program >>= next).run site =
      (next (program.run site).1).run (program.run site).2 := fun _ => rfl
  rwa [hrun, hrun, hvalue]

theorem respects_change {edit : Tree → Place → Except FileError Tree} (h : Tree.Blind edit) :
    Respects (change edit) := by
  intro site other halike
  obtain ⟨hresult, hfiles⟩ :=
    Tree.changed_congr (h site.files other.files halike.files other.directory) halike.files
  rw [run_change, run_change, halike.directory]
  exact ⟨hresult, hfiles, rfl, halike.nextName⟩

theorem respects_discardFile (path : PathName) : Respects (discardFile path) :=
  (respects_change (Tree.blind_removeFile path)).bind fun _ => respects_pure ()

theorem respects_discardDirectory (path : PathName) : Respects (discardDirectory path) :=
  (respects_change (Tree.blind_removeDirectory path)).bind fun _ => respects_pure ()

end Site

namespace Reflection

open Site

variable {α β ε : Type} {step : Reflection α} {program : StateM Site (Except ε α)}

theorem respects_pure (value : α) : Respects (pure value : Reflection α).run :=
  Site.respects_pure (Except.ok value)

theorem respects_throw (error : ReflectError) : Respects (throw error : Reflection α).run :=
  Site.respects_pure (Except.error error)

theorem respects_bind {next : α → Reflection β} (h : Respects step.run)
    (hnext : ∀ value, Respects (next value).run) : Respects (step >>= next).run := by
  rw [ExceptT.run_bind]
  apply h.bind
  intro result
  cases result with
  | ok value => exact hnext value
  | error error => exact Site.respects_pure (Except.error error)

/-- A step may depend on what alike sites have in common. -/
theorem respects_get {next : Site → Reflection α}
    (hsame : ∀ site other : Site, site.Alike other → next site = next other)
    (hnext : ∀ site, Respects (next site).run) :
    Respects (get >>= next : Reflection α).run := by
  intro site other halike
  have hrun : ∀ site, (get >>= next : Reflection α).run.run site = (next site).run.run site :=
    fun _ => rfl
  rw [hrun, hrun, hsame site other halike]
  exact hnext other site other halike

theorem respects_of (wording : ε → ReflectError) (h : Respects program) :
    Respects (of wording program).run := by
  rw [of, ExceptT.run_mk]
  apply h.bind
  intro result
  cases result <;> exact Site.respects_pure _

theorem respects_orElseDo {cleanUp : StateM Site Unit} (h : Respects step.run)
    (hclean : Respects cleanUp) : Respects (orElseDo step cleanUp).run := by
  rw [orElseDo, ExceptT.run_mk]
  apply h.bind
  intro result
  cases result with
  | ok value => exact Site.respects_pure (Except.ok value)
  | error error => exact hclean.bind fun _ => Site.respects_pure (Except.error error)

end Reflection

namespace Workspace

open Site Reflection

theorem respects_makeIn (directory : PathName) (tries : Nat) :
    Respects (makeIn directory tries) := by
  induction tries with
  | zero => exact Site.respects_pure _
  | succ tries ih =>
    intro site other halike
    have hmake : (site.files.makeDirectory other.directory
          (directory.join (name other.nextName))).map Tree.get? =
        (other.files.makeDirectory other.directory
          (directory.join (name other.nextName))).map Tree.get? :=
      Tree.blind_makeDirectory _ _ _ halike.files _
    rw [run_makeIn_succ, run_makeIn_succ, halike.nextName, halike.directory]
    rcases Tree.cases_of_map_eq hmake with
      ⟨made, made', hmade, hmade', hsame⟩ | ⟨error, herror, herror'⟩
    · rw [hmade, hmade']
      exact ⟨rfl, hsame, rfl, rfl⟩
    · have htried : Site.Alike
          { site with directory := other.directory, nextName := other.nextName + 1 }
          { other with nextName := other.nextName + 1 } := ⟨halike.files, rfl, rfl⟩
      rw [herror, herror']
      cases error with
      | alreadyExists => exact ih _ _ htried
      | _ => exact ⟨rfl, htried⟩

theorem respects_make (workDirectory : PathName) : Respects (make workDirectory).run := by
  apply respects_get
  · intro site other halike
    rw [absolute, absolute, halike.directory]
  · intro site
    exact respects_of _ (respects_makeIn _ _)

theorem respects_put (workspace : PathName) (program : String) :
    Respects (put workspace program).run :=
  respects_bind (respects_of _ (respects_change (Tree.blind_writeFile _ _))) fun _ =>
    respects_of _ (respects_change (Tree.blind_setMode _ _))

theorem respects_remove (workspace : PathName) : Respects (remove workspace).run :=
  respects_of _ (respects_change (Tree.blind_removeDirectory _))

end Workspace

namespace PreparedProbe

open Site Reflection

theorem respects_discard (probe : PreparedProbe) : Respects probe.discard := by
  cases probe with
  | prebuilt program => exact Site.respects_pure ()
  | built program workspace =>
    exact (respects_discardFile program).bind fun _ => respects_discardDirectory workspace

theorem respects_release (probe : PreparedProbe) : Respects probe.release.run := by
  cases probe with
  | prebuilt program => exact Reflection.respects_pure ()
  | built program workspace =>
    refine respects_bind ?_ fun _ => Workspace.respects_remove workspace
    exact (respects_discardFile program).bind fun _ => Site.respects_pure _

end PreparedProbe

namespace InMemoryToolchain

variable {files files' : Tree}

theorem install_of_error {start : Place} {target : PathName} {contents : String}
    {error : FileError} (h : files.writeFile start target (utf8 contents) = .error error) :
    install files start target contents = (.error error, files) := by
  simp only [install, h]

theorem install_of_ok {start : Place} {target : PathName} {contents : String} {written : Tree}
    (h : files.writeFile start target (utf8 contents) = .ok written) :
    install files start target contents =
      ((written.setMode start target executableMode).map fun _ => (),
        (written.setMode start target executableMode).toOption.getD written) := by
  simp only [install, h]
  cases written.setMode start target executableMode <;> rfl

theorem install_congr (h : files.get? = files'.get?) (start : Place) (target : PathName)
    (contents : String) :
    Tree.entriesOf (install files start target contents) =
      Tree.entriesOf (install files' start target contents) := by
  rcases Tree.cases_of_map_eq (Tree.blind_writeFile target (utf8 contents) files files' h start) with
    ⟨written, written', hwrite, hwrite', hsame⟩ | ⟨error, herror, herror'⟩
  · obtain ⟨hresult, hfiles⟩ := Tree.changed_congr
      (Tree.blind_setMode target executableMode written written' hsame start) hsame
    rw [install_of_ok hwrite, install_of_ok hwrite', Tree.entriesOf, Tree.entriesOf]
    exact Prod.ext hresult hfiles
  · rw [install_of_error herror, install_of_error herror']
    exact Prod.ext rfl h

/-- The directory of the executables that the toolchain builds. -/
def binDirectory (toolchain : InMemoryToolchain) : PathName :=
  PathName.join ((toolchain.values.lookup projectDirectoryKey).getD "") "bin"

variable {toolchain : InMemoryToolchain} {contents : String} {workspace : PathName} {start : Place}

theorem writeExecutable_of_error {error : FileError} {made : Tree}
    (h : files.makeDirectories start toolchain.binDirectory = (.error error, made)) :
    toolchain.writeExecutable contents workspace files start = (.error error, made) := by
  rw [binDirectory] at h
  simp only [writeExecutable, h]

theorem writeExecutable_of_ok {made : Tree}
    (h : files.makeDirectories start toolchain.binDirectory = (.ok (), made)) :
    toolchain.writeExecutable contents workspace files start =
      install made start (toolchain.executable workspace) contents := by
  rw [binDirectory] at h
  simp only [writeExecutable, h]

theorem writeExecutable_congr (h : files.get? = files'.get?) (toolchain : InMemoryToolchain)
    (contents : String) (workspace : PathName) (start : Place) :
    Tree.entriesOf (toolchain.writeExecutable contents workspace files start) =
      Tree.entriesOf (toolchain.writeExecutable contents workspace files' start) := by
  obtain ⟨hresult, hsame⟩ :=
    Prod.ext_iff.1 (Tree.makeDirectories_congr h start toolchain.binDirectory)
  cases hway : files.makeDirectories start toolchain.binDirectory with
  | mk result made =>
    cases hway' : files'.makeDirectories start toolchain.binDirectory with
    | mk result' made' =>
      rw [hway, hway'] at hresult hsame
      cases hresult
      cases result with
      | error error =>
        rw [writeExecutable_of_error hway, writeExecutable_of_error hway']
        exact Prod.ext rfl hsame
      | ok =>
        rw [writeExecutable_of_ok hway, writeExecutable_of_ok hway']
        exact install_congr hsame start _ contents

theorem build_of_writes {site : Site} (h : toolchain.behaviour = .writeExecutable contents) :
    toolchain.build workspace site =
      { result := (toolchain.writeExecutable contents workspace site.files
          site.directory).1.mapError fun error => .buildFailed workspace error.message
        files := (toolchain.writeExecutable contents workspace site.files site.directory).2 } := by
  simp only [build, h]
  cases toolchain.writeExecutable contents workspace site.files site.directory with
  | mk result files => cases result <;> rfl

end InMemoryToolchain

namespace ToolConduct

open Site Reflection

variable {contents : String}

theorem build_of_not_written {tools : ToolConduct} (h : tools.build.written = none)
    (workspace : PathName) (site : Site) :
    tools.toolchain.build workspace site =
      { result := tools.build.result workspace, files := site.files } := by
  simp only [toolchain, h]

theorem build_of_written {tools : ToolConduct} (h : tools.build.written = some contents)
    (workspace : PathName) (site : Site) :
    tools.toolchain.build workspace site =
      { result := ((tools.settings.writeExecutable contents workspace site.files
            site.directory).1.mapError fun error => .buildFailed workspace error.message).bind
          fun _ => tools.build.result workspace
        files := (tools.settings.writeExecutable contents workspace site.files
          site.directory).2 } := by
  simp only [toolchain, h]
  rw [InMemoryToolchain.build_of_writes rfl]
  rfl

theorem respects_ask (tools : ToolConduct) (key : String) : Respects (tools.toolchain.ask key) :=
  fun _ _ halike => ⟨rfl, halike.files, halike.directory, halike.nextName⟩

theorem respects_start (tools : ToolConduct) (program : PathName) :
    Respects (tools.runner.start program) :=
  fun _ _ halike => ⟨rfl, halike.files, halike.directory, halike.nextName⟩

theorem build_congr (tools : ToolConduct) (workspace : PathName) {site other : Site}
    (halike : site.Alike other) :
    (tools.toolchain.build workspace site).result = (tools.toolchain.build workspace other).result ∧
      (tools.toolchain.build workspace site).files.get? =
        (tools.toolchain.build workspace other).files.get? := by
  cases hwritten : tools.build.written with
  | none =>
    rw [build_of_not_written hwritten, build_of_not_written hwritten]
    exact ⟨rfl, halike.files⟩
  | some contents =>
    obtain ⟨hresult, hfiles⟩ := Prod.ext_iff.1 (InMemoryToolchain.writeExecutable_congr
      halike.files tools.settings contents workspace other.directory)
    dsimp only [Tree.entriesOf] at hresult hfiles
    rw [build_of_written hwritten, build_of_written hwritten, halike.directory]
    dsimp only
    rw [hresult, hfiles]
    exact ⟨rfl, rfl⟩

theorem respects_make (tools : ToolConduct) (workspace : PathName) :
    Respects (tools.toolchain.make workspace) := by
  intro site other halike
  have hrecorded : ∀ call call', (site.record call).Alike (other.record call') :=
    fun _ _ => ⟨halike.files, halike.directory, halike.nextName⟩
  obtain ⟨hresult, hfiles⟩ := tools.build_congr workspace (hrecorded _ _)
  exact ⟨hresult, hfiles, halike.directory, halike.nextName⟩

theorem respects_executable (tools : ToolConduct) (workspace : PathName) :
    Respects (tools.toolchain.executable workspace).run :=
  respects_bind (respects_of _ (tools.respects_ask _)) fun _ =>
    respects_bind (respects_of _ (tools.respects_ask _)) fun _ =>
      respects_bind (respects_of _ (tools.respects_make workspace)) fun _ =>
        Reflection.respects_pure _

theorem respects_output (tools : ToolConduct) (program : PathName) :
    Respects (tools.runner.output program).run := by
  apply respects_bind (respects_of _ (tools.respects_start program))
  intro output
  cases output.status with
  | success => exact Reflection.respects_pure _
  | failed => exact respects_throw _

end ToolConduct

namespace Job

open Site Reflection

variable (job : Job) (config : BuildConfig)

theorem respects_build (program : String) :
    Respects ((job.reflector config).build program).run := by
  apply respects_bind (Workspace.respects_make _)
  intro workspace
  apply respects_orElseDo _ (respects_discardDirectory workspace)
  exact respects_bind (Workspace.respects_put workspace program) fun _ =>
    respects_bind (job.tools.respects_executable workspace) fun _ =>
      Reflection.respects_pure _

theorem respects_prepare :
    Respects ((job.reflector config).prepare job.request
      job.options.source).run := by
  cases job.options.source with
  | prebuilt program => exact Reflection.respects_pure _
  | build programOnly =>
    cases programOnly with
    | true => exact Reflection.respects_pure _
    | false =>
      exact respects_bind (job.respects_build config _) fun _ => Reflection.respects_pure _

theorem respects_outputOf (probe : PreparedProbe) :
    Respects ((job.reflector config).outputOf probe).run := by
  apply respects_bind (respects_orElseDo (job.tools.respects_output _) probe.respects_discard)
  intro output
  exact respects_bind probe.respects_release fun _ => Reflection.respects_pure _

/-- A job gives the same result at sites that are alike, and leaves them alike. -/
theorem carryOut_congr {site other : Site} (halike : site.Alike other) :
    (job.carryOut config site).1 = (job.carryOut config other).1 ∧
      (job.carryOut config site).2.Alike (job.carryOut config other).2 := by
  have hrespects : Respects ((job.reflector config).reflect job.request
      job.options).run := by
    apply respects_bind (job.respects_prepare config)
    intro preparation
    cases preparation with
    | programOnly source => exact Reflection.respects_pure _
    | ready probe =>
      apply respects_bind (job.respects_outputOf config probe)
      intro output
      cases decode output with
      | ok package => exact Reflection.respects_pure _
      | error error => exact respects_throw _
  exact hrespects site other halike

end Job

end InterfaceProbe
