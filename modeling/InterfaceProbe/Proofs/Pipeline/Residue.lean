/-
# What jobs leave behind

Whatever goes wrong in a job, its workspace is gone afterwards, and so is an
executable that was run.  Jobs in a row do not see each other: a job gives what it
would give as the first one.

There are three exceptions to the rule that the file tree is as it was.  A build that
writes an executable makes the directories on the way to it as far as they are
missing, and these stay, wherever they are.  The path of the executable belongs
to the job: a file that stood there before is lost, even if the build wrote nothing.
And an executable that a build wrote before it failed stays where it was written,
since only a build that succeeds has one to remove.  Where there is room for the
executables of the jobs, none of these arises.
-/

import InterfaceProbe.Proofs.Pipeline.Building
import InterfaceProbe.Proofs.Pipeline.CallOrder

namespace InterfaceProbe

open Reflection

/-- After a run the probe is released or discarded, and that leaves the same site. -/
theorem PreparedProbe.snd_carryOut_release (probe : PreparedProbe) (site : Site) :
    (probe.release.carryOut site).2 = (probe.discard.run site).2 := by
  cases probe with
  | prebuilt program => rfl
  | built program workspace =>
    rw [run_discard_built, carryOut_release_built, Workspace.remove, carryOut_of, Site.run_change,
      Site.run_discardDirectory]

/-- Whatever becomes of a probe that is run, what was made for it is discarded. -/
theorem Reflector.snd_carryOut_outputOf (reflector : Reflector) (probe : PreparedProbe)
    (site : Site) :
    ((reflector.outputOf probe).carryOut site).2 =
      (probe.discard.run (reflector.runner.siteAfter probe.program site)).2 := by
  have houtput := reflector.runner.carryOut_output probe.program site
  cases hfailure : (reflector.runner.attempt probe.program site).failure with
  | some error =>
    rw [hfailure] at houtput
    rw [outputOf, carryOut_bind_of_error (carryOut_orElseDo_of_error houtput)]
  | none =>
    rw [hfailure] at houtput
    rw [outputOf, carryOut_bind_of_ok (carryOut_orElseDo_of_ok houtput),
      ← probe.snd_carryOut_release]
    cases hrelease : probe.release.carryOut (reflector.runner.siteAfter probe.program site) with
    | mk result after =>
      cases result with
      | ok => rw [carryOut_bind_of_ok hrelease]; rfl
      | error error => rw [carryOut_bind_of_error hrelease]

/-- A reflection whose probe is ready leaves what running the probe leaves. -/
theorem Reflector.snd_carryOut_reflect {reflector : Reflector} {request : ProbeRequest}
    {options : ReflectOptions} {site middle : Site} {probe : PreparedProbe}
    (h : (reflector.prepare request options.source).carryOut site = (.ok (.ready probe), middle)) :
    ((reflector.reflect request options).carryOut site).2 =
      (probe.discard.run (reflector.runner.siteAfter probe.program middle)).2 := by
  rw [reflect, carryOut_bind_of_ok h, ← reflector.snd_carryOut_outputOf]
  dsimp only
  cases houtput : (reflector.outputOf probe).carryOut middle with
  | mk result after =>
    cases result with
    | error error => rw [carryOut_bind_of_error houtput]
    | ok output =>
      rw [carryOut_bind_of_ok houtput]
      cases decode output <;> rfl

/-- A probe of a conduct changes no files. -/
theorem Job.siteAfter_runner (job : Job) (config : BuildConfig) (program : PathName) (site : Site) :
    (job.reflector config).runner.siteAfter program site = site.record (.run program) := rfl

section Cleaning

variable {workDirectory workspace path : PathName} {place : Place} {way gone : Place → Prop}
  {made : List ToolCall} {site during after : Site}

/-- When the file at the path of the executable is removed, nothing that was touched is left. -/
theorem Site.Building.discardFile
    (h : site.Building place way (during.files.LeadsToFile site.directory path) made during)
    (hafter : ((Site.discardFile path).run during).2 = after) :
    site.Building place way
        (fun other => other = Place.ofPath site.directory path ∧ after.files.get? other = none) made
        after ∧
      ∀ contents, after.files.contentsAt site.directory path ≠ .ok contents := by
  rw [Site.run_discardFile, h.directory] at hafter
  subst hafter
  exact ⟨⟨rfl, h.calls, h.files.removeFile rfl⟩,
    Tree.contentsAt_removeFile_ne_ok during.files site.directory path⟩

/-- The workspace can be removed, and nothing else goes with it. -/
theorem Vacancy.run_discardDirectory (hvacant : Vacancy workDirectory site workspace place)
    (h : site.Building place way gone made during) :
    (Site.discardDirectory workspace).run during =
      ((), { during with files := during.files.prune place }) := by
  have hfind : during.files.find during.directory workspace = .ok (place, .directory) := by
    rw [h.directory]
    exact (h.files.keeps.names hvacant.names).find h.files.get?_workspace fun hne => absurd rfl hne
  rw [Site.run_discardDirectory, Tree.removeDirectory_of_find hfind]
  rfl

end Cleaning

namespace Job

/-- The job builds its probe. -/
def Builds (job : Job) : Prop := job.options.source = .build false

/-- Places at which the job may leave a new directory: those on the way to the executable that its
build writes. -/
def MakesWay (job : Job) (directory place : Place) : Prop :=
  job.Builds ∧ job.tools.MakesWay directory place

/-- Places at which the job may take a file away: those at which it ran what it built. -/
def Clears (job : Job) (directory : Place) (made : List ToolCall) (place : Place) : Prop :=
  job.Builds ∧ ∃ program, .run program ∈ made ∧ place = Place.ofPath directory program

/-- An executable that the job may leave, at a place: one that a build which the job called wrote
before it failed. -/
def Strands (job : Job) (directory : Place) (made : List ToolCall) (place : Place) (node : Node) :
    Prop :=
  job.Builds ∧ ∃ workspace source, .build workspace source ∈ made ∧
    job.tools.Strands directory workspace place node

/-- What a job leaves at a site, given the calls that it made. -/
structure Tidy (job : Job) (config : BuildConfig) (site : Site) (made : List ToolCall)
    (after : Site) : Prop where
  directory : after.directory = site.directory
  calls : after.calls = site.calls ++ made
  files : site.files.Spared (job.MakesWay site.directory) (job.Clears site.directory made)
    (job.Strands site.directory made) after.files
  /-- A workspace is in the work directory while it lasts, and only then. -/
  workspaces : ∀ workspace source, .build workspace source ∈ made →
    (∃ number, workspace =
        (site.absolute config.workDirectory).join (Workspace.name number)) ∧
      site.files.find site.directory workspace = .error .notFound ∧
        after.files.find site.directory workspace = .error .notFound
  /-- No executable is left at the path at which it was run. -/
  executables : job.Builds → ∀ program, .run program ∈ made → ∀ contents,
    after.files.contentsAt site.directory program ≠ .ok contents

/-- What the job runs is at the path at which the toolchain puts the executable of a workspace that
was built; and what a build wrote is there. -/
def RunsWhatItBuilt (job : Job) (config : BuildConfig) (site : Site) (made : List ToolCall) :
    Prop :=
  ∀ program, .run program ∈ made → ∃ workspace source built,
    .build workspace source ∈ made ∧
      program = job.tools.settings.executable workspace ∧
        ((job.reflector config).build (job.request.program config.modelImport)).carryOut site =
          (.ok (.built program workspace), built) ∧
            ∀ contents, job.tools.build.written = some contents →
              built.files.contentsAt site.directory program = .ok (utf8 contents)

variable {job : Job} {config : BuildConfig} {site during : Site} {workspace : PathName}
  {place : Place} {made : List ToolCall}

/-- Where nothing was called and only the next name may be another, the site is tidy. -/
theorem tidy_of_no_call (hsite : site.WellFormed) (number : Nat) :
    job.Tidy config site [] { site with nextName := number } :=
  ⟨rfl, (List.append_nil _).symm, Tree.Spared.refl hsite.closed, by simp, by simp⟩

/-- The site is left tidy when the workspace is pruned after all that was touched is gone, or is an
executable that a failed build has left. -/
theorem tidy_of_prune (hbuilds : job.Builds) (hsite : site.WellFormed)
    (hvacant : Vacancy config.workDirectory site workspace place)
    (h : site.Building place (job.tools.MakesWay site.directory)
      (fun other => job.Clears site.directory made other ∧ during.files.get? other = none ∨
        ∃ contents mode, during.files.get? other = some (.file contents mode) ∧
          job.Strands site.directory made other (.file contents mode)) made during)
    (hbuild : ∀ other source, .build other source ∈ made → other = workspace)
    (hrun : ∀ program, .run program ∈ made → ∀ contents,
      during.files.contentsAt site.directory program ≠ .ok contents) :
    job.Tidy config site made ((Site.discardDirectory workspace).run during).2 := by
  have hspared : site.files.Spared (job.MakesWay site.directory) (job.Clears site.directory made)
      (job.Strands site.directory made) (during.files.prune place) :=
    (h.files.prune hsite.closed hvacant.get?_place).mono (fun _ hway => ⟨hbuilds, hway⟩)
      (fun _ => id) fun _ _ => id
  rw [hvacant.run_discardDirectory h]
  refine ⟨h.directory, h.calls, hspared, ?_, ?_⟩
  · intro other source hmem
    obtain rfl := hbuild other source hmem
    -- The directory that the workspace was in is still there, so the path names the same place.
    refine ⟨hvacant.path, hvacant.names.find_eq_error hvacant.get?_place, ?_⟩
    apply (hspared.keeps.names hvacant.names).find_eq_error
    rw [Tree.get?_prune, if_pos ⟨hvacant.names.2.ne_nil, List.prefix_refl place⟩]
  · intro _ program hmem contents hread
    exact hrun program hmem contents ((Tree.Within.prune during.files place).contentsAt hread)

/-- A workspace that was not built to the end is pruned with all that the build did in it. -/
theorem tidy_of_failed (hbuilds : job.Builds) (hsite : site.WellFormed)
    (hvacant : Vacancy config.workDirectory site workspace place)
    (h : job.tools.Failed site workspace place made during) :
    (∀ program, .run program ∉ made) ∧
      job.Tidy config site made ((Site.discardDirectory workspace).run during).2 := by
  obtain ⟨source, hmade⟩ := h.calls
  have hrun : ∀ program, .run program ∉ made := fun program hmem =>
    ToolCall.run_mem_ofBuild.1 (hmade.subset hmem)
  refine ⟨hrun, tidy_of_prune hbuilds hsite hvacant ?_ ?_ ?_⟩
  · refine ⟨h.building.directory, h.building.calls, h.building.files.mono ?_⟩
    rintro other ⟨⟨seen, hcalled⟩, contents, mode, hfile, hstrands⟩
    exact .inr ⟨contents, mode, hfile, hbuilds, workspace, seen, hcalled, hstrands⟩
  · exact fun other source hmem => (ToolCall.build_mem_ofBuild.1 (hmade.subset hmem)).1
  · exact fun program hmem => absurd hmem (hrun program)

/-- The program is put into the workspace and built there, or something of that fails. -/
theorem leaves_probe (hsite : site.WellFormed)
    (hvacant : Vacancy config.workDirectory site workspace place) (program : String) :
    (do
      Workspace.put workspace program
      return .built (← job.tools.toolchain.executable workspace) workspace :
        Reflection PreparedProbe).Leaves
      (site.Building place (job.tools.MakesWay site.directory) Place.untouched [])
      (fun probe during => ∃ source,
        probe = .built (job.tools.settings.executable workspace) workspace ∧
          job.tools.Built site workspace place (ToolCall.ofBuild workspace source) during)
      (fun during => ∃ made, job.tools.Failed site workspace place made during) := by
  have hput := Workspace.leaves_put hsite hvacant program (job.tools.MakesWay site.directory)
    Place.untouched []
  refine (hput.thrown_mono ?_).bind fun _ => ?_
  · exact fun during hduring => ⟨[], .of_untouched none List.nil_prefix hduring⟩
  · refine (job.tools.leaves_executable workspace hsite).bind fun executable => leaves_pure ?_
    rintro during ⟨rfl, source, hbuilt⟩
    exact ⟨source, rfl, hbuilt⟩

/-- A build that fails leaves the site tidy; otherwise the probe is ready. -/
theorem leaves_build (config : BuildConfig) (hbuilds : job.Builds) (hsite : site.WellFormed)
    (program : String) :
    ((job.reflector config).build program).Leaves (· = site)
      (fun probe during => ∃ workspace place source,
        probe = .built (job.tools.settings.executable workspace) workspace ∧
          Vacancy config.workDirectory site workspace place ∧
            job.tools.Built site workspace place (ToolCall.ofBuild workspace source) during)
      (fun after => ∃ made, (∀ program, .run program ∉ made) ∧
        job.Tidy config site made after) := by
  have hmake := Workspace.leaves_make config.workDirectory (job.tools.MakesWay site.directory) hsite
  refine (hmake.thrown_mono ?_).bind fun workspace during => ?_
  · rintro after ⟨number, rfl⟩
    exact ⟨[], by simp, tidy_of_no_call hsite number⟩
  · rintro ⟨place, hvacant, hduring⟩
    have hprobe := job.leaves_probe hsite hvacant program
    refine ((hprobe.returned_mono ?_).orElseDo ?_) during hduring
    · rintro probe during ⟨source, hprobe, hbuilt⟩
      exact ⟨workspace, place, source, hprobe, hvacant, hbuilt⟩
    · rintro during ⟨made, hfailed⟩
      exact ⟨made, tidy_of_failed hbuilds hsite hvacant hfailed⟩

/-- When the executable has run, it is removed and the workspace is pruned. -/
theorem tidy_of_built {source : Option String} (hbuilds : job.Builds) (hsite : site.WellFormed)
    (hvacant : Vacancy config.workDirectory site workspace place)
    (hbuilt : job.tools.Built site workspace place (ToolCall.ofBuild workspace source) during) :
    job.Tidy config site
      (ToolCall.ofBuild workspace source ++ [.run (job.tools.settings.executable workspace)])
      ((PreparedProbe.discard (.built (job.tools.settings.executable workspace) workspace)).run
        (during.record (.run (job.tools.settings.executable workspace)))).2 := by
  have hran := hbuilt.building.record (.run (job.tools.settings.executable workspace))
  rw [PreparedProbe.run_discard_built]
  cases hdiscard : ((Site.discardFile (job.tools.settings.executable workspace)).run
      (during.record (.run (job.tools.settings.executable workspace)))) with
  | mk _ removed =>
    obtain ⟨hremoved, hgone⟩ := hran.discardFile (congrArg Prod.snd hdiscard)
    apply tidy_of_prune hbuilds hsite hvacant
    · refine ⟨hremoved.directory, hremoved.calls, hremoved.files.mono ?_⟩
      rintro other ⟨hother, hnone⟩
      exact .inl ⟨⟨hbuilds, _, List.mem_concat_self, hother⟩, hnone⟩
    · intro other seen hmem
      have hcall : other = workspace ∧ seen = source := by simpa using hmem
      exact hcall.1
    · intro program hmem
      have hprogram : program = job.tools.settings.executable workspace := by simpa using hmem
      rw [hprogram]
      exact hgone

theorem exists_tidy_of_builds (config : BuildConfig) (hbuilds : job.Builds)
    (hsite : site.WellFormed) :
    ∃ made, job.Tidy config site made (job.carryOut config site).2 ∧
      job.RunsWhatItBuilt config site made := by
  have hsource : job.options.source = .build false := hbuilds
  have hbuild := leaves_build config hbuilds hsite (job.request.program config.modelImport) site rfl
  rcases hbuild with
    ⟨probe, during, hrun, workspace, place, source, rfl, hvacant, hbuilt⟩ |
    ⟨error, after, hrun, made, hnone, htidy⟩
  · have hprepare : ((job.reflector config).prepare job.request job.options.source).carryOut site =
        (.ok (.ready (.built (job.tools.settings.executable workspace) workspace)), during) := by
      rw [hsource]
      exact carryOut_bind_of_ok hrun
    -- Neither what the probe printed nor how it ended makes a difference from here on.
    rw [carryOut, Reflector.snd_carryOut_reflect hprepare, siteAfter_runner]
    refine ⟨_, tidy_of_built hbuilds hsite hvacant hbuilt, fun program hmem => ?_⟩
    have hprogram : program = job.tools.settings.executable workspace := by simpa using hmem
    subst hprogram
    exact ⟨workspace, source, during, by simp, rfl, hrun, hbuilt.written⟩
  · have hprepare : ((job.reflector config).prepare job.request job.options.source).carryOut site =
        (.error error, after) := by
      rw [hsource]
      exact carryOut_bind_of_error hrun
    have hafter : (job.carryOut config site).2 = after :=
      congrArg Prod.snd (carryOut_bind_of_error hprepare)
    rw [hafter]
    exact ⟨made, htidy, fun program hmem => absurd hmem (hnone program)⟩

/-- Whatever becomes of a job, it leaves the site tidy. -/
theorem exists_tidy (job : Job) (config : BuildConfig) (hsite : site.WellFormed) :
    ∃ made, job.Tidy config site made (job.carryOut config site).2 ∧
      (job.Builds → job.RunsWhatItBuilt config site made) := by
  cases hsource : job.options.source with
  | prebuilt program =>
    have hbuilds : ¬ job.Builds := by
      simp [Builds, hsource]
    have hprepare : ((job.reflector config).prepare job.request job.options.source).carryOut site =
        (.ok (.ready (.prebuilt program)), site) := by
      rw [hsource]
      rfl
    have hafter : (job.carryOut config site).2 = site.record (.run program) :=
      Reflector.snd_carryOut_reflect hprepare
    rw [hafter]
    refine ⟨[.run program], ?_, fun h => absurd h hbuilds⟩
    exact ⟨rfl, rfl, Tree.Spared.refl hsite.closed, by simp, fun h => absurd h hbuilds⟩
  | build programOnly =>
    cases programOnly with
    | true =>
      have hbuilds : ¬ job.Builds := by
        simp [Builds, hsource]
      have hafter : (job.carryOut config site).2 = site := by
        rw [carryOut, Reflector.reflect, hsource]
        rfl
      rw [hafter]
      exact ⟨[], tidy_of_no_call hsite site.nextName, fun h => absurd h hbuilds⟩
    | false =>
      obtain ⟨made, htidy, hruns⟩ := exists_tidy_of_builds config hsource hsite
      exact ⟨made, htidy, fun _ => hruns⟩

/-- Where the executable of a workspace with a number is expected. -/
def executablePlace (job : Job) (config : BuildConfig) (site : Site) (number : Nat) : Place :=
  Place.ofPath site.directory (job.tools.settings.executable
    ((site.absolute config.workDirectory).join (Workspace.name number)))

/-- The directories on the way to the executable are there, no file is in its place, and a build
that writes it does not fail afterwards. -/
structure HasRoom (job : Job) (config : BuildConfig) (site : Site) : Prop where
  way : ∀ place, job.MakesWay site.directory place → site.files.get? place ≠ none
  executable : job.Builds → ∀ number contents mode,
    site.files.get? (job.executablePlace config site number) ≠ some (.file contents mode)
  finishes : job.Builds → (∃ contents, job.tools.build.written = some contents) →
    ∀ workspace error, job.tools.build.result workspace ≠ .error error

/-- A job that has room leaves every entry as it was. -/
theorem HasRoom.get?_carryOut (hroom : job.HasRoom config site) (hsite : site.WellFormed) :
    (job.carryOut config site).2.files.get? = site.files.get? := by
  obtain ⟨made, htidy, hruns⟩ := job.exists_tidy config hsite
  apply htidy.files.get?_eq hroom.way
  · rintro place contents mode ⟨hbuilds, program, hrun, rfl⟩
    obtain ⟨workspace, source, -, hbuild, rfl, -⟩ := hruns hbuilds program hrun
    obtain ⟨⟨number, rfl⟩, -⟩ := htidy.workspaces workspace source hbuild
    exact hroom.executable hbuilds number contents mode
  · rintro place node ⟨hbuilds, workspace, source, -, ⟨error, herror⟩, ⟨contents, hwritten, -⟩, -⟩
    exact hroom.finishes hbuilds ⟨contents, hwritten⟩ workspace error herror

theorem HasRoom.congr {other : Site} (hroom : job.HasRoom config site)
    (hfiles : other.files.get? = site.files.get?) (hdirectory : other.directory = site.directory) :
    job.HasRoom config other where
  way := by
    rw [hfiles, hdirectory]
    exact hroom.way
  executable hbuilds number contents mode := by
    have hplace : job.executablePlace config other number =
        job.executablePlace config site number := by
      rw [executablePlace, executablePlace, Site.absolute, Site.absolute, hdirectory]
    rw [hfiles, hplace]
    exact hroom.executable hbuilds number contents mode
  finishes := hroom.finishes

theorem wellFormed_carryOut (job : Job) (config : BuildConfig) (hsite : site.WellFormed) :
    (job.carryOut config site).2.WellFormed := by
  obtain ⟨made, htidy, -⟩ := job.exists_tidy config hsite
  refine ⟨htidy.files.closed, ?_⟩
  rw [htidy.directory]
  exact htidy.files.keeps _ hsite.get?_directory

end Job

namespace BuildConfig

variable (config : BuildConfig) {start : Site}

theorem siteAfter_concat (jobs : List Job) (job : Job) (start : Site) :
    config.siteAfter (jobs ++ [job]) start =
      (job.carryOut config (config.siteAfter jobs start)).2 := by
  rw [siteAfter, List.foldl_append]
  rfl

theorem wellFormed_siteAfter (jobs : List Job) (hstart : start.WellFormed) :
    (config.siteAfter jobs start).WellFormed := by
  induction jobs using List.reverseRecOn with
  | nil => exact hstart
  | append_singleton jobs job ih =>
    rw [siteAfter_concat]
    exact job.wellFormed_carryOut config ih

theorem directory_siteAfter (jobs : List Job) (hstart : start.WellFormed) :
    (config.siteAfter jobs start).directory = start.directory := by
  induction jobs using List.reverseRecOn with
  | nil => rfl
  | append_singleton jobs job ih =>
    obtain ⟨made, htidy, -⟩ := job.exists_tidy config (config.wellFormed_siteAfter jobs hstart)
    rw [siteAfter_concat, htidy.directory, ih]

/-- Jobs that have room leave every entry as it was. -/
theorem get?_siteAfter {jobs : List Job} (hstart : start.WellFormed)
    (hroom : ∀ job ∈ jobs, job.HasRoom config start) :
    (config.siteAfter jobs start).files.get? = start.files.get? := by
  -- The room that a job has at the start it still has after the others, since nothing changed.
  induction jobs using List.reverseRecOn with
  | nil => rfl
  | append_singleton jobs job ih =>
    have hbefore := ih fun other hother => hroom other (List.mem_append_left _ hother)
    have hlast := (hroom job List.mem_concat_self).congr hbefore
      (config.directory_siteAfter jobs hstart)
    rw [siteAfter_concat, hlast.get?_carryOut (config.wellFormed_siteAfter jobs hstart), hbefore]

end BuildConfig

/-- After any jobs, a job adds its calls to those before and leaves the file tree as it was, but for
new directories on the way to the executable that its build writes, a file that stood where it
ran what it built, and an executable that its build wrote before it failed.  Its workspace is gone,
and so is what it ran.  It ran what it built, at the path at which the toolchain puts executables.
Its result is the one that it has where no tool has
been called before; if the earlier jobs had room from the start, it is the one that it has at the
start, under the same name of the workspace; and with room for this job, too, the file tree is still
the one from the start. -/
theorem jobs_leave_no_residue (config : BuildConfig) (earlier : List Job) (job : Job)
    {start site after : Site} (hstart : start.WellFormed)
    (hsite : config.siteAfter earlier start = site)
    (hafter : (job.carryOut config site).2 = after) :
    (∃ made, job.Tidy config site made after ∧
      (job.Builds → job.RunsWhatItBuilt config site made)) ∧
    (job.carryOut config site).1 =
      (job.carryOut config { site with calls := [], printed := [] }).1 ∧
    ((∀ other ∈ earlier, other.HasRoom config start) →
      (job.carryOut config site).1 =
        (job.carryOut config
          { start with calls := [], nextName := site.nextName, printed := [] }).1 ∧
      (job.HasRoom config start → after.files.get? = start.files.get?)) := by
  subst hsite hafter
  have hformed := config.wellFormed_siteAfter earlier hstart
  have hdirectory := config.directory_siteAfter earlier hstart
  refine ⟨job.exists_tidy config hformed, ?_, fun hroom => ?_⟩
  · have halike : (config.siteAfter earlier start).Alike
        { config.siteAfter earlier start with calls := [], printed := [] } := ⟨rfl, rfl, rfl⟩
    exact (job.carryOut_congr config halike).1
  · have hfiles := config.get?_siteAfter hstart hroom
    have halike : (config.siteAfter earlier start).Alike { start with
        calls := [], nextName := (config.siteAfter earlier start).nextName, printed := [] } :=
      ⟨hfiles, hdirectory, rfl⟩
    refine ⟨(job.carryOut_congr config halike).1, fun hlast => ?_⟩
    rw [(hlast.congr hfiles hdirectory).get?_carryOut hformed, hfiles]

section Samples

/-- A job that builds for a project, with a probe that always ends in the same way. -/
def projectJob (probe : Except ExecutionError ProbeOutput) : Job where
  request := readerRequest
  options := {}
  tools := ⟨.ok "/project", .ok "", { written := some "probe" }, fun _ => probe⟩

/-- An empty work directory, and a project with a directory for executables. -/
def preparedDirectories : Site where
  files := ⟨[(["work"], .directory), (["project"], .directory), (["project", "bin"], .directory)]⟩

theorem wellFormed_preparedDirectories : preparedDirectories.WellFormed where
  closed := Tree.closed_of_entries (by decide)
  get?_directory := rfl

theorem hasRoom_preparedDirectories (config : BuildConfig)
    (probe : Except ExecutionError ProbeOutput) :
    (projectJob probe).HasRoom config preparedDirectories where
  way := by
    have hbin : (PathName.join "/project" "bin").components = ["project", "bin"] := by
      decide +kernel
    rintro place ⟨-, -, front, hfront, rfl⟩
    change front <+: (PathName.join "/project" "bin").components at hfront
    rw [hbin] at hfront
    rw [Tree.startOf, preparedDirectories, ite_self]
    simp only [List.prefix_cons_iff, List.prefix_nil] at hfront
    rcases hfront with rfl | ⟨_, rfl, rfl | ⟨_, rfl, rfl⟩⟩
    · decide +kernel
    · decide +kernel
    · decide +kernel
  executable _ number contents mode h := by
    have hbelow : (projectJob probe).executablePlace config preparedDirectories number ≠ [] := by
      intro hroot
      rw [hroot] at h
      cases h
    simpa [preparedDirectories] using Tree.mem_entries_of_get? hbelow h
  finishes _ _ _ _ h := by cases h

/-- A job whose probe reports a package without interfaces. -/
def reportingJob : Job := projectJob (.ok ⟨.success, some 0, 0, encode ⟨"p", []⟩⟩)

/-- After a job whose probe cannot be started, another one leaves the prepared directories as they
are and gives what it would have given first. -/
theorem jobs_leave_no_residue_in_prepared_directories :
    preparedDirectories.WellFormed ∧
    ∃ site after, BuildConfig.siteAfter { workDirectory := "/work" }
        [projectJob (.error (.spawnFailed "no"))] preparedDirectories = site ∧
      (reportingJob.carryOut { workDirectory := "/work" } site).2 = after ∧
      (∃ made, reportingJob.Tidy { workDirectory := "/work" } site made after) ∧
      (reportingJob.carryOut { workDirectory := "/work" } site).1 =
        (reportingJob.carryOut { workDirectory := "/work" } { preparedDirectories with
          calls := [], nextName := site.nextName, printed := [] }).1 ∧
      after.files.get? = preparedDirectories.files.get? := by
  obtain ⟨⟨made, htidy, -⟩, -, hroom⟩ := jobs_leave_no_residue { workDirectory := "/work" }
    [projectJob (.error (.spawnFailed "no"))] reportingJob wellFormed_preparedDirectories rfl rfl
  obtain ⟨hresult, hfiles⟩ := hroom fun other hother => by
    rw [List.mem_singleton.1 hother]
    exact hasRoom_preparedDirectories _ _
  exact ⟨wellFormed_preparedDirectories, _, _, rfl, rfl, ⟨made, htidy⟩, hresult,
    hfiles (hasRoom_preparedDirectories _ _)⟩

/-- A job for a project that is missing, inside of the work directory. -/
def nestedProjectJob : Job where
  request := readerRequest
  options := {}
  tools := ⟨.ok "/work/sub", .ok "", { written := some "probe" },
    fun _ => .error (.spawnFailed "no")⟩

/-- A job whose settings lead from the workspace to another file, and whose build writes nothing. -/
def strayJob : Job where
  request := readerRequest
  options := {}
  tools := ⟨.ok "/project", .ok "/../victim", {}, fun _ => .error (.spawnFailed "no")⟩

/-- A job whose build writes the executable and then fails. -/
def strandingJob : Job where
  request := readerRequest
  options := {}
  tools := ⟨.ok "/project", .ok "",
    { written := some "probe", result := fun workspace => .error (.buildFailed workspace "no") },
    fun _ => .error (.spawnFailed "no")⟩

/-- A project with an executable that was not built by a job. -/
def occupiedProject : Site where
  files := ⟨[(["project"], .directory), (["project", "bin"], .directory),
    (["project", "bin", "victim"], .file [] InMemoryToolchain.executableMode)]⟩

/-- None of the exceptions can be left out.  The first job adds an entry to its work directory that
is not the directory of the executables, and it stays; the second takes away a file that no build
has written; the third leaves the executable that its build has written. -/
theorem residue_outside_of_bin :
    (emptyDirectories.WellFormed ∧ emptyDirectories.files.get? ["work", "sub"] = none ∧
      (nestedProjectJob.carryOut { workDirectory := "/work" } emptyDirectories).2.files.get?
          ["work", "sub"] = some .directory ∧
      Place.ofPath [] nestedProjectJob.tools.settings.binDirectory ≠ ["work", "sub"]) ∧
    (occupiedProject.WellFormed ∧
      occupiedProject.files.get? ["project", "bin", "victim"] =
        some (.file [] InMemoryToolchain.executableMode) ∧
      (strayJob.carryOut { workDirectory := "/project/bin" } occupiedProject).2.files.get?
          ["project", "bin", "victim"] = none) ∧
    preparedDirectories.WellFormed ∧
      preparedDirectories.files.get? ["project", "bin", "mockprobe_reflect_000000"] = none ∧
      (strandingJob.carryOut { workDirectory := "/work" } preparedDirectories).2.files.get?
          ["project", "bin", "mockprobe_reflect_000000"] =
        some (.file (utf8 "probe") InMemoryToolchain.executableMode) := by
  refine ⟨⟨⟨Tree.closed_of_entries (by decide), rfl⟩, rfl, ?_, ?_⟩,
    ⟨⟨Tree.closed_of_entries (by decide), rfl⟩, rfl, ?_⟩, wellFormed_preparedDirectories, rfl, ?_⟩
  · decide +kernel
  · decide +kernel
  · decide +kernel
  · decide +kernel

end Samples

end InterfaceProbe
