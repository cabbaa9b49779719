/-
# Where the report of a probe goes

With a probe that was built before, the command runs it and shows what it
reports, or nothing at all.  The report is complete and goes to one place: to
the file if one is given, and to standard output otherwise.  A probe that does
not succeed has no report, whatever it printed, and neither has output that
cannot be decoded.  A program that is asked for goes to standard output, and no
file is touched.

A probe is a program and may change files itself, whether or not it succeeds.
So the files after the command are compared with those that the probe left.

Of a file that is given it is required that it can be written.  What goes to
standard error is left open.  What was printed before the command stays in front
of what it prints.
-/

import InterfaceProbe.CommandLine.Run
import InterfaceProbe.Proofs.Pipeline.CallOrder
import InterfaceProbe.Proofs.Wire.Rewriting

namespace InterfaceProbe

open Reflection

section Reflections

variable {reflector : Reflector} {request : ProbeRequest} {options : ReflectOptions}
  {source : String} {probe : PreparedProbe} {site middle after : Site} {output : Bytes}
  {error : ReflectError}

theorem Reflector.carryOut_reflect_of_programOnly
    (hprepare : (reflector.prepare request options.source).carryOut site =
      (.ok (.programOnly source), after)) :
    (reflector.reflect request options).carryOut site = (.ok (.programOnly source), after) := by
  rw [reflect, carryOut_bind_of_ok hprepare, carryOut_pure]

theorem Reflector.carryOut_reflect_of_output
    (hprepare : (reflector.prepare request options.source).carryOut site =
      (.ok (.ready probe), middle))
    (houtput : (reflector.outputOf probe).carryOut middle = (.ok output, after)) :
    (reflector.reflect request options).carryOut site = (described output, after) := by
  rw [reflect, carryOut_bind_of_ok hprepare, carryOut_bind_of_ok houtput, described]
  cases decode output <;> rfl

theorem Reflector.carryOut_reflect_of_failure
    (hprepare : (reflector.prepare request options.source).carryOut site =
      (.ok (.ready probe), middle))
    (houtput : (reflector.outputOf probe).carryOut middle = (.error error, after)) :
    (reflector.reflect request options).carryOut site = (.error error, after) := by
  rw [reflect, carryOut_bind_of_ok hprepare]
  exact carryOut_bind_of_error houtput

end Reflections

namespace Host

/-- The probe can be started and exits with status 0, having printed the given bytes. -/
def Prints (host : Host) (site : Site) (program : PathName) (output : Bytes) : Prop :=
  ∃ response, host.start site (probeCommand program) = .ok response ∧
    response.ending = .exited 0 ∧ response.stdout = output

/-- The site as a run of the probe leaves it: the call is recorded, and the files are those that the
probe left, however it ended.  A probe that cannot be started leaves them as they were. -/
def siteAfterProbe (host : Host) (site : Site) (program : PathName) : Site :=
  match host.start site (probeCommand program) with
  | .ok response => { site.record (.run program) with files := response.files }
  | .error _ => site.record (.run program)

theorem siteAfter_runner (host : Host) (clock : Clock) (program : PathName) (site : Site) :
    (host.runner clock).siteAfter program site = host.siteAfterProbe site program := by
  -- the call is only recorded, so the probe starts as it does at the site itself
  change { site.record (.run program) with files := host.filesAfter site (probeCommand program) } = _
  rw [filesAfter, siteAfterProbe]
  cases host.start site (probeCommand program) <;> rfl

theorem printed_siteAfterProbe (host : Host) (site : Site) (program : PathName) :
    (host.siteAfterProbe site program).printed = site.printed := by
  rw [siteAfterProbe]
  cases host.start site (probeCommand program) <;> rfl

/-- The probe succeeds, and what it prints describes the package. -/
def Reports (host : Host) (site : Site) (program : PathName) (package : Package) : Prop :=
  ∃ output, host.Prints site program output ∧ decode output = .ok package

variable {host : Host} {clock : Clock} {options : ReflectOptions} {program : PathName} {site : Site}
  {output : Bytes} {package : Package}

/-- A run of a probe that succeeds has what it printed, any other has a failure. -/
theorem attempt_cases (host : Host) (clock : Clock) (program : PathName) (site : Site) :
    (((host.runner clock).attempt program site).failure = none ∧
      host.Prints site program ((host.runner clock).printed program site)) ∨
    (∃ error, ((host.runner clock).attempt program site).failure = some error) ∧
      ∀ output, ¬ host.Prints site program output := by
  -- the call is only recorded, so the probe starts as it does at the site itself
  have hrun : (host.runner clock).run program (site.record (.run program)) =
      host.runProbe clock program site := rfl
  rw [Runner.attempt, Runner.printed, hrun, runProbe]
  cases hstart : host.start site (probeCommand program) with
  | error error =>
      refine .inr ⟨⟨_, rfl⟩, fun output hprints => ?_⟩
      obtain ⟨response, hresponse, -⟩ := hprints
      cases hstart.symm.trans hresponse
  | ok response =>
      by_cases hending : response.ending = .exited 0
      · exact .inl ⟨by simp [runFailure, Ending.isSuccess, hending],
          response, hstart, hending, rfl⟩
      · refine .inr ⟨⟨_, by simp [runFailure, Ending.isSuccess, hending]; rfl⟩,
          fun output hprints => ?_⟩
        obtain ⟨other, hother, hexited, -⟩ := hprints
        cases hstart.symm.trans hother
        exact hending hexited

theorem Prints.unique {other : Bytes} (h : host.Prints site program output)
    (hother : host.Prints site program other) : output = other := by
  obtain ⟨response, hstart, -, rfl⟩ := h
  obtain ⟨_, hsame, -, rfl⟩ := hother
  cases hstart.symm.trans hsame
  rfl

/-- A reflection with a probe that was built before ends with the package that the probe reports, or
with an error; the site is then as the probe left it. -/
theorem carryOut_reflect_cases (reflector : Reflector)
    (hrunner : reflector.runner = host.runner clock) (hexec : options.execOnly = some program)
    (request : ProbeRequest) (site : Site) :
    (∃ package, host.Reports site program package ∧
      (reflector.reflect request options).carryOut site =
        (.ok (.package package), host.siteAfterProbe site program)) ∨
    (∀ package, ¬ host.Reports site program package) ∧
      ∃ error, (reflector.reflect request options).carryOut site =
        (.error error, host.siteAfterProbe site program) := by
  have hprepare : (reflector.prepare request options.source).carryOut site =
      (.ok (.ready (.prebuilt program)), site) := by
    rw [ReflectOptions.source, hexec]
    rfl
  have houtput := reflector.carryOut_outputOf_prebuilt program site
  rw [hrunner, siteAfter_runner] at houtput
  rcases host.attempt_cases clock program site with ⟨hnone, hprints⟩ | ⟨⟨error, hsome⟩, hnot⟩
  · rw [hnone] at houtput
    have hreflect := Reflector.carryOut_reflect_of_output hprepare houtput
    cases hdecode : decode ((host.runner clock).printed program site) with
    | ok package =>
        rw [described, hdecode] at hreflect
        exact .inl ⟨package, ⟨_, hprints, hdecode⟩, hreflect⟩
    | error error =>
        rw [described, hdecode] at hreflect
        refine .inr ⟨fun package hreports => ?_, _, hreflect⟩
        obtain ⟨output, hother, hpackage⟩ := hreports
        rw [hother.unique hprints, hdecode] at hpackage
        cases hpackage
  · rw [hsome] at houtput
    exact .inr ⟨fun package hreports => hnot _ hreports.choose_spec.1, error,
      Reflector.carryOut_reflect_of_failure hprepare houtput⟩

theorem Reports.unique {other : Package} (h : host.Reports site program package)
    (hother : host.Reports site program other) : package = other := by
  obtain ⟨output, hprints, hpackage⟩ := h
  obtain ⟨_, hsame, hotherPackage⟩ := hother
  rw [hsame.unique hprints, hpackage] at hotherPackage
  exact Except.ok.inj hotherPackage

end Host

namespace CommandOptions

variable {options : CommandOptions} {host : Host} {environment : Environment} {site after : Site}
  {error : ReflectError} {source : String} {package : Package} {path : PathName} {files : Tree}

theorem report_of_json (h : options.format = .json) (colour : Bool) (package : Package) :
    options.report colour package = package.jsonReport := by
  rw [report, h]

theorem report_of_table (h : options.format = .table) (colour : Bool) (package : Package) :
    options.report colour package = package.tableReport colour := by
  rw [report, h]

theorem run_perform_of_error
    (h : ((options.reflector host environment).reflect options.request options.reflect).carryOut
      site = (.error error, after)) :
    ∃ stderr, (options.perform host environment).run site =
      ({ exitStatus := 1, stderr := stderr }, after) := by
  refine ⟨(failedCommand environment.colour
    (["reflecting on " ++ options.request.importPath, error.message] ++
      error.cause?.toList)).stderr, ?_⟩
  rw [carryOut] at h
  simp only [perform, StateT.run_bind, h]
  rfl

theorem run_perform_of_programOnly
    (h : ((options.reflector host environment).reflect options.request options.reflect).carryOut
      site = (.ok (.programOnly source), after)) :
    (options.perform host environment).run site =
      ({ exitStatus := 0, stdout := utf8 source }, after) := by
  rw [carryOut] at h
  simp only [perform, StateT.run_bind, h]
  rfl

theorem run_perform_of_shown
    (h : ((options.reflector host environment).reflect options.request options.reflect).carryOut
      site = (.ok (.package package), after)) (houtput : options.output = none) :
    (options.perform host environment).run site =
      ({ exitStatus := 0, stdout := utf8 (options.report environment.colour package) }, after) := by
  rw [carryOut] at h
  simp only [perform, StateT.run_bind, h, houtput]
  rfl

theorem run_perform_of_written
    (h : ((options.reflector host environment).reflect options.request options.reflect).carryOut
      site = (.ok (.package package), after)) (houtput : options.output = some path)
    (hwrite : after.files.writeFile after.directory path
      (utf8 (options.report environment.colour package)) = .ok files) :
    (options.perform host environment).run site =
      ({ exitStatus := 0 }, { after with files := files }) := by
  have hchange : (Site.change fun files start => files.writeFile start path
      (utf8 (options.report environment.colour package))).run after =
        (.ok (), { after with files := files }) := by
    rw [Site.run_change, hwrite]
    rfl
  rw [carryOut] at h
  simp only [perform, StateT.run_bind, h, houtput]
  change StateT.run (Site.change _ >>= _) after = _
  rw [StateT.run_bind, hchange]
  rfl

/-- The file that is to receive the report, if there is one, can be written. -/
def CanWrite (options : CommandOptions) (site : Site) : Prop :=
  ∀ path, options.output = some path →
    ∀ contents, ∃ files, site.files.writeFile site.directory path contents = .ok files

/-- The report goes to the file and nowhere else, or to standard output if no file is given.  The
file then holds the report alone, and every other place is as it was at the first site. -/
def Delivers (options : CommandOptions) (report : String) (site : Site) (result : CommandResult)
    (after : Site) : Prop :=
  match options.output with
  | none => result.stdout = site.printed ++ utf8 report ∧ after.files = site.files
  | some path => result.stdout = site.printed ∧
      after.files.contentsAt site.directory path = .ok (utf8 report) ∧
      ∃ place, site.files.Names site.directory path place ∧
        ∀ other, other ≠ place → after.files.get? other = site.files.get? other

end CommandOptions

namespace Invocation

variable {invocation : Invocation} {options : CommandOptions} {host : Host} {site after : Site}
  {result : CommandResult} {program : PathName} {package : Package}

theorem run_eq
    (hoptions : CommandOptions.parse invocation.arguments invocation.environment = .ok options)
    (hperform : (options.perform host invocation.environment).run site = (result, after)) :
    (invocation.run host).run site =
      ({ result with stdout := after.printed ++ result.stdout }, after) := by
  rw [run, hoptions]
  dsimp only
  rw [StateT.run_bind, hperform]
  rfl

/-- A program that is asked for is shown, and nothing else happens. -/
theorem run_of_programOnly
    (hoptions : CommandOptions.parse invocation.arguments invocation.environment = .ok options)
    (hreflect : options.reflect = { programOnly := true }) :
    (invocation.run host).run site =
      ({ exitStatus := 0,
         stdout := site.printed ++ utf8 (options.request.program options.config.modelImport) },
        site) := by
  have hprepare :
      ((options.reflector host invocation.environment).prepare options.request
        options.reflect.source).carryOut site =
      (.ok (.programOnly (options.request.program options.config.modelImport)), site) := by
    rw [ReflectOptions.source, hreflect]
    rfl
  exact run_eq hoptions (CommandOptions.run_perform_of_programOnly
    (Reflector.carryOut_reflect_of_programOnly hprepare))

theorem run_of_no_report
    (hoptions : CommandOptions.parse invocation.arguments invocation.environment = .ok options)
    (hexec : options.reflect.execOnly = some program)
    (h : ∀ package, ¬ host.Reports site program package) :
    ∃ stderr, (invocation.run host).run site =
      ({ exitStatus := 1, stdout := site.printed, stderr := stderr },
        host.siteAfterProbe site program) := by
  rcases Host.carryOut_reflect_cases (options.reflector host invocation.environment)
    rfl hexec options.request site with ⟨package, hreports, -⟩ | ⟨-, error, hreflect⟩
  · exact absurd hreports (h package)
  · obtain ⟨stderr, hperform⟩ := CommandOptions.run_perform_of_error hreflect
    refine ⟨stderr, (run_eq hoptions hperform).trans ?_⟩
    rw [List.append_nil, Host.printed_siteAfterProbe]

theorem run_of_report
    (hoptions : CommandOptions.parse invocation.arguments invocation.environment = .ok options)
    (hexec : options.reflect.execOnly = some program)
    (hwritable : options.CanWrite (host.siteAfterProbe site program))
    (h : host.Reports site program package) :
    ∃ result after, (invocation.run host).run site = (result, after) ∧ result.exitStatus = 0 ∧
      options.Delivers (options.report invocation.environment.colour package)
        (host.siteAfterProbe site program) result after := by
  rcases Host.carryOut_reflect_cases (options.reflector host invocation.environment)
    rfl hexec options.request site with ⟨other, hother, hreflect⟩ | ⟨hnot, -⟩
  · obtain rfl := h.unique hother
    unfold CommandOptions.Delivers
    cases houtput : options.output with
    | none =>
        exact ⟨_, _, run_eq hoptions (CommandOptions.run_perform_of_shown hreflect houtput), rfl,
          rfl, rfl⟩
    | some path =>
        obtain ⟨files, hwrite⟩ := hwritable path houtput
          (utf8 (options.report invocation.environment.colour package))
        obtain ⟨place, mode, hnames, hslash, hnode, hfiles⟩ := Tree.exists_of_writeFile hwrite
        refine ⟨_, _, run_eq hoptions
          (CommandOptions.run_perform_of_written hreflect houtput hwrite), rfl,
          List.append_nil _, ?_, place, hnames, fun other hne => ?_⟩
        · exact Tree.contentsAt_eq_ok_iff.2
            ⟨place, mode, hfiles ▸ hnames.find_insert hslash hnode _ mode⟩
        · rw [hfiles, Tree.get?_insert, if_neg fun h => hne h.2]
  · exact absurd h (hnot package)

end Invocation

/-- A command that runs a probe that was built before succeeds exactly if the probe does and prints
a report, and then the report, in the format asked for, goes to the one place it is to go to.  In
every other case the exit status is 1, nothing is shown and the files are as the probe left them.  A
command that is to give the program gives it, whatever the format, and changes no file. -/
theorem report_is_delivered_or_nothing (invocation : Invocation) (host : Host) (site : Site)
    (options : CommandOptions)
    (hoptions : CommandOptions.parse invocation.arguments invocation.environment = .ok options) :
    ∃ result after, (invocation.run host).run site = (result, after) ∧
      (∀ program, options.reflect.execOnly = some program →
        (options.CanWrite (host.siteAfterProbe site program) →
          (result.exitStatus = 0 ↔ ∃ package, host.Reports site program package) ∧
          ∀ package, host.Reports site program package →
            (options.format = .json → options.Delivers package.jsonReport
              (host.siteAfterProbe site program) result after) ∧
            (options.format = .table →
              options.Delivers (package.tableReport invocation.environment.colour)
                (host.siteAfterProbe site program) result after)) ∧
        ((∀ package, ¬ host.Reports site program package) →
          result.exitStatus = 1 ∧ result.stdout = site.printed ∧
            after.files = (host.siteAfterProbe site program).files)) ∧
      (options.reflect.execOnly = none → options.reflect.programOnly = true →
        result.exitStatus = 0 ∧
        result.stdout = site.printed ++
          utf8 (options.request.program options.config.modelImport) ∧
        after.files = site.files) := by
  obtain ⟨result, after, hrun⟩ : ∃ result after, (invocation.run host).run site = (result, after) :=
    ⟨_, _, rfl⟩
  refine ⟨result, after, hrun, fun program hexec => ?_, fun hexec honly => ?_⟩
  · have hsilent : (∀ package, ¬ host.Reports site program package) →
        result.exitStatus = 1 ∧ result.stdout = site.printed ∧
          after.files = (host.siteAfterProbe site program).files := by
      intro hnot
      obtain ⟨stderr, hfailed⟩ := Invocation.run_of_no_report hoptions hexec hnot
      obtain ⟨rfl, rfl⟩ := Prod.mk.inj (hrun.symm.trans hfailed)
      exact ⟨rfl, rfl, rfl⟩
    have hreported : ∀ package, options.CanWrite (host.siteAfterProbe site program) →
        host.Reports site program package → result.exitStatus = 0 ∧
          options.Delivers (options.report invocation.environment.colour package)
            (host.siteAfterProbe site program) result after := by
      intro package hwritable hpackage
      obtain ⟨_, _, hdelivered, hstatus, hdelivers⟩ :=
        Invocation.run_of_report hoptions hexec hwritable hpackage
      obtain ⟨rfl, rfl⟩ := Prod.mk.inj (hrun.symm.trans hdelivered)
      exact ⟨hstatus, hdelivers⟩
    refine ⟨fun hwritable => ⟨⟨fun hstatus => ?_, ?_⟩, fun package hpackage => ⟨?_, ?_⟩⟩, hsilent⟩
    · by_contra hnone
      exact Nat.one_ne_zero ((hsilent (not_exists.1 hnone)).1.symm.trans hstatus)
    · rintro ⟨package, hpackage⟩
      exact (hreported package hwritable hpackage).1
    · exact fun hformat => CommandOptions.report_of_json hformat _ package ▸
        (hreported package hwritable hpackage).2
    · exact fun hformat => CommandOptions.report_of_table hformat _ package ▸
        (hreported package hwritable hpackage).2
  · have hreflect : options.reflect = { programOnly := true } := by
      rw [← hexec, ← honly]
    obtain ⟨rfl, rfl⟩ :=
      Prod.mk.inj (hrun.symm.trans (Invocation.run_of_programOnly hoptions hreflect))
    exact ⟨rfl, rfl, rfl⟩

section Sample

/-- A host whose programs all print a report and leave a trace in the root directory.  A byte in
the file of a program is the signal that the program sends itself last. -/
def reportingHost : Host where
  programs contents := some fun _ _ files =>
    { stdout := encode ⟨"p", []⟩
      ending := match contents with
        | [] => .exited 0
        | signal :: _ => .bySignal signal.toNat
      files := files.insert ["trace"] (.file [] 0o644) }

/-- A site with a probe that succeeds, one that dies by a signal, and a file for the report. -/
def siteWithProbes : Site where
  files := ⟨[(["good"], .file [] 0o755), (["bad"], .file [11] 0o755),
    (["out"], .file (utf8 "old") 0o644)]⟩

/-- The command for a probe, with a file for the report. -/
def runningProbe (program : PathName) : Invocation where
  arguments := ["--exec-only", program, "--output=/out", "--format", "table", "io", "Reader"]

/-- The wishes behind that command. -/
def probeOptions (program : PathName) : CommandOptions where
  request := readerRequest
  reflect := { execOnly := some program }
  gb := "gb"
  config := {}
  format := .table
  output := some "/out"

/-- The command for the program alone, with a file for a report that there is not. -/
def askingForProgram : Invocation where
  arguments := ["--prog-only", "-o", "/out", "io", "Reader"]

theorem good_reports : reportingHost.Reports siteWithProbes "/good" ⟨"p", []⟩ := by
  refine ⟨encode ⟨"p", []⟩, ⟨_, rfl, rfl, rfl⟩, ?_⟩
  rw [decode_encode, readPackage_compact (by decide)]

theorem bad_reports_nothing (package : Package) :
    ¬ reportingHost.Reports siteWithProbes "/bad" package := by
  rintro ⟨output, ⟨response, hstart, hending, -⟩, -⟩
  cases hstart
  cases hending

theorem report_is_delivered_or_nothing_of_probes :
    (∃ result after,
      ((runningProbe "/good").run reportingHost).run siteWithProbes = (result, after) ∧
      result.exitStatus = 0 ∧ result.stdout = [] ∧
      after.files.contentsAt [] "/out" = .ok (utf8 (Package.tableReport false ⟨"p", []⟩))) ∧
    (∃ result after,
      ((runningProbe "/bad").run reportingHost).run siteWithProbes = (result, after) ∧
      result.exitStatus = 1 ∧ result.stdout = [] ∧
      after.files = siteWithProbes.files.insert ["trace"] (.file [] 0o644)) ∧
    ∃ result after, (askingForProgram.run reportingHost).run siteWithProbes = (result, after) ∧
      result.exitStatus = 0 ∧
      result.stdout = utf8 (readerRequest.program Program.standardModelImport) ∧
      after.files = siteWithProbes.files := by
  refine ⟨?_, ?_, ?_⟩
  · have hwritable :
        (probeOptions "/good").CanWrite (reportingHost.siteAfterProbe siteWithProbes "/good") := by
      rintro _ ⟨⟩ contents
      exact ⟨_, rfl⟩
    obtain ⟨result, after, hrun, hprobe, -⟩ := report_is_delivered_or_nothing
      (runningProbe "/good") reportingHost siteWithProbes (probeOptions "/good") rfl
    obtain ⟨hstatus, hdelivers⟩ := (hprobe "/good" rfl).1 hwritable
    obtain ⟨hstdout, hfile, -⟩ := (hdelivers _ good_reports).2 rfl
    exact ⟨result, after, hrun, hstatus.2 ⟨_, good_reports⟩, hstdout, hfile⟩
  · obtain ⟨result, after, hrun, hprobe, -⟩ := report_is_delivered_or_nothing
      (runningProbe "/bad") reportingHost siteWithProbes (probeOptions "/bad") rfl
    exact ⟨result, after, hrun, (hprobe "/bad" rfl).2 bad_reports_nothing⟩
  · obtain ⟨result, after, hrun, -, hprogram⟩ := report_is_delivered_or_nothing
      askingForProgram reportingHost siteWithProbes
      { probeOptions "" with reflect := { programOnly := true }, format := .json } rfl
    exact ⟨result, after, hrun, hprogram rfl rfl⟩

end Sample

end InterfaceProbe
