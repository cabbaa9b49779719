/-
# The order of calls

A reflection calls its tools in one order: it asks for the project directory and
for the suffix of executables, has the workspace built, and runs the executable
at the path that the two answers and the workspace give.  It stops at the first
failure.  With a probe that was there before there is one call, and none if only
the program is asked for.

The tools are any functions of the site, so nothing is known of their answers
but where they were given.  What is required is that the operations on files
succeed: a `FilledWorkspace` says so for the time before the first question,
`Removable` for the time after the run, when the tools may have done anything to
the files.  The program is still in the workspace at the build unless a question
changed it there.
-/

import InterfaceProbe.Pipeline.InMemory
import InterfaceProbe.Proofs.Json.StringLiteral
import InterfaceProbe.Proofs.Pipeline.Attempts

namespace InterfaceProbe

open Reflection

/-- What a probe that was run gives, unless it failed. -/
def described (output : Bytes) : Except ReflectError ReflectOutcome :=
  match decode output with
  | .ok package => .ok (.package package)
  | .error error => .error (.ofDecodeError error)

/-- What a toolchain answers while it builds the program in a workspace. -/
structure BuildAnswers where
  project : Except ToolchainError String
  suffix : Except ToolchainError String
  /-- The program that the build finds. -/
  source : Option String
  build : Except ToolchainError Unit

/-- The executable that the answers lead to. -/
def BuildAnswers.executable (answers : BuildAnswers) (workspace : PathName) : PathName :=
  resolveExecutable (answers.project.toOption.getD "") workspace
    (answers.suffix.toOption.getD "")

/-- The attempts of building the program in a workspace. -/
def BuildAnswers.attempts (answers : BuildAnswers) (workspace : PathName) : List Attempt :=
  [⟨.query projectDirectoryKey, failureOf .toolchainQuery answers.project⟩,
    ⟨.query executableSuffixKey, failureOf .toolchainQuery answers.suffix⟩,
    ⟨.build workspace answers.source, failureOf .build answers.build⟩]

/-- All that a toolchain may be asked for in order to build the program in a workspace, whatever
it answers.  After a failure nothing more is looked at. -/
def Toolchain.consult (toolchain : Toolchain) (workspace : PathName) :
    StateM Site BuildAnswers := do
  let project ← toolchain.ask projectDirectoryKey
  let suffix ← toolchain.ask executableSuffixKey
  let source := (← get).text? (workspace.join Program.fileName)
  let build ← toolchain.make workspace
  return { project, suffix, source, build }

/-- The one attempt of running a probe. -/
def Runner.attempt (runner : Runner) (program : PathName) (site : Site) : Attempt :=
  ⟨.run program, runFailure program (runner.run program (site.record (.run program)))⟩

/-- What a probe prints when it is run. -/
def Runner.printed (runner : Runner) (program : PathName) (site : Site) : Bytes :=
  printedBy (runner.run program (site.record (.run program)))

/-- The site after a probe was run: the call is recorded, and the files are as the run left
them. -/
def Runner.siteAfter (runner : Runner) (program : PathName) (site : Site) : Site :=
  { site.record (.run program) with files := runner.afterRun program (site.record (.run program)) }

@[simp] theorem Runner.calls_siteAfter (runner : Runner) (program : PathName) (site : Site) :
    (runner.siteAfter program site).calls = site.calls ++ [.run program] := rfl

theorem Runner.carryOut_output (runner : Runner) (program : PathName) (site : Site) :
    (runner.output program).carryOut site =
      ((runner.attempt program site).failure.elim (.ok (runner.printed program site)) .error,
        runner.siteAfter program site) := by
  have hstart : (of (.exec program) (runner.start program)).carryOut site =
      ((runner.run program (site.record (.run program))).mapError (.exec program),
        runner.siteAfter program site) :=
    carryOut_of _ _ site
  rw [Runner.output, attempt, printed]
  cases hprobe : runner.run program (site.record (.run program)) with
  | error error =>
    rw [hprobe] at hstart
    exact carryOut_bind_of_error hstart
  | ok output =>
    rw [hprobe] at hstart
    rw [carryOut_bind_of_ok hstart, runFailure]
    cases output.status <;> rfl

/-- A workspace made at a site, with the program in it. -/
structure FilledWorkspace (workDirectory : PathName) (program : String) (site : Site) where
  path : PathName
  /-- The site with the empty workspace. -/
  made : Site
  /-- The site with the program in the workspace. -/
  filled : Site
  make_eq : (Workspace.make workDirectory).carryOut site = (.ok path, made)
  put_eq : (Workspace.put path program).carryOut made = (.ok (), filled)

namespace FilledWorkspace

variable {workDirectory : PathName} {program : String} {site : Site}

section Filled

variable (workspace : FilledWorkspace workDirectory program site)

end Filled

variable (workspace : FilledWorkspace workDirectory program site) (reflector : Reflector)

/-- What the toolchain answers while the program is built. -/
def answers : BuildAnswers :=
  ((reflector.toolchain.consult workspace.path).run workspace.filled).1

/-- The site after the build. -/
def built : Site :=
  ((reflector.toolchain.consult workspace.path).run workspace.filled).2

/-- The path at which the executable is run. -/
def executable : PathName := (workspace.answers reflector).executable workspace.path

/-- The attempts of building the program and running the executable. -/
def attempts : List Attempt :=
  (workspace.answers reflector).attempts workspace.path ++
    [reflector.runner.attempt (workspace.executable reflector) (workspace.built reflector)]

end FilledWorkspace

/-- A workspace is filled when making it and putting the program into it succeed. -/
def FilledWorkspace.of {workDirectory : PathName} {program : String} {site : Site} (path : PathName)
    (hmake : ((Workspace.make workDirectory).carryOut site).1 = .ok path)
    (hput : ((Workspace.put path program).carryOut
      ((Workspace.make workDirectory).carryOut site).2).1 = .ok ()) :
    FilledWorkspace workDirectory program site where
  path := path
  made := ((Workspace.make workDirectory).carryOut site).2
  filled := ((Workspace.put path program).carryOut
    ((Workspace.make workDirectory).carryOut site).2).2
  make_eq := carryOut_of_fst hmake
  put_eq := carryOut_of_fst hput

section Reflector

variable {reflector : Reflector} {request : ProbeRequest} {options : ReflectOptions}
  {program : String} {site : Site}

/-- A probe that was there before is only run. -/
theorem Reflector.carryOut_outputOf_prebuilt (program : PathName) (site : Site) :
    (reflector.outputOf (.prebuilt program)).carryOut site =
      ((reflector.runner.attempt program site).failure.elim
        (.ok (reflector.runner.printed program site)) .error,
        reflector.runner.siteAfter program site) := by
  have houtput := reflector.runner.carryOut_output program site
  cases hfailure : (reflector.runner.attempt program site).failure with
  | none =>
    rw [hfailure] at houtput
    exact carryOut_bind_of_ok (carryOut_orElseDo_of_ok houtput)
  | some error =>
    rw [hfailure] at houtput
    exact carryOut_bind_of_error (carryOut_orElseDo_of_error houtput)

end Reflector

/-- A site with an empty work directory and an empty project. -/
def emptyDirectories : Site := { files := ⟨[(["work"], .directory), (["project"], .directory)]⟩ }

def readerRequest : ProbeRequest := ⟨"io", ["Reader"]⟩

end InterfaceProbe
