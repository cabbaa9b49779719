/-
# Reflection

A reflection turns a request into the description of a package.  The stages
follow one another, and the first one that fails ends the reflection:

* the program is rendered, put into a fresh workspace and built,
* the executable is run and has to succeed,
* the workspace and the executable are removed,
* the output of the probe is decoded.

A probe that was built before stands for the first stage.  If only the program
is asked for, rendering it is all that happens.  Whatever fails, nothing that
was made on the way is left behind.
-/

import InterfaceProbe.Pipeline.Workspace

namespace InterfaceProbe

/-- The setting that holds the project's directory. -/
def projectDirectoryKey : String := "GB_PROJECT_DIR"

/-- The setting that holds the suffix of executables. -/
def executableSuffixKey : String := "GB_BIN_SUFFIX"

/-- How probes are built. -/
structure BuildConfig where
  /-- The directory in which workspaces are made. -/
  workDirectory : PathName := "."
  /-- The import path of the model package. -/
  modelImport : String := Program.standardModelImport
  deriving DecidableEq, Repr

/-- Where a probe comes from. -/
inductive ProbeSource
  /-- It is built, or only its program is rendered. -/
  | build (programOnly : Bool)
  /-- It was built before. -/
  | prebuilt (program : PathName)
  deriving DecidableEq, Repr

/-- What a preparation gives. -/
inductive Preparation
  | programOnly (source : String)
  | ready (probe : PreparedProbe)
  deriving DecidableEq, Repr

/-- What a reflection is asked for besides the request. -/
structure ReflectOptions where
  programOnly : Bool := false
  /-- A probe that was built before. -/
  execOnly : Option PathName := none
  deriving DecidableEq, Repr

/-- A probe that was built before comes before a request for the program alone. -/
def ReflectOptions.source (options : ReflectOptions) : ProbeSource :=
  match options.execOnly with
  | some program => .prebuilt program
  | none => .build options.programOnly

/-- What a reflection gives. -/
inductive ReflectOutcome
  | programOnly (source : String)
  | package (package : Package)

/-- Runs a probe, which has to succeed, and gives its output. -/
def Runner.output (runner : Runner) (program : PathName) : Reflection Bytes := do
  let output ← Reflection.of (.exec program) (runner.start program)
  match output.status with
  | .success => return output.stdout
  | .failed => throw (.exec program (.nonZeroExit output.exitCode))

/-- Builds the program in a workspace and gives the path of the executable. -/
def Toolchain.executable (toolchain : Toolchain) (workspace : PathName) : Reflection PathName := do
  let project ← Reflection.of .toolchainQuery (toolchain.ask projectDirectoryKey)
  let suffix ← Reflection.of .toolchainQuery (toolchain.ask executableSuffixKey)
  Reflection.of .build (toolchain.make workspace)
  return resolveExecutable project workspace suffix

/-- What reflections are carried out with. -/
structure Reflector where
  toolchain : Toolchain
  runner : Runner
  config : BuildConfig := {}

namespace Reflector

variable (reflector : Reflector)

/-- Builds a probe in a fresh workspace. -/
def build (program : String) : Reflection PreparedProbe := do
  let workspace ← Workspace.make reflector.config.workDirectory
  Reflection.orElseDo (do
      Workspace.put workspace program
      return .built (← reflector.toolchain.executable workspace) workspace)
    (Site.discardDirectory workspace)

/-- Makes a probe ready to run, or renders its program. -/
def prepare (request : ProbeRequest) (source : ProbeSource) : Reflection Preparation :=
  let program := request.program reflector.config.modelImport
  match source with
  | .prebuilt program => return .ready (.prebuilt program)
  | .build true => return .programOnly program
  | .build false => return .ready (← reflector.build program)

/-- Runs a prepared probe and removes what was made for it. -/
def outputOf (probe : PreparedProbe) : Reflection Bytes := do
  let output ← Reflection.orElseDo (reflector.runner.output probe.program) probe.discard
  probe.release
  return output

/-- Carries out a reflection. -/
def reflect (request : ProbeRequest) (options : ReflectOptions) : Reflection ReflectOutcome := do
  match ← reflector.prepare request options.source with
  | .programOnly source => return .programOnly source
  | .ready probe =>
    let output ← reflector.outputOf probe
    match decode output with
    | .ok package => return .package package
    | .error error => throw (.ofDecodeError error)

end Reflector

end InterfaceProbe
