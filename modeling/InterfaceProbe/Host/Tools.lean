/-
# Tools on a host

The real toolchain is the `gb` tool, which is started for every question and
every build.  What it prints when it is asked is the value of a setting, without
the line feeds around it; what it prints when it builds is left to be seen.
A tool that fails has no value to give, whatever it printed.  The real runner
starts the probe itself, without arguments.  What any of these programs does to the
files stays done, also when it fails.
-/

import InterfaceProbe.Host.Basic
import InterfaceProbe.Text.Blank

namespace InterfaceProbe

/-- A build tool as a program. -/
structure Gb where
  program : PathName := "gb"
  /-- The directory it is started in. -/
  directory : PathName := "."
  deriving DecidableEq, Repr

namespace Gb

/-- How the tool is asked for a setting. -/
def queryCommand (gb : Gb) (key : String) : Command := ⟨gb.program, ["info", key], gb.directory⟩

/-- How the tool is told to build a directory. -/
def buildCommand (gb : Gb) (directory : PathName) : Command :=
  ⟨gb.program, ["build", directory], gb.directory⟩

/-- The error of a tool that could not be started. -/
def spawnFailed (gb : Gb) (error : FileError) : ToolchainError :=
  .spawnFailed (gb.program ++ ": " ++ error.message)

/-- How a failure of the tool is worded. -/
def failure (gb : Gb) (ending : Ending) : String := gb.program ++ " exited with " ++ ending.text

/-- The value of a setting. -/
def query (gb : Gb) (host : Host) (key : String) (site : Site) : Except ToolchainError String :=
  match host.start site (gb.queryCommand key) with
  | .error error => .error (gb.spawnFailed error)
  | .ok response =>
    if !response.ending.isSuccess then .error (.queryFailed key (gb.failure response.ending))
    else match utf8? response.stdout with
      | some text => .ok (withoutLineFeeds text)
      | none => .error (.queryFailed key "output is not valid UTF-8")

/-- Builds the program in a directory. -/
def build (gb : Gb) (host : Host) (directory : PathName) (site : Site) : BuildOutcome :=
  match host.start site (gb.buildCommand directory) with
  | .error error => { result := .error (gb.spawnFailed error), files := site.files }
  | .ok response =>
    { result :=
        if response.ending.isSuccess then .ok ()
        else .error (.buildFailed directory (gb.failure response.ending))
      files := response.files
      printed := response.stdout }

/-- The tool as a toolchain. -/
def toolchain (gb : Gb) (host : Host) : Toolchain where
  query := gb.query host
  build := gb.build host
  afterQuery key site := host.filesAfter site (gb.queryCommand key)

end Gb

/-- When a probe starts and ends, in milliseconds. -/
structure Clock where
  started : Int64 := 0
  ended : Int64 := 0
  deriving DecidableEq, Repr

namespace Host

/-- How a probe is started. -/
def probeCommand (program : PathName) : Command := { program }

/-- Starts a probe and gathers its output. -/
def runProbe (host : Host) (clock : Clock) (program : PathName) (site : Site) :
    Except ExecutionError ProbeOutput :=
  match host.start site (probeCommand program) with
  | .error error => .error (.spawnFailed (program ++ ": " ++ error.message))
  | .ok response => .ok
    { status := if response.ending.isSuccess then .success else .failed
      exitCode := response.ending.code?
      duration := clock.ended - clock.started
      stdout := response.stdout }

/-- The runner that starts probes on the host. -/
def runner (host : Host) (clock : Clock) : Runner where
  run := host.runProbe clock
  afterRun program site := host.filesAfter site (probeCommand program)

end Host

end InterfaceProbe
