/-
# The command on standard streams

The command with its arguments and environment taken from the process it runs
in.  It works at a site of its own, in memory: the only program there is
`/dev/stdin`, a probe that prints what arrives on standard input, so a report
that was printed elsewhere is read with `--exec-only /dev/stdin`.  A report that
goes to a file of that site is printed after everything else.
-/

import InterfaceProbe.CommandLine.Run

namespace InterfaceProbe

/-- The place of the probe that prints what arrives on standard input. -/
def standardInput : Place := ["dev", "stdin"]

/-- The contents of the file at that place. -/
def standardProbe : Bytes := utf8 "#!stdin"

/-- The site the command works at. -/
def standardSite : Site where
  files := ⟨[(["dev"], .directory), (standardInput, .file standardProbe 0o755)]⟩

/-- The host on which that probe prints the given bytes. -/
def standardHost (input : Bytes) : Host where
  programs := fun contents =>
    if contents = standardProbe then some fun _ _ files => { stdout := input, files := files }
    else none

/-- The files of a site that its command wrote. -/
def writtenFiles (site : Site) : List Bytes :=
  site.files.entries.filterMap fun
    | (place, .file contents _) => if place = standardInput then none else some contents
    | _ => none

/-- The variables of the environment that the command looks at. -/
def variableNames : List String :=
  ["HOME", "PATH", "CLICOLOR_FORCE", "MOCKPROBE_GB", "MOCKPROBE_WORK_DIR",
   "MOCKPROBE_MODEL_IMPORT"]

/-- Everything that arrives on a stream. -/
partial def readAll (stream : IO.FS.Stream) (soFar : ByteArray) : IO ByteArray := do
  let bytes ← stream.read 65536
  if bytes.isEmpty then return soFar
  readAll stream (soFar ++ bytes)

/-- The environment of the process, as far as the command looks at it. -/
def readEnvironment : IO Environment := do
  let found ← variableNames.mapM fun name => do
    return (← IO.getEnv name).map fun value => (name, value)
  return found.filterMap id

end InterfaceProbe

open InterfaceProbe in
/-- Runs the command; standard input is read when a probe that was built before is to be run. -/
def main (arguments : List String) : IO UInt32 := do
  let invocation : Invocation := ⟨arguments, ← readEnvironment⟩
  let input ← match CommandOptions.parse arguments invocation.environment with
    | .ok options =>
      if options.reflect.execOnly.isSome then readAll (← IO.getStdin) ByteArray.empty
      else pure ByteArray.empty
    | .error _ => pure ByteArray.empty
  let (result, site) := (invocation.run (standardHost input.toList)).run standardSite
  let output ← IO.getStdout
  for contents in result.stdout :: writtenFiles site do
    output.write contents.toByteArray
  (← IO.getStderr).putStr result.stderr
  return UInt32.ofNat result.exitStatus
