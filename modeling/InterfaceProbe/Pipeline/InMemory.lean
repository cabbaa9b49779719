/-
# Tools in memory

A toolchain that answers from a table of settings and builds as it is told to,
and a runner that gives every probe the same outcome.  They stand in for the
real tools wherever a reflection is to be watched.  They change no files but by
writing an executable.
-/

import InterfaceProbe.Pipeline.Reflect

namespace InterfaceProbe

/-- What an in-memory toolchain does to build a program. -/
inductive BuildBehaviour
  /-- It succeeds and makes nothing. -/
  | succeed
  | fail (text : String)
  /-- It writes an executable with these contents. -/
  | writeExecutable (contents : String)
  deriving DecidableEq, Repr

/-- A toolchain whose settings are a table. -/
structure InMemoryToolchain where
  /-- Keys with their values; the first entry of a key counts. -/
  values : List (String × String)
  behaviour : BuildBehaviour := .succeed
  deriving DecidableEq, Repr

namespace InMemoryToolchain

/-- The permission bits of executables. -/
def executableMode : Nat := 0o755

/-- A toolchain with a project directory and no suffix for executables. -/
def ofProject (project : String) (behaviour : BuildBehaviour) : InMemoryToolchain :=
  ⟨[(projectDirectoryKey, project), (executableSuffixKey, "")], behaviour⟩

/-- With another value for a setting. -/
def withValue (toolchain : InMemoryToolchain) (key value : String) : InMemoryToolchain :=
  { toolchain with values := (key, value) :: toolchain.values }

/-- Without a setting. -/
def withoutValue (toolchain : InMemoryToolchain) (key : String) : InMemoryToolchain :=
  { toolchain with values := toolchain.values.filter fun entry => entry.1 ≠ key }

/-- The value of a setting. -/
def query (toolchain : InMemoryToolchain) (key : String) : Except ToolchainError String :=
  match toolchain.values.lookup key with
  | some value => .ok value
  | none => .error (.queryFailed key "unknown key")

/-- The executable of a workspace, as the settings have it. -/
def executable (toolchain : InMemoryToolchain) (workspace : PathName) : PathName :=
  resolveExecutable ((toolchain.values.lookup projectDirectoryKey).getD "") workspace
    ((toolchain.values.lookup executableSuffixKey).getD "")

/-- An executable file with the given contents at a path.  It is written before it is made
executable, and stays as it was written if that fails. -/
def install (files : Tree) (start : Place) (target : PathName) (contents : String) :
    Except FileError Unit × Tree :=
  match files.writeFile start target (utf8 contents) with
  | .error error => (.error error, files)
  | .ok written =>
    match written.setMode start target executableMode with
    | .error error => (.error error, written)
    | .ok files => (.ok (), files)

/-- Writes an executable below the project's `bin`, which is made first. -/
def writeExecutable (toolchain : InMemoryToolchain) (contents : String) (workspace : PathName)
    (files : Tree) (start : Place) : Except FileError Unit × Tree :=
  let project := (toolchain.values.lookup projectDirectoryKey).getD ""
  match files.makeDirectories start (PathName.join project "bin") with
  | (.error error, files) => (.error error, files)
  | (.ok (), files) => install files start (toolchain.executable workspace) contents

/-- Builds the program in a workspace. -/
def build (toolchain : InMemoryToolchain) (workspace : PathName) (site : Site) : BuildOutcome :=
  match toolchain.behaviour with
  | .succeed => { result := .ok (), files := site.files }
  | .fail text => { result := .error (.buildFailed workspace text), files := site.files }
  | .writeExecutable contents =>
    match toolchain.writeExecutable contents workspace site.files site.directory with
    | (.ok (), files) => { result := .ok (), files := files }
    | (.error error, files) =>
      { result := .error (.buildFailed workspace error.message), files := files }

/-- The table as a toolchain. -/
def toToolchain (toolchain : InMemoryToolchain) : Toolchain where
  query key _ := toolchain.query key
  build := toolchain.build

end InMemoryToolchain

/-- A runner that gives every probe the same outcome. -/
def Runner.always (outcome : Except ExecutionError ProbeOutput) : Runner where
  run _ _ := outcome

end InterfaceProbe
