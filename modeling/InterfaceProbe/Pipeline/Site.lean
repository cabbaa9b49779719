/-
# The site of a reflection

A reflection works at a site: the file tree, the directory it was started in,
what has been asked of the toolchain and the runner so far, and what the
building of programs printed.  The toolchain
and the runner are the tools of a reflection: any functions of the site they are
called at.  They see all earlier calls, so a tool may answer each call differently.
A tool may change files whenever it is called, not only when it builds.
-/

import InterfaceProbe.Files.Operations
import InterfaceProbe.Pipeline.Error
import InterfaceProbe.Probe.Program

namespace InterfaceProbe

/-- A call of a tool. -/
inductive ToolCall
  | query (key : String)
  /-- A build of a directory, with the program that was in it then. -/
  | build (directory : PathName) (source : Option String)
  | run (program : PathName)
  deriving DecidableEq, Repr

/-- Where reflections happen and what has happened there. -/
structure Site where
  files : Tree
  /-- The directory that relative paths start at. -/
  directory : Place := []
  /-- The calls of tools so far, the first one first. -/
  calls : List ToolCall := []
  /-- The number of the name that the next workspace is tried under. -/
  nextName : Nat := 0
  /-- What tools have printed so far on the standard output that they share with the reflection. -/
  printed : Bytes := []
  deriving Inhabited

/-- Whether a program succeeded. -/
inductive ExecutionStatus
  | success | failed
  deriving DecidableEq, Repr

/-- What became of a probe that was run. -/
structure ProbeOutput where
  status : ExecutionStatus
  /-- The exit code, unless a signal ended the probe. -/
  exitCode : Option Int32
  /-- How long it ran, in milliseconds. -/
  duration : Int64
  stdout : Bytes
  deriving DecidableEq, Repr

/-- What became of a build. -/
structure BuildOutcome where
  result : Except ToolchainError Unit
  /-- The file tree afterwards. -/
  files : Tree
  /-- What the build tool printed. -/
  printed : Bytes := []

/-- The build tool: settings by key, and the building of the program in a directory. -/
structure Toolchain where
  query : String → Site → Except ToolchainError String
  build : PathName → Site → BuildOutcome
  /-- The file tree after a question. -/
  afterQuery : String → Site → Tree := fun _ site => site.files

/-- What runs probes. -/
structure Runner where
  run : PathName → Site → Except ExecutionError ProbeOutput
  /-- The file tree after a run. -/
  afterRun : PathName → Site → Tree := fun _ site => site.files

/-- A path as a text that starts at the root. -/
def Place.path (place : Place) : PathName := "/" ++ separated "/" place

namespace Site

/-- The site with one more call. -/
def record (site : Site) (call : ToolCall) : Site := { site with calls := site.calls ++ [call] }

/-- A path that does not depend on the directory any more. -/
def absolute (site : Site) (path : PathName) : PathName := (Place.path site.directory).join path

/-- The text of the file at a path, if there is one. -/
def text? (site : Site) (path : PathName) : Option String :=
  match site.files.contentsAt site.directory path with
  | .ok contents => utf8? contents
  | .error _ => none

/-- A change of the file tree, which stays as it is when the change fails. -/
def change (edit : Tree → Place → Except FileError Tree) : StateM Site (Except FileError Unit) :=
  fun site =>
    match edit site.files site.directory with
    | .ok files => (.ok (), { site with files := files })
    | .error error => (.error error, site)

/-- The path is no file any more, if it was one. -/
def discardFile (path : PathName) : StateM Site Unit := do
  let _ ← change fun files directory => files.removeFile directory path

/-- The path is no directory any more, if it was one. -/
def discardDirectory (path : PathName) : StateM Site Unit := do
  let _ ← change fun files directory => files.removeDirectory directory path

end Site

/-- A step of a reflection: it changes the site, and it may fail. -/
abbrev Reflection := ExceptT ReflectError (StateM Site)

namespace Reflection

/-- A step that fails for the reason given, worded for its stage. -/
def of {ε α : Type} (wording : ε → ReflectError) (step : StateM Site (Except ε α)) :
    Reflection α :=
  ExceptT.mk do
    match ← step with
    | .ok value => return .ok value
    | .error error => return .error (wording error)

/-- A step that is followed by another one if it fails. -/
def orElseDo {α : Type} (step : Reflection α) (cleanUp : StateM Site Unit) : Reflection α :=
  ExceptT.mk do
    match ← step.run with
    | .ok value => return .ok value
    | .error error =>
      cleanUp
      return .error error

end Reflection

/-- The value of a setting. -/
def Toolchain.ask (toolchain : Toolchain) (key : String) :
    StateM Site (Except ToolchainError String) :=
  fun site =>
    let site := site.record (.query key)
    (toolchain.query key site, { site with files := toolchain.afterQuery key site })

/-- The building of the program in a directory. -/
def Toolchain.make (toolchain : Toolchain) (directory : PathName) :
    StateM Site (Except ToolchainError Unit) :=
  fun site =>
    let site := site.record (.build directory (site.text? (directory.join Program.fileName)))
    let outcome := toolchain.build directory site
    (outcome.result,
      { site with files := outcome.files, printed := site.printed ++ outcome.printed })

/-- What becomes of a probe when it is run. -/
def Runner.start (runner : Runner) (program : PathName) :
    StateM Site (Except ExecutionError ProbeOutput) :=
  fun site =>
    let site := site.record (.run program)
    (runner.run program site, { site with files := runner.afterRun program site })

end InterfaceProbe
