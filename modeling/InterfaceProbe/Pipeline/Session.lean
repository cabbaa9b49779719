/-
# Sessions

A session carries out steps one after the other at one site: reflections, the
preparation of probes that are held under a name until they are released, and
disturbances from outside, such as a workspace that vanishes.  The toolchain,
the runner and the configuration can be replaced in between; the record of the
calls of a tool starts anew with the tool.
-/

import InterfaceProbe.Pipeline.InMemory

namespace InterfaceProbe

/-- A step of a session. -/
inductive SessionStep
  | configure (config : BuildConfig)
  | useToolchain (toolchain : InMemoryToolchain)
  | useRunner (outcome : Except ExecutionError ProbeOutput)
  | reflect (request : ProbeRequest) (options : ReflectOptions)
  /-- Prepares a probe and holds it under a name. -/
  | prepare (name : String) (request : ProbeRequest) (source : ProbeSource)
  | release (name : String)
  | discard (name : String)
  /-- Runs the probe held under a name. -/
  | run (name : String)
  /-- Runs any program. -/
  | runProgram (program : PathName)
  /-- Asks for the programs that were built. -/
  | sources
  | query (key : String)
  /-- The workspace of a held probe vanishes. -/
  | removeWorkspace (name : String)
  /-- Entries appear in the workspace of a held probe. -/
  | fillWorkspace (name : String)
  /-- The executable of a held probe becomes a directory. -/
  | replaceExecutable (name : String)
  /-- A file appears, with the directories on the way to it. -/
  | touch (path : PathName)
  /-- Nothing happens. -/
  | rest

/-- What is known about a prepared probe. -/
structure ProbeReport where
  program : PathName
  workspace : Option PathName
  /-- The size and the permission bits of the program in the workspace. -/
  source : Option (Nat × Nat)

/-- What a step gives. -/
inductive StepResult
  | nothing
  | programOnly (source : String)
  | package (package : Package)
  | prepared (report : ProbeReport)
  | released
  | discarded
  | output (stdout : Bytes)
  | sources (programs : List String)
  | value (text : String)
  /-- No probe is held under the name. -/
  | notHeld
  | failed (error : ReflectError)
  | queryFailed (error : ToolchainError)

/-- The state of a session. -/
structure Session where
  site : Site
  toolchain : InMemoryToolchain
  runner : Except ExecutionError ProbeOutput
  config : BuildConfig
  /-- The probes that are held, under their names. -/
  held : List (String × PreparedProbe) := []

namespace Session

/-- The session's tools and configuration. -/
def reflector (session : Session) : Reflector :=
  ⟨session.toolchain.toToolchain, .always session.runner, session.config⟩

/-- Carries something out at the site of the session. -/
def act {α : Type} (session : Session) (action : StateM Site α) : α × Session :=
  let (value, site) := action.run session.site
  (value, { session with site := site })

/-- Changes the site of the session. -/
def disturb (session : Session) (action : StateM Site Unit) : StepResult × Session :=
  (.nothing, (session.act action).2)

/-- Carries out a reflection step; a failure is its result. -/
def attempt {α : Type} (session : Session) (step : Reflection α) (result : α → StepResult) :
    StepResult × Session :=
  match session.act step.run with
  | (.ok value, session) => (result value, session)
  | (.error error, session) => (.failed error, session)

/-- Holds a probe under a name. -/
def hold (session : Session) (name : String) (probe : PreparedProbe) : Session :=
  { session with held := (name, probe) :: session.held.filter fun entry => entry.1 ≠ name }

/-- Holds nothing under a name. -/
def letGo (session : Session) (name : String) : Session :=
  { session with held := session.held.filter fun entry => entry.1 ≠ name }

/-- What is known about a probe at a site. -/
def report (site : Site) (probe : PreparedProbe) : ProbeReport where
  program := probe.program
  workspace := probe.workspace?
  source := do
    let workspace ← probe.workspace?
    match site.files.find site.directory (workspace.join Program.fileName) with
    | .ok (_, .file contents mode) => some (contents.length, mode)
    | _ => none

/-- Prepares a probe and holds it in place of the one held under the name, which is discarded. -/
def prepare (session : Session) (name : String) (request : ProbeRequest) (source : ProbeSource) :
    StepResult × Session :=
  match session.act (session.reflector.prepare request source).run with
  | (.error error, session) => (.failed error, session)
  | (.ok (.programOnly source), session) => (.programOnly source, session)
  | (.ok (.ready probe), session) =>
    let report := report session.site probe
    let session := match session.held.lookup name with
      | some old => (session.act old.discard).2
      | none => session
    (.prepared report, session.hold name probe)

/-- Does something with the probe held under a name. -/
def withHeld (session : Session) (name : String)
    (action : PreparedProbe → StepResult × Session) : StepResult × Session :=
  match session.held.lookup name with
  | some probe => action probe
  | none => (.notHeld, session)

/-- Disturbs what was made for the probe held under a name, if any was. -/
def disturbHeld (session : Session) (name : String)
    (action : (program workspace : PathName) → StateM Site Unit) : StepResult × Session :=
  match session.held.lookup name with
  | some (.built program workspace) => session.disturb (action program workspace)
  | _ => (.nothing, session)

/-- Makes a directory and those on the way to it, as far as possible. -/
def makeWay (path : PathName) : StateM Site Unit := fun site =>
  ((), { site with files := (site.files.makeDirectories site.directory path).2 })

/-- Makes a small file at a path, if possible. -/
def leaveFile (path : PathName) : StateM Site Unit := do
  let _ ← Site.change fun files start => files.writeFile start path (utf8 "x")

/-- Whether a call is one of the toolchain. -/
def isToolchainCall : ToolCall → Bool
  | .run _ => false
  | _ => true

/-- The session without the record of some calls. -/
def forget (session : Session) (calls : ToolCall → Bool) : Session :=
  { session with
    site := { session.site with calls := session.site.calls.filter fun call => !calls call } }

/-- Carries out a step. -/
def step (session : Session) : SessionStep → StepResult × Session
  | .configure config => (.nothing, { session with config := config })
  | .useToolchain toolchain =>
    (.nothing, { session.forget isToolchainCall with toolchain := toolchain })
  | .useRunner outcome =>
    (.nothing, { session.forget (fun call => !isToolchainCall call) with runner := outcome })
  | .reflect request options =>
    session.attempt (session.reflector.reflect request options) fun
      | .programOnly source => .programOnly source
      | .package package => .package package
  | .prepare name request source => session.prepare name request source
  | .release name =>
    session.withHeld name fun probe =>
      (session.letGo name).attempt probe.release fun _ => .released
  | .discard name =>
    session.withHeld name fun probe => (.discarded, ((session.letGo name).act probe.discard).2)
  | .run name =>
    session.withHeld name fun probe =>
      session.attempt (session.reflector.runner.output probe.program) .output
  | .runProgram program => session.attempt (session.reflector.runner.output program) .output
  | .sources =>
    (.sources (session.site.calls.filterMap fun
      | .build _ source => source
      | _ => none), session)
  | .query key =>
    match session.act (session.toolchain.toToolchain.ask key) with
    | (.ok value, session) => (.value value, session)
    | (.error error, session) => (.queryFailed error, session)
  | .removeWorkspace name =>
    session.disturbHeld name fun _ workspace => Site.discardDirectory workspace
  | .fillWorkspace name =>
    session.disturbHeld name fun _ workspace => do
      makeWay (workspace.join "x/y")
      leaveFile (workspace.join "x/y/z")
  | .replaceExecutable name =>
    session.disturbHeld name fun program _ => do
      Site.discardFile program
      makeWay program
  | .touch path =>
    session.disturb do
      makeWay path.parent
      leaveFile path
  | .rest => (.nothing, session)

/-- Carries out steps and gives the result of each with the state after it. -/
def play (session : Session) : List SessionStep → List (StepResult × Session)
  | [] => []
  | step :: rest =>
    let (result, next) := session.step step
    (result, next) :: next.play rest

/-- Discards every probe that is held. -/
def finish (session : Session) : Session :=
  session.held.foldl (fun session entry => (session.act entry.2.discard).2) session

end Session

end InterfaceProbe
