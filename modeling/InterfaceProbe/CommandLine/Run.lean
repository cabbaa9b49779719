/-
# The command

One invocation of the command: it reflects on the interfaces named by the
arguments and shows the package on standard output or writes it to a file.  A
program that was asked for always goes to standard output.  Nothing of that is
shown unless everything before succeeded; what the build tool printed comes
first in any case.  The exit status is 0 after a success, 1
after a failed reflection and 2 when the arguments are wrong.
-/

import InterfaceProbe.CommandLine.Arguments
import InterfaceProbe.Report.Package

namespace InterfaceProbe

/-- The version of the command. -/
def commandVersion : String := "0.1.0"

/-- The name of the command. -/
def commandName : String := "mockprobe"

/-- How the command is used. -/
def usageLines : List String :=
  ["Describe Go interfaces by reflecting on them in a probe program",
   "",
   "Usage: " ++ commandName ++ " [OPTIONS] <IMPORT_PATH> <SYMBOLS>...",
   "",
   "Arguments:",
   "  <IMPORT_PATH>  Import path of the package holding the interfaces",
   "  <SYMBOLS>...   Comma-separated interface names (e.g. Reader,Writer)",
   "",
   "Options:",
   "      --prog-only                    Only generate the reflection program",
   "      --exec-only <PATH>             Run this pre-built reflection program",
   "      --gb <GB>                      gb executable used to query and build",
   "      --work-dir <WORK_DIR>          Directory the probe workspace is created in",
   "      --model-import <MODEL_IMPORT>  Go package linked into the probe",
   "      --format <FORMAT>              json or table",
   "  -o, --output <OUTPUT>              Write the result to this file",
   "  -h, --help                         Print help",
   "  -V, --version                      Print version"]

/-- One call of the command. -/
structure Invocation where
  arguments : List String
  environment : Environment := []
  deriving DecidableEq, Repr

/-- What a call of the command shows. -/
structure CommandResult where
  exitStatus : Nat
  stdout : Bytes := []
  stderr : String := ""
  deriving DecidableEq, Repr

/-- Whether text is coloured although it may not go to a terminal. -/
def Environment.colour (environment : Environment) : Bool :=
  match environment.lookup "CLICOLOR_FORCE" with
  | some value => value ≠ "0"
  | none => false

/-- The directories in which programs are looked for. -/
def Environment.searchPath (environment : Environment) : List PathName :=
  match environment.lookup "PATH" with
  | some path => pieces ':' path
  | none => ["/bin", "/usr/bin"]

/-- The home directory: as the environment has it, unless that is empty, or that of the account. -/
def Environment.home? (environment : Environment) (host : Host) : Option PathName :=
  match environment.lookup "HOME" with
  | some home => if home.isEmpty then host.accountHome else some home
  | none => host.accountHome

/-- A path that starts with a tilde component starts at the home directory, if there is one. -/
def atHome (home : Option PathName) (path : PathName) : PathName :=
  match path.toList, home with
  | ['~'], some home => home
  | '~' :: '/' :: rest, some home => home ++ "/" ++ String.ofList rest
  | _, _ => path

namespace CommandOptions

/-- The reflector that the options ask for. -/
def reflector (options : CommandOptions) (host : Host) (environment : Environment) : Reflector where
  toolchain := Gb.toolchain { program := options.gb } host
  runner := host.runner {}
  config :=
    { options.config with
      workDirectory := atHome (environment.home? host) options.config.workDirectory }

/-- The report of a package in the format asked for. -/
def report (options : CommandOptions) (colour : Bool) (package : Package) : String :=
  match options.format with
  | .json => package.jsonReport
  | .table => package.tableReport colour

end CommandOptions

/-- A failed command: the error with everything that led to it. -/
def failedCommand (colour : Bool) (texts : List String) : CommandResult where
  exitStatus := 1
  stderr := asLines [emphasised colour .failure "error:" ++ " " ++ separated ": " texts]

/-- Carries out what the options ask for. -/
def CommandOptions.perform (options : CommandOptions) (host : Host) (environment : Environment) :
    StateM Site CommandResult := do
  let colour := environment.colour
  let reflector := options.reflector host environment
  match ← (reflector.reflect options.request options.reflect).run with
  | .error error =>
    return failedCommand colour
      (["reflecting on " ++ options.request.importPath, error.message] ++ error.cause?.toList)
  | .ok (.programOnly source) => return { exitStatus := 0, stdout := utf8 source }
  | .ok (.package package) =>
    let report := options.report colour package
    match options.output with
    | none => return { exitStatus := 0, stdout := utf8 report }
    | some path =>
      match ← Site.change fun files start => files.writeFile start path (utf8 report) with
      | .ok () => return { exitStatus := 0 }
      | .error error => return failedCommand colour ["writing " ++ path, error.message]

/-- Carries out one call of the command. -/
def Invocation.run (invocation : Invocation) (host : Host) : StateM Site CommandResult :=
  match CommandOptions.parse invocation.arguments invocation.environment with
  | .ok options => do
    let result ← options.perform host invocation.environment
    return { result with stdout := (← get).printed ++ result.stdout }
  | .error .version =>
    return { exitStatus := 0, stdout := utf8 (asLines [commandName ++ " " ++ commandVersion]) }
  | .error .help => return { exitStatus := 0, stdout := utf8 (asLines usageLines) }
  | .error .usage => return { exitStatus := 2, stderr := asLines usageLines }

end InterfaceProbe
