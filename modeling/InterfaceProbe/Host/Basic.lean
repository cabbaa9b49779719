/-
# Starting programs

A host starts programs that lie in the file tree.  What a program does is known
from the contents of its file: given its arguments, the directory it is started
in and the files, it prints, may change files, and ends with an exit status or
by a signal.  A program name with a slash is a path; any other is looked for in
the directories of the search path.
-/

import InterfaceProbe.Pipeline.Site

namespace InterfaceProbe

/-- How a program ended. -/
inductive Ending
  | exited (status : Nat)
  | signalled (number : Nat)
  deriving DecidableEq, Repr

namespace Ending

/-- Whether the program succeeded. -/
def isSuccess (ending : Ending) : Bool := ending = .exited 0

/-- The exit status, unless a signal ended the program. -/
def code? : Ending → Option Int32
  | exited status => some (Int32.ofNat status)
  | signalled _ => none

/-- The signals that end no program by themselves: none at all, those that tell of children, of
being continued, of urgent data and of the size of the window, and the two that threads keep for
themselves, which programs that are started ignore. -/
def harmlessSignals : List Nat := [0, 17, 18, 23, 28, 32, 33]

/-- The ending of a program that sends itself a signal last. -/
def bySignal (number : Nat) : Ending :=
  if harmlessSignals.contains number then .exited 0 else .signalled number

/-- The names of the signals, from the first one on. -/
def signalNames : List String :=
  ["SIGHUP", "SIGINT", "SIGQUIT", "SIGILL", "SIGTRAP", "SIGABRT", "SIGBUS", "SIGFPE", "SIGKILL",
   "SIGUSR1", "SIGSEGV", "SIGUSR2", "SIGPIPE", "SIGALRM", "SIGTERM", "SIGSTKFLT", "SIGCHLD",
   "SIGCONT", "SIGSTOP", "SIGTSTP", "SIGTTIN", "SIGTTOU", "SIGURG", "SIGXCPU", "SIGXFSZ",
   "SIGVTALRM", "SIGPROF", "SIGWINCH", "SIGIO", "SIGPWR", "SIGSYS"]

/-- The wording of an ending. -/
def text : Ending → String
  | exited status => "exit status: " ++ Decimal.numeral status
  | signalled number =>
    "signal: " ++ Decimal.numeral number ++
      match if number = 0 then none else signalNames[number - 1]? with
      | some name => " (" ++ name ++ ")"
      | none => ""

end Ending

/-- What a program did. -/
structure Response where
  stdout : Bytes := []
  ending : Ending := .exited 0
  /-- The file tree afterwards. -/
  files : Tree

/-- What a program does, given its arguments, the directory it is started in and the files. -/
abbrev Behaviour := List String → Place → Tree → Response

/-- A program to be started. -/
structure Command where
  program : PathName
  arguments : List String := []
  /-- The directory to start it in. -/
  directory : PathName := "."
  deriving DecidableEq, Repr

/-- The most bytes an argument may have. -/
def maximalArgumentLength : Nat := 131071

/-- What is known about starting programs. -/
structure Host where
  /-- What the programs with given contents do; any other contents are no program. -/
  programs : Bytes → Option Behaviour
  /-- The directories in which programs are looked for. -/
  searchPath : List PathName := []
  /-- The home directory of the account, if it has one. -/
  accountHome : Option PathName := none

namespace Host

/-- The program at a path, if it can be started with the arguments. -/
def load (host : Host) (files : Tree) (start : Place) (arguments : List String)
    (path : PathName) : Except FileError Behaviour := do
  let (_, node) ← files.find start path
  match node with
  | .directory => .error .denied
  | .file contents _ =>
    if !node.isExecutable then .error .denied
    else if arguments.any fun text => maximalArgumentLength < text.utf8ByteSize then
      .error .argumentTooLong
    else match host.programs contents with
      | some behaviour => .ok behaviour
      | none => .error .badFormat

/-- The directories that are looked into.  One whose own path is too long stands for the directory
that the program is started in, and the last one is left out if it is such. -/
def searched : List PathName → List PathName
  | [] => []
  | [directory] => if maximalPathLength < directory.utf8ByteSize then [] else [directory]
  | directory :: rest =>
    (if maximalPathLength < directory.utf8ByteSize then "" else directory) :: searched rest

/-- The shortest start of a text that has at least so many bytes, or else all of it. -/
def startOfSize : Nat → List Char → List Char
  | 0, _ => []
  | _, [] => []
  | size, char :: rest => char :: startOfSize (size - char.utf8Size) rest

/-- What is looked for under a name.  Of one that is too long only as much is kept as is too long
still, so that the path with it can be followed up to its last step. -/
def sought (name : String) : String :=
  String.ofList (startOfSize (maximalNameLength + 1) name.toList)

/-- The first program of the name in the directories.  What is missing or may not be run is passed
over.  If there is no program, the reason is that one may not be run, or else the one that held for
the last directory. -/
def search (host : Host) (files : Tree) (start : Place) (arguments : List String)
    (name : String) (denied : Bool) (reason : FileError) :
    List PathName → Except FileError Behaviour
  | [] => .error (if denied then .denied else reason)
  | directory :: rest =>
    match host.load files start arguments (directory.join (sought name)) with
    | .ok behaviour => .ok behaviour
    | .error .denied => host.search files start arguments name true reason rest
    | .error .notFound => host.search files start arguments name denied .notFound rest
    | .error .notADirectory => host.search files start arguments name denied .notADirectory rest
    | .error error => .error error

/-- The program that a name or path stands for. -/
def resolve (host : Host) (files : Tree) (start : Place) (arguments : List String)
    (program : PathName) : Except FileError Behaviour :=
  if program.toList.contains '/' then host.load files start arguments program
  else if program.isEmpty then .error .notFound
  else host.search files start arguments program false .notFound (searched host.searchPath)

/-- The directory at a path. -/
def directoryAt (files : Tree) (start : Place) (path : PathName) : Except FileError Place := do
  match ← files.find start path with
  | (place, .directory) => .ok place
  | (_, .file ..) => .error .notADirectory

/-- Starts a program and waits for it to end. -/
def start (host : Host) (site : Site) (command : Command) : Except FileError Response :=
  if (command.program :: command.directory :: command.arguments).any
      (fun text => text.toList.contains '\x00') then
    .error .nullInArgument
  else do
    let directory ← directoryAt site.files site.directory command.directory
    let behaviour ← host.resolve site.files directory command.arguments command.program
    return behaviour command.arguments directory site.files

/-- The file tree after a program was started, whether or not it succeeded.  A program that cannot
be started changes nothing. -/
def filesAfter (host : Host) (site : Site) (command : Command) : Tree :=
  match host.start site command with
  | .error _ => site.files
  | .ok response => response.files

end Host

end InterfaceProbe
