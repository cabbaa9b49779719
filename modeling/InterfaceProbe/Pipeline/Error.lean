/-
# Why a reflection fails

Every stage of a reflection has an error of its own, and the first error ends
the reflection.  An error says which stage failed, how it is worded for the
user and which cause, if any, lies behind it.  The wording of an error contains
that of its cause.
-/

import InterfaceProbe.Files.Error
import InterfaceProbe.Files.PathName
import InterfaceProbe.Wire.Frame

namespace InterfaceProbe

/-- Why a toolchain did not do what it was asked for. -/
inductive ToolchainError
  /-- The tool could not be started. -/
  | spawnFailed (text : String)
  | queryFailed (key reason : String)
  | buildFailed (directory reason : String)
  deriving DecidableEq, Repr

/-- The wording of a toolchain error. -/
def ToolchainError.message : ToolchainError → String
  | spawnFailed text => "Spawn failed: " ++ text
  | queryFailed key reason => "Query `" ++ key ++ "` failed: " ++ reason
  | buildFailed directory reason => "Build of " ++ directory ++ " failed: " ++ reason

/-- Why a probe gave no output. -/
inductive ExecutionError
  /-- The probe could not be started. -/
  | spawnFailed (text : String)
  /-- The probe ended with a failure; a signal leaves no exit code. -/
  | nonZeroExit (code : Option Int32)
  /-- The probe could not be waited for. -/
  | inputOutput (text : String)
  deriving DecidableEq, Repr

/-- The wording of an execution error. -/
def ExecutionError.message : ExecutionError → String
  | spawnFailed text => "Spawn failed: " ++ text
  | nonZeroExit (some code) => "Probe exited with status " ++ Decimal.signedNumeral code.toInt
  | nonZeroExit none => "Probe exited with a signal"
  | inputOutput text => "IO error: " ++ text

/-- The stages at which a reflection can fail. -/
inductive Stage
  | workspace | render | write | toolchainQuery | build | exec | protocol | decode
  deriving DecidableEq, Repr

/-- The name of a stage. -/
def Stage.name : Stage → String
  | workspace => "workspace"
  | render => "render"
  | write => "write"
  | toolchainQuery => "toolchain_query"
  | build => "build"
  | exec => "exec"
  | protocol => "protocol"
  | decode => "decode"

/-- Why a reflection failed. -/
inductive ReflectError
  /-- The workspace could not be made or removed. -/
  | workspace (context : String) (cause : FileError)
  /-- The program could not be rendered. -/
  | render (text : String)
  /-- The program could not be written. -/
  | write (path : PathName) (cause : FileError)
  | toolchainQuery (cause : ToolchainError)
  | build (cause : ToolchainError)
  | exec (program : PathName) (cause : ExecutionError)
  /-- The probe printed no report. -/
  | protocol (text : String)
  /-- The report describes no package. -/
  | decode (cause : Fault)
  deriving DecidableEq, Repr

namespace ReflectError

/-- The stage that failed. -/
def stage : ReflectError → Stage
  | workspace .. => .workspace
  | render _ => .render
  | write .. => .write
  | toolchainQuery _ => .toolchainQuery
  | build _ => .build
  | exec .. => .exec
  | protocol _ => .protocol
  | decode _ => .decode

/-- The wording of what lies behind the error. -/
def cause? : ReflectError → Option String
  | workspace _ cause => some cause.message
  | render _ => none
  | write _ cause => some cause.message
  | toolchainQuery cause => some cause.message
  | build cause => some cause.message
  | exec _ cause => some cause.message
  | protocol _ => none
  | decode cause => some cause.message

/-- The wording of the error. -/
def message : ReflectError → String
  | workspace context cause => "Workspace error: " ++ context ++ ": " ++ cause.message
  | render text => "Render error: " ++ text
  | write path cause => "Write error: " ++ path ++ ": " ++ cause.message
  | toolchainQuery cause => "Toolchain query error: " ++ cause.message
  | build cause => "Build error: " ++ cause.message
  | exec program cause => "Execution error: " ++ program ++ ": " ++ cause.message
  | protocol text => "Protocol error: " ++ text
  | decode cause => "Decode error: " ++ cause.message

/-- Probe output without a report is a protocol error, any other fault of it a decode error. -/
def ofDecodeError : DecodeError → ReflectError
  | .noSentinel lines => .protocol (DecodeError.noSentinel lines).message
  | .fault cause => .decode cause

end ReflectError

end InterfaceProbe
