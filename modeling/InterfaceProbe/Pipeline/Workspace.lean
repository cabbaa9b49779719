/-
# Workspaces

A probe is built in a directory of its own, the workspace, which is made fresh
inside the work directory.  Its name ends in six letters or digits; names that
are taken already are passed over.  A prepared probe owns its workspace and the
executable that was built from it, and both go when the probe is released or
discarded.  Releasing reports when the workspace cannot be removed; discarding
does not.
-/

import InterfaceProbe.Pipeline.Site

namespace InterfaceProbe

namespace Workspace

/-- What the name of every workspace starts with. -/
def nameStart : String := "mockprobe_reflect_"

/-- The permission bits of a program in a workspace: its owner may read and write it. -/
def programMode : Nat := 0o600

/-- How many names are tried before giving up. -/
def maximalTries : Nat := 65536

/-- The letters and digits that end the names of workspaces. -/
def alphabet : List Char :=
  "0123456789abcdefghijklmnopqrstuvwxyzABCDEFGHIJKLMNOPQRSTUVWXYZ".toList

/-- The last letters or digits of a number written in the alphabet. -/
def ending (length number : Nat) : List Char :=
  match length with
  | 0 => []
  | length + 1 =>
    ending length (number / alphabet.length) ++
      [alphabet.getD (number % alphabet.length) '0']

/-- The name with the given number. -/
def name (number : Nat) : String := nameStart ++ String.ofList (ending 6 number)

/-- A new directory inside another, under the first free name of the next few. -/
def makeIn (directory : PathName) : Nat → StateM Site (Except FileError PathName)
  | 0 => return .error (.at .namesExhausted directory)
  | tries + 1 => do
    let path := directory.join (name (← get).nextName)
    modify fun site => { site with nextName := site.nextName + 1 }
    match ← Site.change fun files start => files.makeDirectory start path with
    | .ok () => return .ok path
    | .error .alreadyExists => makeIn directory tries
    | .error error => return .error (.at error path)

/-- A new workspace. -/
def make (workDirectory : PathName) : Reflection PathName := do
  let directory := (← get).absolute workDirectory
  Reflection.of (.workspace ("creating workspace in " ++ workDirectory))
    (makeIn directory maximalTries)

/-- Puts the program into a workspace. -/
def put (workspace : PathName) (program : String) : Reflection Unit := do
  let path := PathName.join workspace Program.fileName
  Reflection.of (.write path) (Site.change fun files start =>
    files.writeFile start path (utf8 program))
  Reflection.of (.write path) (Site.change fun files start =>
    files.setMode start path programMode)

/-- Removes a workspace and everything in it. -/
def remove (workspace : PathName) : Reflection Unit :=
  Reflection.of (fun error => .workspace ("removing " ++ workspace) (.at error workspace))
    (Site.change fun files start => files.removeDirectory start workspace)

end Workspace

/-- A probe that can be run. -/
inductive PreparedProbe
  /-- A probe that was there before. -/
  | prebuilt (program : PathName)
  /-- A probe that was built for the occasion, with the workspace it was built in. -/
  | built (program workspace : PathName)
  deriving DecidableEq, Repr

namespace PreparedProbe

/-- The executable. -/
def program : PreparedProbe → PathName
  | prebuilt program => program
  | built program _ => program

/-- The workspace, for a probe that was built. -/
def workspace? : PreparedProbe → Option PathName
  | prebuilt _ => none
  | built _ workspace => some workspace

/-- Removes what was made for the probe, as far as that can be done. -/
def discard : PreparedProbe → StateM Site Unit
  | prebuilt _ => return
  | built program workspace => do
    Site.discardFile program
    Site.discardDirectory workspace

/-- Removes what was made for the probe.  An executable that cannot be removed stays, a workspace
that cannot be removed is an error. -/
def release : PreparedProbe → Reflection Unit
  | prebuilt _ => return
  | built program workspace => do
    Site.discardFile program
    Workspace.remove workspace

end PreparedProbe

end InterfaceProbe
