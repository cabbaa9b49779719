/-
# Operations on files

Reading and changing the tree by path names.  A relative path starts at a given
directory.  Every step of a path but the last has to lead to a directory; two
dots lead to the parent, and a single dot stays.  A path that ends in a slash or
in dots means a directory, and only a directory that has a name can be made.
Each operation reports the first obstacle on the way, and a failed operation
changes nothing but the directories it made before it failed.
-/

import InterfaceProbe.Files.Error
import InterfaceProbe.Files.PathName
import InterfaceProbe.Files.Tree

namespace InterfaceProbe

/-- The most bytes a name may have. -/
def maximalNameLength : Nat := 255

/-- The most bytes a path may have. -/
def maximalPathLength : Nat := 4095

/-- Whether a path can be followed at all. -/
def PathName.check (path : PathName) : Except FileError Unit :=
  if path.toList.contains '\x00' then .error .nullInPath
  else if path.isEmpty then .error .notFound
  else if maximalPathLength < path.utf8ByteSize then .error .nameTooLong
  else .ok ()

/-- The last step of a way. -/
inductive LastStep
  /-- It stays, as a way without steps does. -/
  | stay
  /-- It leads to the parent. -/
  | up
  | name (name : String)
  deriving DecidableEq, Repr

/-- The last step of a way, given its steps. -/
def LastStep.ofSteps (steps : List String) : LastStep :=
  match steps.getLast? with
  | none => .stay
  | some step => if step = "." then .stay else if step = ".." then .up else .name step

namespace Tree

/-- The place of a name in a directory. -/
def child (directory : Place) (name : String) : Except FileError Place :=
  if maximalNameLength < name.utf8ByteSize then .error .nameTooLong
  else .ok (directory ++ [name])

/-- The directory that the steps lead to from another one. -/
def enter (files : Tree) (directory : Place) : List String → Except FileError Place
  | [] => .ok directory
  | name :: rest =>
    if name = "." then files.enter directory rest
    else if name = ".." then files.enter directory.dropLast rest
    else do
      let place ← child directory name
      match files.get? place with
      | none => .error .notFound
      | some (.file ..) => .error .notADirectory
      | some .directory => files.enter place rest

/-- The directory in which the last of the steps is taken. -/
def approach (files : Tree) (directory : Place) (steps : List String) : Except FileError Place :=
  files.enter directory steps.dropLast

/-- The place that the steps lead to; nothing need be there. -/
def follow (files : Tree) (directory : Place) (steps : List String) : Except FileError Place := do
  let last ← files.approach directory steps
  match LastStep.ofSteps steps with
  | .stay => .ok last
  | .up => .ok last.dropLast
  | .name name => child last name

/-- The directory at which a path starts, for one that may be relative to a directory. -/
def startOf (directory : Place) (path : PathName) : Place :=
  if path.isAbsolute then [] else directory

/-- What a path leads to. -/
def find (files : Tree) (directory : Place) (path : PathName) :
    Except FileError (Place × Node) := do
  path.check
  let place ← files.follow (startOf directory path) path.steps
  match files.get? place with
  | none => .error .notFound
  | some .directory => .ok (place, .directory)
  | some (.file contents mode) =>
    if path.endsInSlash then .error .notADirectory else .ok (place, .file contents mode)

/-- The bytes of the file at a path. -/
def contentsAt (files : Tree) (directory : Place) (path : PathName) : Except FileError Bytes := do
  match ← files.find directory path with
  | (_, .directory) => .error .isADirectory
  | (_, .file contents _) => .ok contents

/-- A new directory at the end of the steps. -/
def makeLast (files : Tree) (start : Place) (steps : List String) : Except FileError Tree := do
  let last ← files.approach start steps
  match LastStep.ofSteps steps with
  | .name name =>
    let place ← child last name
    match files.get? place with
    | some _ => .error .alreadyExists
    | none => .ok (files.insert place .directory)
  | _ => .error .alreadyExists

/-- A new directory at a path. -/
def makeDirectory (files : Tree) (directory : Place) (path : PathName) :
    Except FileError Tree := do
  path.check
  files.makeLast (startOf directory path) path.steps

/-- The failure to make a directory is none where there is one already. -/
def settle (files : Tree) (start : Place) (steps : List String) (error : FileError) :
    Except FileError Unit :=
  match files.follow start steps with
  | .ok place => if files.isDirectory place then .ok () else .error error
  | .error _ => .error error

/-- A directory at the end of the steps.  If something on the way to it is missing, that is made
first, and then the directory is tried once more. -/
def makeAfter (files : Tree) (start : Place) (steps : List String)
    (before : Unit → Except FileError Unit × Tree) : Except FileError Unit × Tree :=
  match files.makeLast start steps with
  | .ok made => (.ok (), made)
  | .error .notFound =>
    match before () with
    | (.error error, files) => (.error error, files)
    | (.ok (), files) =>
      match files.makeLast start steps with
      | .ok made => (.ok (), made)
      | .error error => (files.settle start steps error, files)
  | .error error => (files.settle start steps error, files)

/-- The directory at the end of the components, given last to first, and those on the way, as far
as they are missing. -/
def makeWay (files : Tree) (start : Place) : List String → Except FileError Unit × Tree
  | [] => (.ok (), files)
  | last :: front =>
    files.makeAfter start (last :: front).reverse fun _ => files.makeWay start front

/-- A directory at a path, with those on the way to it.  The empty path asks for nothing. -/
def makeDirectories (files : Tree) (directory : Place) (path : PathName) :
    Except FileError Unit × Tree :=
  if path.isEmpty then (.ok (), files)
  else match path.check with
    | .error error => (.error error, files)
    | .ok () =>
      let start := startOf directory path
      files.makeAfter start path.steps fun _ =>
        files.makeWay start path.components.reverse.tail

/-- The place of a file to be written at a path.  A path that ends in a slash can only be that of
a directory, whatever is there. -/
def locateFile (files : Tree) (directory : Place) (path : PathName) : Except FileError Place := do
  path.check
  let last ← files.approach (startOf directory path) path.steps
  match LastStep.ofSteps path.steps with
  | .name name => if path.endsInSlash then .error .isADirectory else child last name
  | _ => .error .isADirectory

/-- A file with the given bytes at a path.  One that was there keeps its permissions. -/
def writeFile (files : Tree) (directory : Place) (path : PathName) (contents : Bytes) :
    Except FileError Tree := do
  let place ← files.locateFile directory path
  match files.get? place with
  | some .directory => .error .isADirectory
  | some (.file _ mode) => .ok (files.insert place (.file contents mode))
  | none => .ok (files.insert place (.file contents Node.defaultMode))

/-- The file at a path with other permissions. -/
def setMode (files : Tree) (directory : Place) (path : PathName) (mode : Nat) :
    Except FileError Tree := do
  match ← files.find directory path with
  | (_, .directory) => .ok files
  | (place, .file contents _) => .ok (files.insert place (.file contents mode))

/-- Without the file at a path. -/
def removeFile (files : Tree) (directory : Place) (path : PathName) : Except FileError Tree := do
  match ← files.find directory path with
  | (_, .directory) => .error .isADirectory
  | (place, .file ..) => .ok (files.erase place)

/-- Without the directory at a path and everything in it. -/
def removeDirectory (files : Tree) (directory : Place) (path : PathName) :
    Except FileError Tree := do
  match ← files.find directory path with
  | (place, .directory) => .ok (files.prune place)
  | (_, .file ..) => .error .notADirectory

end Tree

end InterfaceProbe
