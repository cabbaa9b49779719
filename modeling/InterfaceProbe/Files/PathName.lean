/-
# Path names

A path name is a text of components between slashes.  Nothing is normalised:
joining only puts texts together.  Empty components and single dots stand for
the directory they are in, so the last component of a path is the last one
that is neither, and a path that ends in two dots has none.  Who follows a path
takes the single dots for steps too: whatever stands before one has to be a
directory.
-/

import InterfaceProbe.Text.Pieces
import InterfaceProbe.Text.Separated

namespace InterfaceProbe

/-- A path as it is written. -/
abbrev PathName := String

namespace PathName

/-- Whether the path starts at the root. -/
def isAbsolute (path : PathName) : Bool := path.toList.head? == some '/'

/-- A path below another: an absolute one stands for itself, any other follows after one slash,
which is left out after an empty path and after a slash. -/
def join (left right : PathName) : PathName :=
  if right.isAbsolute then right
  else if left.isEmpty || left.toList.getLast? == some '/' then left ++ right
  else left ++ "/" ++ right

/-- Whether a piece between slashes stays where it is. -/
def staysPut (piece : String) : Bool := piece == "" || piece == "."

/-- The components that name something, two dots included. -/
def components (path : PathName) : List String :=
  (pieces '/' path).filter fun piece => !staysPut piece

/-- The steps of one who follows the path: the components, and the single dots between them. -/
def steps (path : PathName) : List String := (pieces '/' path).filter fun piece => piece ≠ ""

/-- Whether the path ends in a slash, and so can only mean a directory. -/
def endsInSlash (path : PathName) : Bool := path.toList.getLast? == some '/'

/-- The path up to its last component.  What is redundant inside of it stays. -/
def parent (path : PathName) : PathName :=
  match ((pieces '/' path).reverse.dropWhile staysPut).tail.dropWhile staysPut with
  | [] => if path.isAbsolute then "/" else ""
  | front => separated "/" front.reverse

/-- The last component, unless it is missing or the parent's. -/
def fileName? (path : PathName) : Option String :=
  match path.components.getLast? with
  | none => none
  | some ".." => none
  | some name => some name

end PathName

/-- Where a toolchain puts the executable of a program built from a directory: below the project's
`bin`, named as the directory with the suffix of executables after it. -/
def resolveExecutable (project workspace suffix : String) : PathName :=
  (PathName.join project "bin").join ((PathName.fileName? workspace).getD "" ++ suffix)

end InterfaceProbe
