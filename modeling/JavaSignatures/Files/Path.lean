import JavaSignatures.Text

set_option autoImplicit false

/-!
# Files: paths

A path is a text of names with slashes between them.  Empty parts and single periods lead nowhere;
two periods lead one directory up.
-/

namespace JavaSignatures.Path

/-- The path begins at the top of the file system. -/
def isAbsolute (path : String) : Bool := path.toList.head? == some '/'

/-- The parts between the slashes, empty ones included. -/
def parts (path : String) : List String := (path.toList.splitOn '/').map String.ofList

/-- The part leads nowhere. -/
def isIdle (part : String) : Bool := part == "" || part == "."

/-- The parts that lead somewhere. -/
def names (path : String) : List String := (parts path).filter fun part => !isIdle part

/-- The path of names. -/
def ofNames (absolute : Bool) (names : List String) : String :=
  (if absolute then "/" else "") ++ "/".intercalate names

/-- The directory in which the last name of a path stands: the working directory for a path without
one. -/
def directory (path : String) : String :=
  let names := names path
  if names.isEmpty then "."
  else
    let parent := ofNames (isAbsolute path) names.dropLast
    if parent.isEmpty then "." else parent

/-- The path of a name in a directory. -/
def join (directory name : String) : String :=
  if directory.isEmpty || directory.toList.getLast? == some '/' then directory ++ name
  else directory ++ "/" ++ name

end JavaSignatures.Path
