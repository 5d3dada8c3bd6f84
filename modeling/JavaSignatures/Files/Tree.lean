import JavaSignatures.Files.Access
import JavaSignatures.Files.Path
import JavaSignatures.OrderedMap

set_option autoImplicit false

/-!
# Files: trees

A file system as a value: a tree of directories, and the directory in which paths begin.  A path is
followed part by part from a place (`FileSystem.locate`), so that `a/../b` leads to `b` only if `a`
is a directory.
-/

namespace JavaSignatures

/-- A file, or a directory with its entries. -/
inductive FileTree where
  | file (content : ByteArray)
  | directory (entries : List (String × FileTree))
  deriving Inhabited

namespace FileTree

/-- The directory without entries. -/
def empty : FileTree := .directory []

/-- The entry of a directory. -/
def child? (name : String) : FileTree → Except FileError FileTree
  | .file _ => .error .notDirectory
  | .directory entries =>
    if 255 < name.utf8ByteSize then .error .nameTooLong
    else
      match Entries.get? name entries with
      | some tree => .ok tree
      | none => .error .notFound

/-- The tree at the end of a list of names. -/
def at? : List String → FileTree → Except FileError FileTree
  | [], tree => .ok tree
  | name :: names, tree =>
    match tree.child? name with
    | .ok child => at? names child
    | .error error => .error error

/-- The content of a file. -/
def content? : FileTree → Except FileError ByteArray
  | .file content => .ok content
  | .directory _ => .error .isDirectory

/-- Puts a file at the end of a list of names; missing directories on the way are made. -/
def put (content : ByteArray) : List String → FileTree → FileTree
  | [], _ => .file content
  | name :: names, .directory entries =>
    .directory (Entries.upsert name (fun old => put content names (old.getD empty)) entries)
  | _ :: _, .file old => .file old

end FileTree

/-- Where a path leads: the names from the top of the file system. -/
abbrev Place := List String

namespace Place

/-- The path that leads to the place from everywhere. -/
def absolute (place : Place) : String := Path.ofNames true place

end Place

/-- A tree of files, and the directory in which relative paths begin. -/
structure FileSystem where
  top : FileTree := .empty
  workingDirectory : Place := []
  deriving Inhabited

namespace FileSystem

/-- Goes on from a place by one part of a path. -/
def step (system : FileSystem) (place : Place) (part : String) : Except FileError Place :=
  match system.top.at? place with
  | .error error => .error error
  | .ok (.file _) => .error .notDirectory
  | .ok tree =>
    if Path.isIdle part then .ok place
    else if part == ".." then .ok place.dropLast
    else (tree.child? part).map fun _ => place ++ [part]

/-- The place to which a path leads, if something is there. -/
def locate (system : FileSystem) (path : String) : Except FileError Place :=
  if path.toList.contains '\x00' then .error .nulInName
  else if path.isEmpty then .error .notFound
  else if 4096 ≤ path.utf8ByteSize then .error .nameTooLong
  else
    (Path.parts path).foldlM system.step
      (if Path.isAbsolute path then [] else system.workingDirectory)

/-- What stands at the place to which a path leads. -/
def find? (system : FileSystem) (path : String) : Except FileError FileTree := do
  system.top.at? (← system.locate path)

/-- The files of the tree. -/
def files (system : FileSystem) : Files where
  read path := do (← system.find? path).content?

/-- Puts a file at a place. -/
def put (system : FileSystem) (place : Place) (content : ByteArray) : FileSystem :=
  { system with top := system.top.put content place }

end FileSystem

end JavaSignatures
