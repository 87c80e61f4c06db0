import Scriptlet.Table

/-!
# Files on a disk

A disk is a tree of directories and files with a current directory. A path is
walked part by part: an absolute one from the root, any other from the current
directory. Each part is looked up in a directory, so that nothing may follow a
file or a name that is not there, not even a step back. Names and paths have a
greatest length in bytes. Links, rights and changes are left out.
-/

namespace Scriptlet

/-- Why a file cannot be opened or read. -/
inductive FileFault where
  | notFound
  | notDirectory
  | isDirectory
  | nameTooLong
deriving DecidableEq, Repr

/-- The words of the system for a failure. -/
def FileFault.words : FileFault → String
  | notFound => "No such file or directory"
  | notDirectory => "Not a directory"
  | isDirectory => "Is a directory"
  | nameTooLong => "File name too long"

/-- The number of the system for a failure. -/
def FileFault.number : FileFault → Nat
  | notFound => 2
  | notDirectory => 20
  | isDirectory => 21
  | nameTooLong => 36

/-- A failure with its words and its number. -/
def systemMessage (words : String) (number : Nat) : String :=
  words ++ " (os error " ++ toString number ++ ")"

/-- The wording of a failure. -/
def FileFault.message (f : FileFault) : String := systemMessage f.words f.number

/-- What came of reading a file. -/
inductive FileContent where
  | bytes (content : List UInt8)
  | cannotOpen (cause : String)
  | cannotRead (cause : String)
deriving DecidableEq, Repr

/-- A file or a directory. -/
inductive FileTree where
  | file (content : List UInt8)
  | directory (entries : Table String FileTree)

namespace FileTree

/-- The greatest length of a name in bytes. -/
def maxName : Nat := 255

/-- An empty directory. -/
def empty : FileTree := directory Table.empty

/-- Put something at the end of a path, making the directories on the way. -/
def put (content : FileTree) : List String → FileTree → FileTree
  | [], _ => content
  | name :: rest, file _ => directory (Table.empty.insert name (put content rest empty))
  | name :: rest, directory entries =>
    directory (entries.insert name (put content rest ((entries.get? name).getD empty)))

/-- Walk the parts of a path from a place; `outer` are the directories around
it, the nearest first. Outside the root is the root again. -/
def walk (outer : List FileTree) : FileTree → List String → Except FileFault FileTree
  | here, [] => .ok here
  | file _, _ :: _ => .error .notDirectory
  | directory entries, name :: rest =>
    if name = "" ∨ name = "." then walk outer (directory entries) rest
    else if name = ".." then
      match outer with
      | [] => walk [] (directory entries) rest
      | up :: further => walk further up rest
    else if maxName < name.utf8ByteSize then .error .nameTooLong
    else match entries.get? name with
      | none => .error .notFound
      | some next => walk (directory entries :: outer) next rest

end FileTree

/-- A disk with a current directory. -/
structure Disk where
  /-- The root directory. -/
  root : FileTree
  /-- The path of the current directory from the root. -/
  current : List String

namespace Disk

/-- The length in bytes from which on a path is too long. -/
def pathLimit : Nat := 4096

/-- What a path leads to. -/
def find (d : Disk) (path : String) : Except FileFault FileTree :=
  if path.isEmpty then .error .notFound
  else if pathLimit ≤ path.utf8ByteSize then .error .nameTooLong
  else
    let parts := path.splitOn "/"
    FileTree.walk [] d.root (if path.startsWith "/" then parts else d.current ++ parts)

/-- Read a file. A directory can be opened, but not read. -/
def read (d : Disk) (path : String) : FileContent :=
  match d.find path with
  | .ok (.file content) => .bytes content
  | .ok (.directory _) => .cannotRead FileFault.isDirectory.message
  | .error fault => .cannotOpen fault.message

/-- Whether a path leads anywhere. -/
def contains (d : Disk) (path : String) : Bool := (d.find path).isOk

/-- Put a file at a path from the current directory. -/
def write (d : Disk) (path : String) (content : List UInt8) : Disk :=
  { d with root := FileTree.put (.file content) (d.current ++ path.splitOn "/") d.root }

end Disk

end Scriptlet
