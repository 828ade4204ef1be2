import Constituency.File.Error

/-!
# Finding files

A run finds its files in a tree of directories. A path is followed name by name, from the root if it
starts with a slash and from the working directory otherwise; every name but the last must lead to a
directory. The standard input has a place in the tree too, and reading it there uses it up.
-/
namespace Constituency

/-- A file, the standard input, or a directory with what it holds under each name. -/
inductive FileTree where
  | file (bytes : ByteArray)
  | input
  | directory (entries : List (String × FileTree))

/-- The directories between a place in a tree and the root, the nearest first. -/
abbrev Ancestors := List FileTree

/-- How many bytes a name may have. -/
def nameLimit : Nat := 255

/-- How many bytes a path may have. -/
def pathLimit : Nat := 4095

/-- Follows names from a place in a tree: where they lead, and the directories above it. The
directory above the root is the root. -/
def FileTree.follow (here : FileTree) (above : Ancestors) :
    List String → Except SystemError (FileTree × Ancestors)
  | [] => .ok (here, above)
  | name :: rest =>
    match here with
    | directory entries =>
      if name = "" ∨ name = "." then here.follow above rest
      else if name = ".." then
        match above with
        | [] => here.follow [] rest
        | up :: further => up.follow further rest
      else if nameLimit < name.utf8ByteSize then .error .nameTooLong
      else
        match entries.lookup name with
        | some next => next.follow (here :: above) rest
        | none => .error .notFound
    | _ => .error .notDirectory

/-- What a run of a program finds: the files, the directory in which it works, and its input. -/
structure Surroundings where
  root : FileTree
  workingDirectory : List String
  input : ByteArray

namespace Surroundings

/-- Where a path leads. -/
def find (s : Surroundings) (path : String) : Except SystemError FileTree := do
  if path = "" then throw .notFound
  if pathLimit < path.utf8ByteSize then throw .nameTooLong
  let (start, above) ←
    if path.startsWith "/" then pure (s.root, []) else s.root.follow [] s.workingDirectory
  let (found, _) ← start.follow above (path.splitOn "/")
  return found

/-- The bytes that a path leads to. -/
def read (s : Surroundings) (path : String) : Except SystemError ByteArray := do
  match ← s.find path with
  | .file bytes => return bytes
  | .input => return s.input
  | .directory _ => throw .isDirectory

/-- What is left of the input once a path has been read. -/
def inputAfter (s : Surroundings) (path : String) : ByteArray :=
  match s.find path with
  | .ok .input => .empty
  | _ => s.input

end Surroundings

end Constituency
