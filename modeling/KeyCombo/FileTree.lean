import KeyCombo.FileSystem

set_option autoImplicit false

/-! # File trees

A file system given by its files and folders. A path is followed component by component, from the
root if it starts with a slash and from the current folder if not. There are no links, and
everything may be read. -/

namespace KeyCombo

/-- Files and folders, with the components of their paths from the root, and the current folder.
    The root, the current folder and every folder that something lies in are there without being
    listed. -/
structure FileTree where
  files : List (List String × ByteArray)
  folders : List (List String)
  current : List String

namespace FileTree

/-- What a path leads to. -/
inductive Place where
  /-- A folder, with the components of its path, last one first. -/
  | folder (path : List String)
  | file (bytes : ByteArray)

/-- Whether a path is that of a folder. -/
def isFolder (tree : FileTree) (path : List String) : Bool :=
  (tree.current :: tree.folders ++ tree.files.map fun f => f.1.dropLast).any path.isPrefixOf

/-- The longest name that a component of a path may have, in bytes. -/
def maxName : Nat := 255

/-- The longest path, in bytes. -/
def maxPath : Nat := 4095

/-- Where a component leads from a place. The root is the folder above itself. -/
def step (tree : FileTree) : Place → String → Except FileFault Place
  | .file _, _ => .error .notDirectory
  | place, "" => .ok place
  | place, "." => .ok place
  | .folder path, ".." => .ok (.folder path.tail)
  | .folder path, name =>
    if maxName < name.utf8ByteSize then .error .nameTooLong
    else
      match tree.files.lookup (name :: path).reverse with
      | some bytes => .ok (.file bytes)
      | none =>
        if tree.isFolder (name :: path).reverse then .ok (.folder (name :: path))
        else .error .notFound

/-- The folder that a path starts from. -/
def start (tree : FileTree) (path : List Char) : Place :=
  if path.head? = some '/' then .folder [] else .folder tree.current.reverse

/-- The bytes of the file that a path leads to. -/
def bytes (tree : FileTree) (path : String) : Except FileFault ByteArray := do
  let cs := path.toList
  if cs.contains '\x00' then throw .nulInPath
  if cs.isEmpty then throw .notFound
  if maxPath < path.utf8ByteSize then throw .nameTooLong
  match ← ((cs.splitOn '/').map String.ofList).foldlM tree.step (tree.start cs) with
  | .file bytes => return bytes
  | .folder _ => throw .isDirectory

/-- The file system of a tree. -/
def system (tree : FileTree) : FileSystem := ⟨tree.bytes⟩

end FileTree

end KeyCombo
