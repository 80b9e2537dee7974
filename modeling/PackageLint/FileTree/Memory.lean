import PackageLint.Assoc
import PackageLint.FileTree.Basic
import PackageLint.Path.Basic

/-!
# File trees in memory

A tree in memory maps absolute paths in normal form to texts. Its directories are those above some
file, and list their entries in the order in which these first came.

## Main definitions

* `MemoryTree`: the trees.
* `MemoryTree.climb`: lists a path in the directories above it, up to the root.
* `MemoryTree.afterWrite`, `MemoryTree.write`: adds or replaces a file.
* `MemoryTree.ofFiles`: the tree of a list of files.
* `MemoryTree.toFileTree`: the answers of a tree.
-/

namespace PackageLint

/-- A tree of files in memory. -/
structure MemoryTree where
  /-- The texts of the files, by normal path. -/
  files : Assoc String := []
  /-- The entries of the directories, by normal path. -/
  dirs : Assoc (List String) := [("/", [])]
  deriving Repr, Inhabited

namespace MemoryTree

/-- Why a file cannot be written, with the normal form of its path. -/
inductive WriteError where
  /-- The path is not absolute. -/
  | notAbsolute (path : String)
  /-- The way up from the path never comes to the root `/`, so that the write does not end. -/
  | endless (path : String)
  deriving DecidableEq, Repr

/-- The wording of an error. -/
def WriteError.message : WriteError → String
  | .notAbsolute path => "MemoryVfs paths must be absolute: " ++ path
  | .endless path => "No way up to the root: " ++ path

/-- The tree with the root directory only. -/
def empty : MemoryTree := {}

/-- A list with a name at its end, unless it is there. -/
def addName (name : String) (names : List String) : List String :=
  if names.contains name then names else names ++ [name]

/-- Lists a name in a directory, which is made when it is not there. -/
def addEntry (dirs : Assoc (List String)) (dir name : String) : Assoc (List String) :=
  Assoc.put dir (addName name ((Assoc.get? dir dirs).getD [])) dirs

/-- Lists a name in a directory, then that directory in the one above it, and so on. Only at the root
`/` this is over, so where it never comes there, no bound is enough. The bound counts directories. -/
def climb : Nat → Assoc (List String) → String → String → Option (Assoc (List String))
  | 0, _, _, _ => none
  | bound + 1, dirs, child, dir =>
    let dirs := addEntry dirs dir (Path.baseName child)
    if dir = "/" then some dirs else climb bound dirs dir (Path.parent dir)

/-- What a write leaves of a tree, and how it ends. A path that is not absolute is refused before
anything is changed. Any other has at least as many characters as directories above it. -/
def afterWrite (tree : MemoryTree) (path content : String) :
    MemoryTree × Except WriteError Unit :=
  let path := Path.normalize path
  if Path.isRooted path then
    let tree := { tree with files := Assoc.put path content tree.files }
    match climb (path.length + 1) tree.dirs path (Path.parent path) with
    | some dirs => ({ tree with dirs }, .ok ())
    | none => (tree, .error (.endless path))
  else (tree, .error (.notAbsolute path))

/-- Adds or replaces a file, with all directories above it. -/
def write (tree : MemoryTree) (path content : String) : Except WriteError MemoryTree :=
  let (written, ending) := tree.afterWrite path content
  ending.map fun _ => written

/-- The tree of a list of files, written in order. -/
def ofFiles (files : List (String × String)) : Except WriteError MemoryTree :=
  files.foldlM (fun tree file => tree.write file.1 file.2) empty

/-- Whether a path ends with a slash, so that it can only name a directory. -/
def namesDirectory (path : String) : Bool := path.toList.getLast? = some '/'

/-- The text of a file. -/
def contents (tree : MemoryTree) (path : String) : Except FileError String :=
  let key := Path.normalize path
  match Assoc.get? key tree.files, namesDirectory path with
  | some content, false => .ok content
  | _, _ => if Assoc.hasKey key tree.dirs then .error (.isDirectory path) else .error (.notFound path)

/-- The names in a directory. -/
def entries (tree : MemoryTree) (path : String) : Except FileError (List String) :=
  match Assoc.get? (Path.normalize path) tree.dirs with
  | some names => .ok names
  | none => .error (.notFound path)

/-- Whether a path is a directory. -/
def isDir (tree : MemoryTree) (path : String) : Bool :=
  Assoc.hasKey (Path.normalize path) tree.dirs

/-- Whether a path is a file or a directory. -/
def isThere (tree : MemoryTree) (path : String) : Bool :=
  (!namesDirectory path && Assoc.hasKey (Path.normalize path) tree.files) || tree.isDir path

/-- The answers of a tree. Nested directories differ, so their number bounds a chain of them. -/
def toFileTree (tree : MemoryTree) : FileTree :=
  { contents := tree.contents
    entries := tree.entries
    isDir := tree.isDir
    isThere := tree.isThere
    depth := tree.dirs.length }

end MemoryTree

end PackageLint
