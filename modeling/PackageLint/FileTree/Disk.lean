import PackageLint.FileTree.Basic
import PackageLint.Path.Basic
import PackageLint.Text.Basic
import PackageLint.Text.Utf8

/-!
# Disks

A disk holds directories and files of bytes, and a path is walked segment by segment: every segment
but the last has to be a directory, also one that a later `..` leaves again. A path that ends with a
slash therefore names a directory. Reading a file is the exception, since it first drops empty and
`.` segments, and with them a slash at the end.

Names have a greatest length, and looking for a longer one is an error of its own. A text with a NUL
character is refused before anything is looked for.

## Main definitions

* `Disk`: the disks.
* `Disk.find`: what a path leads to.
* `Disk.toFileTree`: the answers of a disk.
* `Disk.makeDirs`, `Disk.writeFile`, `Disk.appendFile`: changes.
-/

namespace PackageLint

/-- A place on a disk: the names that lead to it from the root. -/
abbrev Place := List String

/-- A disk without links. -/
structure Disk where
  /-- The bytes of the files. -/
  files : List (Place × List UInt8) := []
  /-- The directories below the root. -/
  dirs : List Place := []
  /-- The directory that relative paths start from. -/
  workDir : Place := []
  deriving Repr, Inhabited

/-- Why a change of a disk fails. -/
inductive DiskError where
  /-- What was to be read or written cannot be. -/
  | file (error : FileError)
  /-- A directory cannot be made, for there is a file in its place. -/
  | alreadyThere (path : String)
  deriving DecidableEq, Repr, Inhabited

namespace Disk

/-! ### Names -/

/-- The most bytes of a name. -/
def longestName : Nat := 255

/-- Whether a name is longer than any name can be. -/
def isTooLong (name : String) : Bool := decide (longestName < name.utf8ByteSize)

/-- Whether a text holds the character that ends a path. -/
def holdsNul (text : String) : Bool := text.toList.contains '\x00'

/-! ### Walking -/

/-- What a place holds. -/
inductive Entry where
  | file (place : Place) (bytes : List UInt8)
  | dir (place : Place)
  deriving Repr

/-- What is at a place. -/
def entryAt? (disk : Disk) (place : Place) : Option Entry :=
  match disk.files.lookup place with
  | some bytes => some (.file place bytes)
  | none => if place = [] || disk.dirs.contains place then some (.dir place) else none

/-- One step from a directory. -/
def step? (disk : Disk) (dir : Place) (segment : String) : Option Entry :=
  if segment = "" || segment = "." then some (.dir dir)
  else if segment = ".." then some (.dir dir.dropLast)
  else disk.entryAt? (dir ++ [segment])

/-- What the segments of a path lead to. The path is for the error. -/
def walk (disk : Disk) (path : String) : Entry → List String → Except FileError Entry
  | entry, [] => .ok entry
  | .file _ _, _ :: _ => .error (.notDirectory path)
  | .dir dir, segment :: rest =>
    match disk.step? dir segment with
    | some entry => walk disk path entry rest
    | none => .error (if isTooLong segment then .nameTooLong path else .notFound path)

/-- The directory that a path starts from. -/
def startOf (disk : Disk) (path : String) : Entry :=
  .dir (if Text.hasStart path "/" then [] else disk.workDir)

/-- What a path leads to. The empty path leads nowhere. -/
def find (disk : Disk) (path : String) : Except FileError Entry :=
  if path = "" then .error (.notFound path)
  else if holdsNul path then .error (.notPath path)
  else disk.walk path (disk.startOf path) (Text.splitString '/' path)

/-- What a path leads to once it is tidy. -/
def findTidy (disk : Disk) (path : String) : Except FileError Entry :=
  if holdsNul path then .error (.notPath path)
  else disk.walk path (disk.startOf path) (Path.leadingSegments path)

/-! ### Answers -/

/-- The bytes of a file. -/
def bytes (disk : Disk) (path : String) : Except FileError (List UInt8) :=
  match disk.findTidy path with
  | .ok (.file _ bytes) => .ok bytes
  | .ok (.dir _) => .error (.isDirectory path)
  | .error e => .error e

/-- The text of a file. -/
def contents (disk : Disk) (path : String) : Except FileError String :=
  (disk.bytes path).map Utf8.read

/-- The name of a place within a directory. -/
def nameIn? (dir place : Place) : Option String :=
  if place.dropLast = dir then place.getLast? else none

/-- The names in a directory, in their order. -/
def namesIn (disk : Disk) (dir : Place) : List String :=
  ((disk.files.map Prod.fst ++ disk.dirs).filterMap (nameIn? dir)).mergeSort fun a b => a ≤ b

/-- The names in a directory. -/
def entries (disk : Disk) (path : String) : Except FileError (List String) :=
  match disk.find path with
  | .ok (.dir dir) => .ok (disk.namesIn dir)
  | .ok (.file _ _) => .error (.notDirectory path)
  | .error e => .error e

/-- Whether a path is a directory. -/
def isDir (disk : Disk) (path : String) : Bool :=
  match disk.find path with
  | .ok (.dir _) => true
  | _ => false

/-- Whether a path is a file or a directory. -/
def isThere (disk : Disk) (path : String) : Bool :=
  match disk.find path with
  | .ok _ => true
  | .error _ => false

/-- The answers of a disk. -/
def toFileTree (disk : Disk) : FileTree :=
  { contents := disk.contents
    entries := disk.entries
    isDir := disk.isDir
    isThere := disk.isThere
    depth := disk.dirs.length + 1 }

/-! ### Changes -/

/-- Makes the directories that the segments of a path name, below a directory. -/
def makeBelow (path : String) (disk : Disk) (dir : Place) :
    List String → Except DiskError (Disk × Place)
  | [] => .ok (disk, dir)
  | segment :: rest =>
    match disk.step? dir segment with
    | some (.dir next) => makeBelow path disk next rest
    | some (.file _ _) =>
      if rest.isEmpty then .error (.alreadyThere path) else .error (.file (.notDirectory path))
    | none =>
      if isTooLong segment then .error (.file (.nameTooLong path))
      else makeBelow path { disk with dirs := disk.dirs ++ [dir ++ [segment]] } (dir ++ [segment]) rest

/-- Makes a directory with those above it, as far as they are not there. -/
def makeDirs (disk : Disk) (path : String) : Except DiskError Disk :=
  if holdsNul path then .error (.file (.notPath path))
  else
    let start := if Text.hasStart path "/" then [] else disk.workDir
    (makeBelow path disk start (Path.leadingSegments path)).map Prod.fst

/-- Puts bytes in the place of a file. -/
def put (disk : Disk) (place : Place) (bytes : List UInt8) : Disk :=
  { disk with files := disk.files.filter (fun file => file.1 != place) ++ [(place, bytes)] }

/-- The place of a file that can be written, with the bytes that are there. -/
def target (disk : Disk) (path : String) : Except DiskError (Place × List UInt8) :=
  match disk.findTidy path with
  | .ok (.file place bytes) => .ok (place, bytes)
  | .ok (.dir _) => .error (.file (.isDirectory path))
  | .error (.notFound _) =>
    let segments := Path.leadingSegments path
    match disk.walk path (disk.startOf path) segments.dropLast, segments.getLast? with
    | .ok (.dir dir), some name => .ok (dir ++ [name], [])
    | _, _ => .error (.file (.notFound path))
  | .error e => .error (.file e)

/-- Writes a file in a directory that is there. -/
def writeFile (disk : Disk) (path : String) (bytes : List UInt8) : Except DiskError Disk :=
  (disk.target path).map fun (place, _) => disk.put place bytes

/-- Adds bytes at the end of a file in a directory that is there. -/
def appendFile (disk : Disk) (path : String) (bytes : List UInt8) : Except DiskError Disk :=
  (disk.target path).map fun (place, before) => disk.put place (before ++ bytes)

end Disk

end PackageLint
