import PackageLint.Text.Basic

/-!
# Slash-separated paths

Paths are strings of segments separated by slashes. Their normal form drops empty and `.` segments
and cancels `..` against the segment before it. A path with exactly two leading slashes keeps both,
since such a path may mean something special; three or more count as one.

A tidy path drops empty and `.` segments too, but keeps `..`: it leads through the same directories.

Joining appends: a later part stays below the first one even when it begins with a slash, and a
trailing slash of the last part is kept, so that a joined path still says whether it names a
directory.

## Main definitions

* `Path.normalize`: the normal form.
* `Path.tidy`: the path without the segments that lead nowhere.
* `Path.join`, `Path.joinAll`: the normal form of a base with parts below it.
* `Path.parent`, `Path.baseName`, `Path.extension`: the pieces of a path.
* `Path.ancestors`: the chain of parents up to the fixed point.
* `Path.relative?`: the way from one location to another.
-/

namespace PackageLint.Path

/-- One segment of a path. -/
abbrev Segment := List Char

/-! ### Normal form -/

/-- The number of leading slashes that the normal form keeps. -/
def rootSlashes : List Char → Nat
  | '/' :: '/' :: '/' :: _ => 1
  | '/' :: '/' :: _ => 2
  | '/' :: _ => 1
  | _ => 0

/-- Adds a segment to the segments before it, the latest first. Below a root nothing is left for
`..` to cancel, so there it vanishes; elsewhere it stays. -/
def pushSegment (rooted : Bool) (before : List Segment) (segment : Segment) : List Segment :=
  if segment = [] || segment = ['.'] then before
  else if segment = ['.', '.'] then
    match before with
    | [] => if rooted then [] else [segment]
    | last :: rest => if last = ['.', '.'] then segment :: before else rest
  else segment :: before

/-- The segments of the normal form. -/
def normalSegments (cs : List Char) : List Segment :=
  ((Text.pieces '/' cs).foldl (pushSegment (rootSlashes cs != 0)) []).reverse

/-- The path with the given leading slashes and segments. -/
def ofSegments (slashes : Nat) (segments : List Segment) : List Char :=
  List.replicate slashes '/' ++ ['/'].intercalate segments

/-- The normal form of a path, as characters. -/
def normalizeChars (cs : List Char) : List Char :=
  match ofSegments (rootSlashes cs) (normalSegments cs) with
  | [] => ['.']
  | path => path

/-- The normal form of a path; the empty path is the current directory. -/
def normalize (path : String) : String := String.ofList (normalizeChars path.toList)

/-! ### Tidy paths -/

/-- The segments of a path that lead somewhere. -/
def leadingSegments (path : String) : List String :=
  (Text.splitString '/' path).filter fun s => s ≠ "" && s ≠ "."

/-- A path without the segments that lead nowhere; the current directory is the empty path. -/
def tidy (path : String) : String :=
  String.ofList (List.replicate (rootSlashes path.toList) '/')
    ++ Text.join "/" (leadingSegments path)

/-! ### Joining -/

/-- Puts a part below a base, with a slash between them where there is none. -/
def appendPart (base part : List Char) : List Char :=
  if base = [] || base.getLast? = some '/' then base ++ part else base ++ '/' :: part

/-- The join of a base with parts below it, as characters. -/
def joinChars (base : List Char) (parts : List (List Char)) : List Char :=
  let below := (parts.map (Text.stripLeading '/')).foldl appendPart base
  let path := normalizeChars below
  if ((base :: parts).getLast?.getD []).getLast? = some '/' && path.getLast? != some '/' then
    path ++ ['/']
  else path

/-- The normal form of all parts put below each other; no part at all is the current directory. -/
def joinAll : List String → String
  | [] => "."
  | base :: parts => String.ofList (joinChars base.toList (parts.map String.toList))

/-- The normal form of a part below a base. -/
def join (base part : String) : String := joinAll [base, part]

/-! ### Pieces of a path -/

/-- Splits a path after its last slash. -/
def splitLast : List Char → List Char × List Char
  | [] => ([], [])
  | c :: rest =>
    let (before, name) := splitLast rest
    if before = [] && c != '/' then ([], c :: name) else (c :: before, name)

/-- The list without its trailing slashes. -/
def dropTrailingSlashes (cs : List Char) : List Char :=
  (cs.reverse.dropWhile (· = '/')).reverse

/-- The parent of a path, as characters: what comes before the last segment. Only slashes stay as
they are. -/
def parentChars (cs : List Char) : List Char :=
  let before := (splitLast cs).1
  if before.all (· = '/') then before else dropTrailingSlashes before

/-- The parent directory of a path. -/
def parent (path : String) : String := String.ofList (parentChars path.toList)

/-- The last segment of a path. -/
def baseName (path : String) : String := String.ofList (splitLast path.toList).2

/-- The extension of a name without leading dots: the text from its last dot on. -/
def extensionOf : List Char → List Char
  | [] => []
  | c :: rest =>
    match extensionOf rest with
    | [] => if c = '.' then c :: rest else []
    | found => found

/-- The extension of the last segment with its dot. Leading dots of a segment start no extension. -/
def extension (path : String) : String :=
  String.ofList (extensionOf ((splitLast path.toList).2.dropWhile (· = '.')))

/-- The chain of parents of a path, nearest first, up to the one that is its own parent. The number
of characters bounds the chain, for a parent that differs is shorter. -/
def ancestorsFrom : Nat → String → List String
  | 0, dir => [dir]
  | bound + 1, dir =>
    if parent dir = dir then [dir] else dir :: ancestorsFrom bound (parent dir)

/-- The directories above a path, nearest first. -/
def ancestors (path : String) : List String := ancestorsFrom path.length (parent path)

/-! ### The way between two locations -/

/-- Whether a path starts at the root. -/
def isRooted (path : String) : Bool := Text.hasStart path "/"

/-- The normal form of a path seen from a working directory. -/
def absolute (workDir path : String) : String :=
  if isRooted path then normalize path
  else String.ofList (normalizeChars (appendPart workDir.toList path.toList))

/-- The segments of a path in its absolute form. -/
def absoluteSegments (workDir path : String) : List Segment :=
  (Text.pieces '/' (absolute workDir path).toList).filter (· ≠ [])

/-- Drops what two lists share at their start. -/
def dropShared : List Segment → List Segment → List Segment × List Segment
  | a :: as, b :: bs => if a = b then dropShared as bs else (a :: as, b :: bs)
  | as, bs => (as, bs)

/-- The way from a start to a path: up by `..` to what they share, then down. The empty path is no
location. -/
def relative? (workDir start path : String) : Option String :=
  if path = "" then none
  else
    let (up, down) := dropShared (absoluteSegments workDir start) (absoluteSegments workDir path)
    match up.map (fun _ => ['.', '.']) ++ down with
    | [] => some "."
    | segments => some (String.ofList (['/'].intercalate segments))

end PackageLint.Path
