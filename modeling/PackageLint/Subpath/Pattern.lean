import PackageLint.Text.Basic

/-!
# Wildcard patterns

A pattern is a text in which every `*` stands for a run of one or more characters of one line. Matching
is greedy: each wildcard, from the left, takes as many characters as leave a match for the rest. A
final line feed of the value may be left over.

## Main definitions

* `Pattern`: the literal parts of a pattern.
* `Pattern.ofText`: the pattern written in a text.
* `Pattern.captures?`: what the wildcards stand for in a value.
* `Pattern.topDir?`: the directory that all matching paths are below.
-/

namespace PackageLint

/-- The literal parts of a pattern: the text before the first wildcard, and the text after each. -/
structure Pattern where
  /-- The text before the first wildcard. -/
  head : List Char
  /-- The texts after the wildcards. -/
  tail : List (List Char)
  deriving DecidableEq, Repr

namespace Pattern

/-- The pattern written in a list of characters. -/
def ofChars (cs : List Char) : Pattern :=
  let (head, tail) := Text.split '*' cs
  { head, tail }

/-- The pattern written in a text. -/
def ofText (s : String) : Pattern := ofChars s.toList

/-- Whether a text is a pattern with some wildcard. -/
def hasWildcard (s : String) : Bool := s.toList.contains '*'

/-- Lets a wildcard take characters, as many as possible, such that `next` accepts what is left. -/
def wildcard (next : List Char → Option (List (List Char))) :
    List Char → Option (List Char × List (List Char))
  | [] => none
  | c :: rest =>
    if c = '\n' then none
    else
      match wildcard next rest with
      | some (taken, others) => some (c :: taken, others)
      | none => (next rest).map fun others => ([c], others)

/-- Matches a wildcard before each literal part, up to the end. -/
def matchTail : List (List Char) → List Char → Option (List (List Char))
  | [], cs => if cs = [] || cs = ['\n'] then some [] else none
  | literal :: rest, cs =>
    (wildcard (fun after => (Text.dropStart? literal after).bind (matchTail rest)) cs).map
      fun (taken, others) => taken :: others

/-- What the wildcards stand for in a list of characters, when the pattern matches it. -/
def match? (pattern : Pattern) (cs : List Char) : Option (List (List Char)) :=
  (Text.dropStart? pattern.head cs).bind (matchTail pattern.tail)

/-- What the wildcards stand for in a value, when the pattern matches it. -/
def captures? (pattern : Pattern) (value : String) : Option (List String) :=
  (pattern.match? value.toList).map fun captures => captures.map String.ofList

/-- Whether the pattern matches a value. -/
def accepts (pattern : Pattern) (value : String) : Bool := (pattern.match? value.toList).isSome

/-- Whether a character separates the segments of a path on some system. -/
def isSeparator (c : Char) : Bool := c = '/' || c = '\\'

/-- The text before the last separator of the first line of a pattern's head, when there is such a
text. -/
def topDirChars? (head : List Char) : Option (List Char) :=
  match (head.takeWhile (· ≠ '\n')).reverse.dropWhile (fun c => !isSeparator c) with
  | _ :: before => if before.isEmpty then none else some before.reverse
  | [] => none

/-- The directory that all matching paths are below. -/
def topDir? (pattern : String) : Option String :=
  (topDirChars? (ofText pattern).head).map String.ofList

end Pattern

end PackageLint
