/-!
# Characters with their positions

Where a character stands on its line decides much of YAML's structure. A text is therefore read as a
list of characters that know their places, closed by a mark for the end of the text.

## Main definitions

* `Yaml.Mark`: a character with its place.
* `Yaml.marks?`: the marks of a text, unless it holds a character that YAML does not allow.
-/

namespace PackageLint.Yaml

/-- A character with its place. -/
structure Mark where
  /-- The character; NUL stands for the end of the text. -/
  char : Char
  /-- The number of line ends before it. -/
  line : Nat
  /-- The number of characters before it on its line. -/
  column : Nat
  /-- The number of characters before it. -/
  index : Nat
  deriving Repr, Inhabited

/-- The character at the end of a text. -/
def endChar : Char := '\x00'

/-- Whether a character ends a line. -/
def isBreak (c : Char) : Bool := [0xa, 0xd, 0x85, 0x2028, 0x2029].contains c.toNat

/-- Whether a character ends a line or the text. -/
def isBreakOrEnd (c : Char) : Bool := isBreak c || c = endChar

/-- Whether a character is a space, a tab, or ends a line or the text. -/
def isGap (c : Char) : Bool := c = ' ' || c = '\t' || isBreakOrEnd c

/-- The line end that a character stands for in a scalar. -/
def breakOf (c : Char) : Char := if c.toNat = 0x2028 || c.toNat = 0x2029 then c else '\n'

/-- Whether YAML allows a character. -/
def isAllowed (c : Char) : Bool :=
  c = '\t' || c = '\n' || c = '\r' || (0x20 ≤ c.toNat && c.toNat ≤ 0x7e) || c.toNat = 0x85
    || (0xa0 ≤ c.toNat && c.toNat ≤ 0xfffd) || 0x10000 ≤ c.toNat

/-- The marks of characters from a place on. A byte order mark takes no column. -/
def marksFrom (line column index : Nat) : List Char → List Mark
  | [] => [{ char := endChar, line, column, index }]
  | c :: rest =>
    { char := c, line, column, index } ::
      if isBreak c then marksFrom (line + 1) 0 (index + 1) rest
      else if c = '\uFEFF' then marksFrom line column (index + 1) rest
      else marksFrom line (column + 1) (index + 1) rest

/-- The marks of a text, whose lines end with line feeds. -/
def marks? (s : String) : Option (List Mark) :=
  if s.toList.all isAllowed then some (marksFrom 0 0 0 s.toList) else none

/-- The character that comes first. -/
def firstChar : List Mark → Char
  | [] => endChar
  | m :: _ => m.char

/-- The character at a distance. -/
def charAt (ms : List Mark) (i : Nat) : Char := firstChar (ms.drop i)

/-- The column of the next character. -/
def columnOf : List Mark → Nat
  | [] => 0
  | m :: _ => m.column

/-- The characters of marks. -/
def charsOf (ms : List Mark) : List Char := ms.map Mark.char

/-- Whether a document marker of a kind stands here: three of its characters and a gap. -/
def isMarker (c : Char) (ms : List Mark) : Bool :=
  charAt ms 0 = c && charAt ms 1 = c && charAt ms 2 = c && isGap (charAt ms 3)

/-- Whether a document marker of either kind stands here. -/
def isAnyMarker (ms : List Mark) : Bool := isMarker '-' ms || isMarker '.' ms

end PackageLint.Yaml
