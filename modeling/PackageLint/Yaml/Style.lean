import PackageLint.Text.Hex
import PackageLint.Yaml.Mark
import PackageLint.Yaml.Tag

/-!
# How strings are written

A string is written without quotes where it then reads as the same string, in single quotes where
nothing in it needs an escape, and in double quotes otherwise. Long values are folded at single
spaces beyond the eightieth column.

## Main definitions

* `Yaml.Shape.of`: which forms a string can take.
* `Yaml.stringText`: a string in the form it takes.
-/

namespace PackageLint.Yaml

/-- Which forms a string can take. -/
structure Shape where
  /-- Whether the string has no characters. -/
  empty : Bool
  /-- Whether it holds line ends. -/
  multiline : Bool
  /-- Whether it can be written without quotes, as far as its characters go. -/
  plain : Bool
  /-- Whether it can be written in single quotes. -/
  single : Bool

namespace Shape

/-- Whether a character ends a line within a string. -/
def endsLine (c : Char) : Bool := isBreak c && c != '\r'

/-- Whether a character has to be escaped. -/
def isSpecial (c : Char) : Bool := !(c = '\n' || (' ' ≤ c && c ≤ '~'))

/-- Whether two characters of different kinds stand next to each other. -/
def hasPair (p q : Char → Bool) : List Char → Bool
  | a :: b :: rest => (p a && q b) || hasPair p q (b :: rest)
  | _ => false

/-- Whether an indicator within a string could be read as one, given the character before. -/
def hasIndicator (before : Char) : List Char → Bool
  | [] => false
  | c :: rest =>
    (c = ':' && isGap (rest.headD endChar)) || (c = '#' && isGap before) || hasIndicator c rest

/-- Whether the start of a string could be read as an indicator. -/
def startsIndicator (cs : List Char) : Bool :=
  let c := cs.headD endChar
  let next := (cs.drop 1).headD endChar
  "#,[]\x7b\x7d&*!|>'\"%@`".toList.contains c
    || (['?', ':', '-'].contains c && isGap next)
    || ['-', '-', '-'].isPrefixOf cs || ['.', '.', '.'].isPrefixOf cs

/-- The forms that a string can take. -/
def of (cs : List Char) : Shape :=
  let isSpace (c : Char) : Bool := c = ' '
  let edge (c : Char) : Bool := isSpace c || endsLine c
  let multiline := cs.any endsLine
  let breakSpace := hasPair endsLine isSpace cs
  let special := hasPair isSpace endsLine cs || cs.any isSpecial
  { empty := cs.isEmpty
    multiline
    plain :=
      !(startsIndicator cs || hasIndicator (cs.headD 'x') (cs.drop 1) || multiline || breakSpace
        || special || (cs.head?.map edge).getD false || (cs.getLast?.map edge).getD false)
    single := !(breakSpace || special) }

end Shape

/-! ### Writing -/

/-- The column after which a value is folded. -/
def bestWidth : Nat := 80

/-- Where a string is written. -/
structure Room where
  /-- The column where it begins. -/
  column : Nat
  /-- The column where its further lines begin. -/
  indent : Nat
  /-- Whether it may be folded. -/
  fold : Bool

/-- The start of a new line of a value. -/
def Room.newLine (room : Room) : List Char := '\n' :: List.replicate room.indent ' '

/-- Spaces, or a fold in place of a single one that comes late on its line, with the column after. -/
def Room.spaces (room : Room) (foldable : Bool) (column count : Nat) : List Char × Nat :=
  if count = 1 && bestWidth < column && room.fold && foldable then (room.newLine, room.indent)
  else (List.replicate count ' ', column + count)

/-- A string without quotes, after `pending` spaces. -/
def plainText (room : Room) (column pending : Nat) : List Char → List Char
  | [] => (room.spaces true column pending).1
  | c :: rest =>
    if c = ' ' then plainText room column (pending + 1) rest
    else if pending = 0 then c :: plainText room (column + 1) 0 rest
    else
      let (gap, column) := room.spaces true column pending
      gap ++ c :: plainText room (column + 1) 0 rest

/-- Line ends in single quotes: one more than there are, and the start of the next line. -/
def brokenText (room : Room) (breaks : List Char) : List Char :=
  (if breaks.head? = some '\n' then ['\n'] else []) ++ breaks
    ++ List.replicate room.indent ' '

/-- A string between single quotes, after spaces or line ends that are not yet written. The first
characters of a string are never folded. -/
def singleText (room : Room) (column pending : Nat) (breaks : List Char) (started : Bool) :
    List Char → List Char
  | [] =>
    if breaks.isEmpty then List.replicate pending ' ' else brokenText room breaks
  | c :: rest =>
    if c = ' ' && breaks.isEmpty then singleText room column (pending + 1) [] started rest
    else if Shape.endsLine c && pending = 0 then
      singleText room column 0 (breaks ++ [c]) true rest
    else
      let (gap, column) : List Char × Nat :=
        if !breaks.isEmpty then (brokenText room breaks, room.indent)
        else if pending = 0 then ([], column)
        else room.spaces started column pending
      let text := if c = '\'' then ['\'', '\''] else [c]
      gap ++ text ++ singleText room (column + text.length) 0 [] true rest

/-- The letters of the short escapes. -/
def escapeLetters : List (Char × Char) :=
  [('\x00', '0'), ('\x07', 'a'), ('\x08', 'b'), ('\t', 't'), ('\n', 'n'), ('\x0b', 'v'),
   ('\x0c', 'f'), ('\r', 'r'), ('\x1b', 'e'), ('"', '"'), ('\\', '\\'), ('\u0085', 'N'),
   ('\u00a0', '_'), ('\u2028', 'L'), ('\u2029', 'P')]

/-- Hexadecimal digits in upper case. -/
def upperHex (count n : Nat) : List Char := (Text.hexDigits count n).map Text.upperAscii

/-- The escape of a character, when it has to be escaped between double quotes. -/
def escapeOf? (c : Char) : Option (List Char) :=
  match escapeLetters.lookup c with
  | some letter => some ['\\', letter]
  | none =>
    if ' ' ≤ c && c ≤ '~' then none
    else if c.toNat ≤ 0xff then some ('\\' :: 'x' :: upperHex 2 c.toNat)
    else if c.toNat ≤ 0xffff then some ('\\' :: 'u' :: upperHex 4 c.toNat)
    else some ('\\' :: 'U' :: upperHex 8 c.toNat)

/-- A string between double quotes, after `pending` characters that are written on the line but can
still be followed by a fold. A fold is a backslash at the end of a line, and a space after it is
escaped. `first` says whether nothing came before. -/
def doubleText (room : Room) (column pending : Nat) (first : Bool) : List Char → List Char
  | [] => []
  | c :: rest =>
    let foldable := !first && !rest.isEmpty && room.fold
    match escapeOf? c with
    | some escape =>
      let column := column + pending + escape.length
      if foldable && bestWidth + 1 < column then
        escape ++ '\\' :: room.newLine
          ++ (if rest.head? = some ' ' then '\\' :: doubleText room (room.indent + 1) 0 false rest
              else doubleText room room.indent 0 false rest)
      else escape ++ doubleText room column 0 false rest
    | none =>
      if foldable && (c = ' ' || pending = 0) && bestWidth < column + pending then
        if c = ' ' then
          '\\' :: room.newLine ++ '\\' :: c :: doubleText room (room.indent + 1) 1 false rest
        else '\\' :: room.newLine ++ c :: doubleText room room.indent 1 false rest
      else c :: doubleText room column (pending + 1) false rest

/-- Whether a string without quotes reads as itself. -/
def readsAsItself (s : String) : Bool := Tag.ofPlain s = .str

/-- A string in the form it takes; `isKey` says whether it is written as the key of a mapping on one
line. -/
def stringText (isKey : Bool) (room : Room) (s : String) : List Char :=
  let cs := s.toList
  let shape := Shape.of cs
  if readsAsItself s && shape.plain && !(isKey && (shape.empty || shape.multiline)) then
    plainText room room.column 0 cs
  else if shape.single && !(isKey && shape.multiline) then
    '\'' :: singleText room (room.column + 1) 0 [] false cs ++ ['\'']
  else '"' :: doubleText room (room.column + 1) 0 true cs ++ ['"']

end PackageLint.Yaml
