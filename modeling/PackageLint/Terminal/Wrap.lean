import PackageLint.Text.Basic
import PackageLint.Text.Blank
import PackageLint.Text.Width

/-!
# Lines of a given width

A text takes cells of a terminal, and characters that are shown together are never separated. It is
broken into lines of at most a number of cells, at the end of a word where that is possible. A word
with more cells than a line is folded over several lines or cut, as asked. Tabs go to the next multiple
of eight cells.

## Main definitions

* `Wrap.width`: the cells of a text.
* `Wrap.clusters`: the characters that are shown together.
* `Wrap.expandTabs`: a line without tabs.
* `Wrap.wrap`: the lines of a text.
* `Wrap.cut`, `Wrap.padTo`: a line of a given width.
* `Wrap.printed`: a text as it is printed.
-/

namespace PackageLint.Wrap

/-! ### Cells -/

/-- The cells of the rest of a text; `last` is the character that a mark can widen. -/
def widthFrom (last : Option Char) : List Char → Nat
  | [] => 0
  | c :: rest =>
    if c = Text.joiner then
      match rest with
      | [] => 0
      | _ :: rest => widthFrom last rest
    else if c = Text.emojiForm then
      (if last.any Text.canWiden then 1 else 0) + widthFrom none rest
    else
      let cells := Text.cellWidth c
      cells + widthFrom (if cells = 0 then last else some c) rest

/-- The cells of a text. What a joiner joins takes no cell, and a character that can be wide is so
before the mark that asks for it. -/
def width (cs : List Char) : Nat := widthFrom none cs

/-- Characters that are shown together, with the cells they take. -/
structure Cluster where
  /-- The characters. -/
  chars : List Char
  /-- The cells. -/
  cells : Nat
  deriving Repr

/-- Adds a character to the last of the clusters before it, and widens that. -/
def joinLast (c : Char) (more : Nat) : List Cluster → List Cluster
  | [] => [⟨[c], more⟩]
  | last :: before => ⟨last.chars ++ [c], last.cells + more⟩ :: before

/-- The clusters of a text, the last one first, after those in `before`; `last` is the character that a
mark can widen. -/
def clustersFrom (last : Option Char) (before : List Cluster) : List Char → List Cluster
  | [] => before
  | c :: rest =>
    if c = Text.joiner then
      if before.isEmpty then clustersFrom last [⟨[c], 0⟩] rest
      else
        match rest with
        | [] => joinLast c 0 before
        | d :: rest => clustersFrom last (joinLast d 0 (joinLast c 0 before)) rest
    else if c = Text.emojiForm then
      if last.any Text.canWiden && !before.isEmpty then
        clustersFrom none (joinLast c 1 before) rest
      else clustersFrom last (joinLast c 0 before) rest
    else
      let cells := Text.cellWidth c
      if cells = 0 then clustersFrom last (joinLast c 0 before) rest
      else clustersFrom (some c) (⟨[c], cells⟩ :: before) rest

/-- The clusters of a text. -/
def clusters (cs : List Char) : List Cluster := (clustersFrom none [] cs).reverse

/-! ### Tabs -/

/-- The cells between two tab stops. -/
def tabSize : Nat := 8

/-- The pieces between tabs, each filled up to a tab stop but the last one. The first starts at a
cell. -/
def fillPieces (cell : Nat) : List (List Char) → List Char
  | [] => []
  | [last] => last
  | piece :: rest =>
    let filled := cell + width (piece ++ [' '])
    let next := (filled + tabSize - 1) / tabSize * tabSize
    piece ++ ' ' :: List.replicate (next - filled) ' ' ++ fillPieces next rest

/-- A line without tabs. -/
def expandTabs (line : List Char) : List Char := fillPieces 0 (Text.pieces '\t' line)

/-! ### One line -/

/-- The longest start of clusters within a number of cells. -/
def clustersWithin (room : Nat) : List Cluster → List Char
  | [] => []
  | c :: rest => if c.cells ≤ room then c.chars ++ clustersWithin (room - c.cells) rest else []

/-- The longest start of a line within a number of cells. -/
def startWithin (room : Nat) (line : List Char) : List Char := clustersWithin room (clusters line)

/-- A line with blanks at its end up to a number of cells. -/
def padTo (size : Nat) (line : List Char) : List Char :=
  line ++ List.replicate (size - width line) ' '

/-- A line cut to a number of cells. -/
def crop (size : Nat) (line : List Char) : List Char :=
  if size < width line then padTo size (startWithin size line) else line

/-- A line cut to a number of cells, with a mark where something is missing. -/
def cut (size : Nat) (line : List Char) : List Char :=
  if size < width line then padTo (size - 1) (startWithin (size - 1) line) ++ ['…'] else line

/-- A line without blanks at its end. -/
def dropEndBlanks (line : List Char) : List Char := (line.reverse.dropWhile Text.isBlank).reverse

/-- A line without those blanks at its end that go beyond a number of characters. -/
def dropBlanksBeyond (size : Nat) (line : List Char) : List Char :=
  let blanks := line.length - (dropEndBlanks line).length
  line.take (line.length - min blanks (line.length - size))

/-! ### Breaking -/

/-- Splits off a word: blanks, other characters, and the blanks after them. -/
def splitWord (cs : List Char) : List Char × List Char :=
  let lead := cs.takeWhile Text.isBlank
  let body := (cs.dropWhile Text.isBlank).takeWhile fun c => !Text.isBlank c
  let after := (cs.drop (lead.length + body.length)).takeWhile Text.isBlank
  let word := lead ++ body ++ after
  (word, cs.drop word.length)

/-- The words of a line, each with the blanks around it; at most `bound` of them. Blanks alone are no
word. -/
def wordsOf : Nat → List Char → List (List Char)
  | 0, _ => []
  | bound + 1, cs =>
    if cs.all Text.isBlank then []
    else (splitWord cs).1 :: wordsOf bound (splitWord cs).2

/-- The pieces of a word within a number of cells each; the first one has `piece` already, which takes
`used` cells. -/
def foldClusters (size : Nat) (piece : List Char) (used : Nat) : List Cluster → List (List Char)
  | [] => if used = 0 then [] else [piece]
  | c :: rest =>
    if size < used + c.cells then piece :: foldClusters size c.chars c.cells rest
    else foldClusters size (piece ++ c.chars) (used + c.cells) rest

/-- The pieces of a word within a number of cells each. -/
def foldWord (size : Nat) (word : List Char) : List (List Char) :=
  foldClusters size [] 0 (clusters word)

/-- The positions at which a line breaks, given its words from position `start` on, `used` cells of
the current line being taken. -/
def breaks (fold : Bool) (size start used : Nat) : List (List Char) → List Nat
  | [] => []
  | word :: rest =>
    let next := start + word.length
    let cells := width (dropEndBlanks word)
    let here := if start = 0 then [] else [start]
    if cells + used ≤ size then breaks fold size next (used + width word) rest
    else if size < cells then
      if fold then
        let parts := foldWord size word
        let starts := (parts.dropLast.foldl
          (fun (acc : Nat × List Nat) part =>
            (acc.1 + part.length, acc.2 ++ [acc.1 + part.length])) (start, [])).2
        here ++ starts ++ breaks fold size next (width (parts.getLastD [])) rest
      else here ++ breaks fold size next (width word) rest
    else here ++ breaks fold size next (width word) rest

/-- The pieces of a line between positions. -/
def divide (start : Nat) : List Nat → List Char → List (List Char)
  | [], cs => [cs]
  | p :: rest, cs => cs.take (p - start) :: divide p rest (cs.drop (p - start))

/-- The lines of a text, each within a number of cells unless a word is wider and not folded. -/
def wrap (fold : Bool) (size : Nat) (cs : List Char) : List (List Char) :=
  (Text.lines cs).flatMap fun line =>
    let line := expandTabs line
    (divide 0 (breaks fold size 0 0 (wordsOf line.length line)) line).map (dropBlanksBeyond size)

/-! ### Printing -/

/-- The cells of a line of the terminal. -/
def screenWidth : Nat := 2000

/-- A text as it is printed: each line within the width of the terminal. -/
def printed (s : String) : String :=
  String.ofList (['\n'].intercalate ((wrap true screenWidth s.toList).map (crop screenWidth)))

/-- A line in the middle of a number of cells; an odd blank goes to the right. -/
def centred (size : Nat) (line : List Char) : List Char :=
  let line := crop size (dropEndBlanks line)
  padTo size (List.replicate ((size - width line) / 2) ' ' ++ line)

end PackageLint.Wrap
