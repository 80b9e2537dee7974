import PackageLint.Text.Ranges

/-!
# Blank characters

The whitespace of any script: the ASCII blanks, the four separator controls, the next-line control
and the Unicode spaces.

## Main definitions

* `Text.isBlank`: the class of blank characters.
* `Text.skipBlanks`: a text without its leading blanks.
* `Text.words`: the maximal runs of other characters.
-/

namespace PackageLint.Text

/-- The blank characters. -/
def blankRanges : Ranges :=
  [(0x9, 0xd), (0x1c, 0x20), (0x85, 0x85), (0xa0, 0xa0), (0x1680, 0x1680), (0x2000, 0x200a),
   (0x2028, 0x2029), (0x202f, 0x202f), (0x205f, 0x205f), (0x3000, 0x3000)]

/-- Whether a character is blank. -/
def isBlank (c : Char) : Bool := blankRanges.holds c.toNat

/-- A text without its leading blanks. -/
def skipBlanks (cs : List Char) : List Char := cs.dropWhile isBlank

/-- Splits off the first word: the characters up to the first blank. -/
def wordsAux (word : List Char) : List Char → List (List Char)
  | [] => if word.isEmpty then [] else [word.reverse]
  | c :: rest =>
    if isBlank c then
      if word.isEmpty then wordsAux [] rest else word.reverse :: wordsAux [] rest
    else wordsAux (c :: word) rest

/-- The maximal runs of characters that are not blank. -/
def words (cs : List Char) : List (List Char) := wordsAux [] cs

end PackageLint.Text
