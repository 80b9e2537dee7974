import PackageLint.Terminal.Emoji

/-!
# Style tags in terminal texts

What is printed may carry style tags such as `[red]` and `[/red]`. An odd number of backslashes
before a tag makes it plain text, and each pair of backslashes there stands for one. Values that come
from a package are escaped before they are put into such a text. Names of emojis are read between the
tags.

## Main definitions

* `Markup.escape`: a text in which no tag is read as a style.
* `Markup.plain`: what is left of a text once its tags are read.
* `Markup.shown`: what an escaped value looks like when it is printed.
-/

namespace PackageLint.Markup

/-- Whether a character can begin a tag. -/
def startsName (c : Char) : Bool := ('a' ≤ c && c ≤ 'z') || c = '#' || c = '/' || c = '@'

/-- Whether a closing bracket comes before any opening one. -/
def closes : List Char → Bool
  | [] => false
  | c :: rest => c = ']' || (c != '[' && closes rest)

/-- Whether the text after an opening bracket makes it a tag. -/
def isTag : List Char → Bool
  | [] => false
  | c :: rest => startsName c && closes rest

/-! ### Escaping -/

/-- Escapes a text that follows `pending` backslashes. -/
def escapeFrom (pending : Nat) : List Char → List Char
  | [] => List.replicate pending '\\'
  | c :: rest =>
    if c = '\\' then escapeFrom (pending + 1) rest
    else if c = '[' && isTag rest then
      List.replicate (2 * pending + 1) '\\' ++ c :: escapeFrom 0 rest
    else List.replicate pending '\\' ++ c :: escapeFrom 0 rest

/-- Whether a text ends with exactly one backslash. -/
def endsWithOne (cs : List Char) : Bool :=
  match cs.reverse with
  | '\\' :: '\\' :: _ => false
  | '\\' :: _ => true
  | _ => false

/-- A text in which no tag is read as a style. A single backslash at the end is doubled, so that it
cannot escape a tag that follows. -/
def escapeChars (cs : List Char) : List Char :=
  let escaped := escapeFrom 0 cs
  if endsWithOne escaped then escaped ++ ['\\'] else escaped

/-- A string in which no tag is read as a style. -/
def escape (s : String) : String := String.ofList (escapeChars s.toList)

/-! ### Reading -/

/-- Where a character stands. -/
inductive Within where
  /-- In text. -/
  | text
  /-- In a tag. -/
  | tag
  /-- In a tag that is plain text. -/
  | escapedTag
  deriving DecidableEq, Repr

/-- Adds characters to the first piece of a text. -/
def addFirst (cs : List Char) : List (List Char) → List (List Char)
  | [] => [cs]
  | piece :: rest => (cs ++ piece) :: rest

/-- The pieces of what is left of a text that follows `pending` backslashes. Every tag ends a piece, and
a tag that is plain text is a piece of its own. -/
def piecesFrom (within : Within) (pending : Nat) : List Char → List (List Char)
  | [] => [List.replicate pending '\\']
  | c :: rest =>
    match within with
    | .tag => if c = ']' then [] :: piecesFrom .text 0 rest else piecesFrom .tag 0 rest
    | .escapedTag =>
      if c = ']' then [c] :: piecesFrom .text 0 rest
      else addFirst [c] (piecesFrom .escapedTag 0 rest)
    | .text =>
      if c = '\\' then piecesFrom .text (pending + 1) rest
      else if c = '[' && isTag rest then
        let next :=
          if pending % 2 = 1 then addFirst [c] (piecesFrom .escapedTag 0 rest)
          else piecesFrom .tag 0 rest
        [] :: List.replicate (pending / 2) '\\' :: next
      else
        let kept := if c = '[' then pending - 1 else pending
        addFirst (List.replicate kept '\\' ++ [c]) (piecesFrom .text 0 rest)

/-- The controls that a terminal would obey. They are not printed. -/
def isObeyed (c : Char) : Bool := [7, 8, 11, 12, 13].contains c.toNat

/-- What is left of a text once its tags are read, with the emojis that are named in it. -/
def plain (s : String) : String :=
  String.ofList (((piecesFrom .text 0 s.toList).flatMap Emoji.shown).filter fun c => !isObeyed c)

/-- What an escaped value looks like when it is printed. -/
def shown (s : String) : String := plain (escape s)

end PackageLint.Markup
