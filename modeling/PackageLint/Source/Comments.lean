/-!
# Removing comments from source text

Module syntax is looked for in the text that is left without its comments. Block comments go first,
then line comments. A block comment that is never closed stays, for it is no comment. The text is
not tokenised, so a comment mark inside a string literal counts as well.

## Main definitions

* `Source.dropBlockComments`, `Source.dropLineComments`: the two steps.
* `Source.stripComments`: both in turn.
-/

namespace PackageLint.Source

/-- The number of characters up to and with the first closing mark. -/
def closingLength? : List Char → Option Nat
  | [] => none
  | '*' :: '/' :: _ => some 2
  | _ :: rest => (closingLength? rest).map (· + 1)

/-- Drops block comments after skipping the rest of one. -/
def dropBlockCommentsFrom : Nat → List Char → List Char
  | _, [] => []
  | skip + 1, _ :: rest => dropBlockCommentsFrom skip rest
  | 0, c :: rest =>
    match c, rest with
    | '/', '*' :: body =>
      match closingLength? body with
      | some length => dropBlockCommentsFrom (length + 1) rest
      | none => c :: dropBlockCommentsFrom 0 rest
    | _, _ => c :: dropBlockCommentsFrom 0 rest

/-- The text without its block comments. -/
def dropBlockComments (cs : List Char) : List Char := dropBlockCommentsFrom 0 cs

/-- Drops line comments; `inside` says whether the text starts within one. -/
def dropLineCommentsFrom : Bool → List Char → List Char
  | _, [] => []
  | true, c :: rest =>
    if c = '\n' then c :: dropLineCommentsFrom false rest else dropLineCommentsFrom true rest
  | false, c :: rest =>
    if c = '/' && rest.head? = some '/' then dropLineCommentsFrom true rest
    else c :: dropLineCommentsFrom false rest

/-- The text without its line comments. The line feeds that end them stay. -/
def dropLineComments (cs : List Char) : List Char := dropLineCommentsFrom false cs

/-- The text without comments, as characters. -/
def stripCommentChars (cs : List Char) : List Char := dropLineComments (dropBlockComments cs)

/-- The text without comments. -/
def stripComments (code : String) : String := String.ofList (stripCommentChars code.toList)

end PackageLint.Source
