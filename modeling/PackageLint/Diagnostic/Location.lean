import PackageLint.Diagnostic.Basic
import PackageLint.Json.Printer
import PackageLint.Text.Digit
import PackageLint.Text.Word

/-!
# Places as accessors

A place in the manifest is shown the way it would be written in code: an index in brackets, an
identifier after a dot, and any other key as a quoted string in brackets.

## Main definitions

* `Location.isIdentifier`: the keys written after a dot.
* `Location.text`: the accessor of a place.
-/

namespace PackageLint.Location

open PackageLint.Text

/-- Whether a text is an identifier: a letter, `_` or `$`, then word characters or `$`. -/
def isIdentifierChars : List Char → Bool
  | [] => false
  | c :: rest =>
    (isAsciiLetter c || c = '_' || c = '$') && rest.all fun d => isWord d || d = '$'

/-- Whether a key is an identifier, be it with a final line feed. -/
def isIdentifier (key : List Char) : Bool :=
  if key.getLast? = some '\n' then isIdentifierChars key.dropLast else isIdentifierChars key

/-- How a key is written, given the text to show for it after a dot. -/
def accessorAs (shown key : List Char) : List Char :=
  if allDigits key then '[' :: shown ++ [']']
  else if isIdentifier key then '.' :: shown
  else '[' :: Json.quoteChars true key ++ [']']

/-- How a key is written. -/
def accessor (key : List Char) : List Char := accessorAs key key

/-- The accessor of a place, as characters. -/
def chars (location : Location) : List Char :=
  "pkg".toList ++ location.flatMap fun key => accessor key.toList

/-- The accessor of a place. -/
def text (location : Location) : String := String.ofList (chars location)

end PackageLint.Location
