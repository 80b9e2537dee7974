import PackageLint.Text.Hex
import PackageLint.Text.Printable

/-!
# Quoted texts in messages

A text inside a message is quoted with `'`, or with `"` when it holds a `'` and no `"`. The quote in
use, the backslash and all characters that are not printable are escaped.

## Main definitions

* `Text.quoted`: a string in quotes.
-/

namespace PackageLint.Text

/-- The escape of a character by its code point, of the least of three lengths. -/
def codePointEscape (c : Char) : List Char :=
  if c.toNat < 0x100 then '\\' :: 'x' :: hexDigits 2 c.toNat
  else if c.toNat < 0x10000 then '\\' :: 'u' :: hexDigits 4 c.toNat
  else '\\' :: 'U' :: hexDigits 8 c.toNat

/-- A character between quotes of the given kind. -/
def quotedChar (mark c : Char) : List Char :=
  if c = mark || c = '\\' then ['\\', c]
  else if c = '\n' then ['\\', 'n']
  else if c = '\r' then ['\\', 'r']
  else if c = '\t' then ['\\', 't']
  else if isPrintable c then [c]
  else codePointEscape c

/-- The quote that a text is put into. -/
def quoteMark (cs : List Char) : Char :=
  if cs.contains '\'' && !cs.contains '"' then '"' else '\''

/-- A text in quotes. -/
def quotedChars (cs : List Char) : List Char :=
  let mark := quoteMark cs
  mark :: cs.flatMap (quotedChar mark) ++ [mark]

/-- A string in quotes. -/
def quoted (s : String) : String := String.ofList (quotedChars s.toList)

end PackageLint.Text
