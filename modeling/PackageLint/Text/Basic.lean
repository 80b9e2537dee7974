/-!
# Operations on texts

Recognisers in this library run over lists of characters, and the functions that other modules call
take and give strings. This module holds the operations that both sides share: splitting, searching
and replacing.

## Main definitions

* `Text.split`: the pieces of a text between the occurrences of a separator.
* `Text.hasStart`, `Text.hasEnd`, `Text.hasPart`: how one string lies in another.
* `Text.replaceFirst?`, `Text.replaceLast`: replacing one occurrence.
-/

namespace PackageLint.Text

/-! ### Splitting -/

/-- The first piece of a text up to a separator, and the pieces after it. -/
def split (sep : Char) : List Char → List Char × List (List Char)
  | [] => ([], [])
  | c :: rest =>
    let pieces := split sep rest
    if c = sep then ([], pieces.1 :: pieces.2) else (c :: pieces.1, pieces.2)

/-- All pieces of a text between the occurrences of a separator. -/
def pieces (sep : Char) (cs : List Char) : List (List Char) :=
  (split sep cs).1 :: (split sep cs).2

/-- The pieces of a string between the occurrences of a separator. -/
def splitString (sep : Char) (s : String) : List String :=
  (pieces sep s.toList).map String.ofList

/-- The strings joined with a separator between them. -/
def join (sep : String) : List String → String
  | [] => ""
  | [s] => s
  | s :: rest => s ++ sep ++ join sep rest

/-- The lines of a text, without their line feeds. -/
def lines (cs : List Char) : List (List Char) := pieces '\n' cs

/-! ### How one string lies in another -/

/-- Whether a string starts with another. -/
def hasStart (s start : String) : Bool := start.toList.isPrefixOf s.toList

/-- Whether a string ends with another. -/
def hasEnd (s ending : String) : Bool := ending.toList.isSuffixOf s.toList

/-- Whether a text occurs in another. -/
def occursIn (part : List Char) : List Char → Bool
  | [] => part.isEmpty
  | c :: rest => part.isPrefixOf (c :: rest) || occursIn part rest

/-- Whether a string holds another. -/
def hasPart (s part : String) : Bool := occursIn part.toList s.toList

/-- A text without a given start, when it has that start. -/
def dropStart? : List Char → List Char → Option (List Char)
  | [], cs => some cs
  | _ :: _, [] => none
  | e :: start, c :: cs => if e = c then dropStart? start cs else none

/-- The string without an ending that it has. -/
def dropEnd (s ending : String) : String :=
  if hasEnd s ending then String.ofList (s.toList.take (s.length - ending.length)) else s

/-- The text without its leading copies of a character. -/
def stripLeading (c : Char) (cs : List Char) : List Char := cs.dropWhile (· = c)

/-! ### Replacing -/

/-- The text with the first occurrence of a part replaced, when there is one. -/
def replaceFirst? (part replacement : List Char) : List Char → Option (List Char)
  | [] => if part.isEmpty then some replacement else none
  | c :: rest =>
    match dropStart? part (c :: rest) with
    | some after => some (replacement ++ after)
    | none => (replaceFirst? part replacement rest).map (c :: ·)

/-- The text with the last occurrence of a part replaced, when there is one. -/
def replaceLast? (part replacement : List Char) : List Char → Option (List Char)
  | [] => if part.isEmpty then some replacement else none
  | c :: rest =>
    match replaceLast? part replacement rest with
    | some done => some (c :: done)
    | none => (dropStart? part (c :: rest)).map (replacement ++ ·)

/-- The string with the last occurrence of a part replaced; unchanged when there is none. -/
def replaceLast (s part replacement : String) : String :=
  ((replaceLast? part.toList replacement.toList s.toList).map String.ofList).getD s

/-- The string with one character put in place of another everywhere. -/
def exchange (old new : Char) (s : String) : String :=
  String.ofList (s.toList.map fun c => if c = old then new else c)

/-! ### Letter case -/

/-- The lower case of an ASCII letter; any other character is left as it is. -/
def lowerAscii (c : Char) : Char :=
  if 'A' ≤ c && c ≤ 'Z' then Char.ofNat (c.toNat + 0x20) else c

/-- The upper case of an ASCII letter; any other character is left as it is. -/
def upperAscii (c : Char) : Char :=
  if 'a' ≤ c && c ≤ 'z' then Char.ofNat (c.toNat - 0x20) else c

end PackageLint.Text
