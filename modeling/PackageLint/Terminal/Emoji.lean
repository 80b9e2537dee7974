import PackageLint.Terminal.EmojiNames
import PackageLint.Text.Blank
import PackageLint.Text.Width

/-!
# Names of emojis in printed texts

A name between two colons is printed as the emoji of that name, in letters of either case. A name may
ask for the form of an emoji or that of a text. A name that is not known stays as it is, with its
colons.

## Main definitions

* `Emoji.glyph?`: the emoji of a name.
* `Emoji.shown`: a text with its emojis.
-/

namespace PackageLint.Emoji

/-! ### Names -/

/-- The single emojis. -/
def plain : List (String × String) := entriesOf plainNames

/-- The emojis that a tone of skin can be added to. -/
def toned : List (String × String) := entriesOf tonedNames

/-- The letters of the flags of regions. -/
def regions : List (String × String) := entriesOf regionNames

/-- The tones of skin, by the ends of names. -/
def tones : List (String × Char) :=
  [("_light_skin_tone", Char.ofNat 0x1f3fb), ("_medium-light_skin_tone", Char.ofNat 0x1f3fc),
   ("_medium_skin_tone", Char.ofNat 0x1f3fd), ("_medium-dark_skin_tone", Char.ofNat 0x1f3fe),
   ("_dark_skin_tone", Char.ofNat 0x1f3ff)]

/-- An emoji with a tone of skin, which comes after its first character in place of the mark for its
form. -/
def withTone (tone : Char) : List Char → List Char
  | [] => [tone]
  | c :: rest => c :: tone :: (if rest.head? = some Text.emojiForm then rest.drop 1 else rest)

/-- The emoji of a name that ends with a tone of skin. -/
def tonedGlyph? (name : String) : Option String :=
  tones.findSome? fun (ending, tone) =>
    if Text.hasEnd name ending then
      (toned.lookup (Text.dropEnd name ending)).map fun glyph =>
        String.ofList (withTone tone glyph.toList)
    else none

/-- The flag that two letters write. -/
def flagOf (letters : String) : String :=
  String.ofList (letters.toList.map fun c => Char.ofNat (0x1f1e6 + (c.toNat - 'A'.toNat)))

/-- The start of the long name of a flag. -/
def flagStart : String := "flag_for_"

/-- The flag of a region. -/
def flag? (name : String) : Option String :=
  let region := ((Text.dropStart? flagStart.toList name.toList).map String.ofList).getD name
  (regions.lookup region).map flagOf

/-- The lower case of a character, as far as names are made of it: that of the ASCII letters, the
accented letters, and the signs that are variants of letters. -/
def lower (c : Char) : Char :=
  if 'À' ≤ c && c ≤ 'Þ' && c != '×' then Char.ofNat (c.toNat + 0x20)
  else if c = '\u212a' then 'k'
  else if c = '\u212b' then 'å'
  else Text.lowerAscii c

/-- The emoji of a name in letters of either case. -/
def glyph? (name : String) : Option String :=
  let name := String.ofList (name.toList.map lower)
  plain.lookup name <|> toned.lookup name <|> tonedGlyph? name <|> flag? name

/-! ### Texts -/

/-- What stands between two colons: a name, and the mark for the form that is asked for. -/
def splitForm (body : List Char) : List Char × List Char :=
  match dropEnd? "-emoji", dropEnd? "-text" with
  | some name, _ => (name, [Text.emojiForm])
  | none, some name => (name, [Text.textForm])
  | none, none => (body, [])
where
  /-- The text before an ending that it has. -/
  dropEnd? (ending : String) : Option (List Char) :=
    if ending.toList.isSuffixOf body then some (body.take (body.length - ending.length)) else none

/-- What is shown in place of a text between two colons. -/
def shownBody (body : List Char) : List Char :=
  let (name, form) := splitForm body
  match glyph? (String.ofList name) with
  | some glyph => glyph.toList ++ form
  | none => ':' :: body ++ [':']

/-- The text up to the next colon, with the text after that; no blank may come before it. -/
def toColon? : List Char → Option (List Char × List Char)
  | [] => none
  | c :: rest =>
    if c = ':' then some ([], rest)
    else if Text.isBlank c then none
    else (toColon? rest).map fun (body, after) => (c :: body, after)

/-- The rest of a text with its emojis; at most `bound` steps. -/
def shownFrom : Nat → List Char → List Char
  | 0, cs => cs
  | _ + 1, [] => []
  | bound + 1, c :: rest =>
    match if c = ':' then toColon? rest else none with
    | some (body, after) => shownBody body ++ shownFrom bound after
    | none => c :: shownFrom bound rest

/-- A text with its emojis. -/
def shown (cs : List Char) : List Char := shownFrom cs.length cs

end PackageLint.Emoji
