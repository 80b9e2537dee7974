import PackageLint.Text.Basic
import PackageLint.Text.Hex

/-!
# Tags

The tag of a part of a document says what kind of value it stands for. A scalar without quotes gets its
tag from its form: words stand for null and the truth values, numbers have decimal, octal,
hexadecimal, binary and base-60 forms, and dates are dates. All else is a string. The writer puts a
string into quotes exactly when its plain form has another tag.

## Main definitions

* `Yaml.Tag`: the tags.
* `Yaml.Tag.ofName`: the tag of a full name.
* `Yaml.Tag.ofPlain`: the tag of a scalar without quotes.
-/

namespace PackageLint.Yaml

/-- A tag. -/
inductive Tag where
  | null
  | bool
  | int
  | float
  | binary
  | time
  | str
  | seq
  | map
  | set
  /-- A sequence of mappings of one entry each. -/
  | pairs
  /-- The key whose value is merged into a mapping. -/
  | merge
  /-- The key whose value a mapping stands for, where a scalar is asked for. -/
  | value
  /-- Any other tag, which has no meaning in settings. -/
  | other
  deriving DecidableEq, Repr, Inhabited

namespace Tag

/-! ### Names -/

/-- The start of the names of the core tags. -/
def coreStart : String := "tag:yaml.org,2002:"

/-- The core tags with their names. -/
def names : List (String × Tag) :=
  [("null", .null), ("bool", .bool), ("int", .int), ("float", .float), ("binary", .binary),
   ("timestamp", .time), ("str", .str), ("seq", .seq), ("map", .map), ("set", .set),
   ("omap", .pairs), ("pairs", .pairs), ("merge", .merge), ("value", .value)]

/-- The tag of a full name. -/
def ofName (name : String) : Tag :=
  match Text.dropStart? coreStart.toList name.toList with
  | some core => (names.lookup (String.ofList core)).getD .other
  | none => .other

/-- Whether a tag stands for values with parts. -/
def isCollection (tag : Tag) : Bool := [seq, map, set, pairs].contains tag

/-! ### Forms of numbers -/

/-- Whether a character is an ASCII digit. -/
def isDecimal (c : Char) : Bool := '0' ≤ c && c ≤ '9'

/-- Whether a character is a digit or the mark that may stand between digits. -/
def isDecimalOrMark (c : Char) : Bool := isDecimal c || c = '_'

/-- Splits off the start of a text that is in a class. -/
def spanOf (p : Char → Bool) (cs : List Char) : List Char × List Char :=
  (cs.takeWhile p, cs.dropWhile p)

/-- A text without a sign before it. -/
def withoutSign : List Char → List Char
  | '-' :: rest => rest
  | '+' :: rest => rest
  | cs => cs

/-- Whether a text is a digit of base 60: one or two decimal digits below 60. -/
def isSixtieth : List Char → Bool
  | [a] => isDecimal a
  | [a, b] => isDecimal a && a ≤ '5' && isDecimal b
  | _ => false

/-- Whether parts make a number of base 60: a first one of any size and at least one more. -/
def areSixtieths (firstOk : List Char → Bool) : List (List Char) → Bool
  | first :: part :: rest => firstOk first && (part :: rest).all isSixtieth
  | _ => false

/-- Whether a text is a run of digits and marks that begins with a digit. -/
def isRun : List Char → Bool
  | [] => false
  | c :: rest => isDecimal c && rest.all isDecimalOrMark

/-- Whether a text is such a run and does not begin with a zero. -/
def isCounting (cs : List Char) : Bool := isRun cs && cs.head? != some '0'

/-- Whether a text is an integer: of base ten, two, sixteen, eight or sixty. -/
def isInteger (cs : List Char) : Bool :=
  match withoutSign cs with
  | ['0'] => true
  | '0' :: 'b' :: d :: rest => (d :: rest).all fun c => c = '0' || c = '1' || c = '_'
  | '0' :: 'x' :: d :: rest => (d :: rest).all fun c => (Text.hexValue? c).isSome || c = '_'
  | '0' :: rest => rest.all fun c => ('0' ≤ c && c ≤ '7') || c = '_'
  | body => isCounting body || areSixtieths isCounting (Text.pieces ':' body)

/-- Whether a text is an exponent: none at all, or a marked and signed run of digits. -/
def isExponent : List Char → Bool
  | [] => true
  | e :: sign :: d :: rest =>
    (e = 'e' || e = 'E') && (sign = '-' || sign = '+') && (d :: rest).all isDecimal
  | _ => false

/-- Whether a text is a word for infinity or for no number. -/
def isSpecialFloat (cs : List Char) : Bool :=
  [".inf", ".Inf", ".INF"].contains (String.ofList (withoutSign cs))
    || [".nan", ".NaN", ".NAN"].contains (String.ofList cs)

/-- Whether a text is a number with a fraction. A sign before the point needs a digit between them. -/
def isFloat (cs : List Char) : Bool :=
  let body := withoutSign cs
  let (whole, rest) := spanOf isDecimalOrMark body
  isSpecialFloat cs ||
    match rest with
    | '.' :: after =>
      let (part, tail) := spanOf isDecimalOrMark after
      isExponent tail && (isRun whole || (whole.isEmpty && isRun part && body.length = cs.length))
    | ':' :: _ =>
      match spanOf (· ≠ '.') body with
      | (sixtieths, '.' :: part) =>
        areSixtieths isRun (Text.pieces ':' sixtieths) && part.all isDecimalOrMark
      | _ => false
    | _ => false

/-! ### Forms of dates -/

/-- Whether a text is a run of between `low` and `high` digits. -/
def isDigits (low high : Nat) (cs : List Char) : Bool :=
  low ≤ cs.length && cs.length ≤ high && cs.all isDecimal

/-- Whether a character may stand before a zone or a time. -/
def isSpace (c : Char) : Bool := c = ' ' || c = '\t'

/-- Whether a text is a time zone: none, `Z`, or an offset in hours and minutes. -/
def isZone (cs : List Char) : Bool :=
  match cs.dropWhile isSpace with
  | [] => cs.isEmpty
  | ['Z'] => true
  | sign :: offset =>
    (sign = '-' || sign = '+') &&
      match Text.pieces ':' offset with
      | [hours] => isDigits 1 2 hours
      | [hours, minutes] => isDigits 1 2 hours && isDigits 2 2 minutes
      | _ => false

/-- The parts of a time. -/
structure TimeParts where
  /-- The digits of year, month and day. -/
  date : List (List Char)
  /-- The digits of hour, minute and second, for a time of a day. -/
  clock : Option (List (List Char)) := none
  /-- The digits of the fraction. -/
  fraction : List Char := []
  /-- The time zone, without the spaces before it. -/
  zone : List Char := []

/-- The parts of a time of a day, after its date. -/
def clockParts? (date : List (List Char)) (cs : List Char) : Option TimeParts :=
  match Text.pieces ':' cs with
  | hours :: minutes :: seconds :: more =>
    let (second, rest) := spanOf isDecimal ([':'].intercalate (seconds :: more))
    let (fraction, zone) : List Char × List Char := match rest with
      | '.' :: rest => spanOf isDecimal rest
      | rest => ([], rest)
    if isDigits 1 2 hours && isDigits 2 2 minutes && isDigits 2 2 second && isZone zone then
      some { date, clock := some [hours, minutes, second], fraction, zone := zone.dropWhile isSpace }
    else none
  | _ => none

/-- The parts of a date or time. The month and day have one or two digits. -/
def timeParts? (cs : List Char) : Option TimeParts :=
  match Text.pieces '-' cs with
  | year :: month :: more =>
    let (day, rest) := spanOf isDecimal (['-'].intercalate more)
    if isDigits 4 4 year && isDigits 1 2 month && isDigits 1 2 day && !more.isEmpty then
      match rest with
      | [] => some { date := [year, month, day] }
      | c :: after =>
        if c = 'T' || c = 't' then clockParts? [year, month, day] after
        else if isSpace c then clockParts? [year, month, day] (rest.dropWhile isSpace)
        else none
    else none
  | _ => none

/-- Whether a text is a date or time. The month and day of a date alone have two digits. -/
def isTime (cs : List Char) : Bool :=
  match timeParts? cs with
  | some parts => parts.clock.isSome || cs.length = 10
  | none => false

/-! ### Words -/

/-- A word in its three spellings: lower case, capitalised and upper case. -/
def spellings (word : String) : List String :=
  let upper := word.toList.map Text.upperAscii
  [word, String.ofList (upper.take 1 ++ word.toList.drop 1), String.ofList upper]

/-- The words for true, in lower case. -/
def trueWords : List String := ["yes", "true", "on"]

/-- The words for false, in lower case. -/
def falseWords : List String := ["no", "false", "off"]

/-- The words for null; the empty scalar is one of them. -/
def nullWords : List String := "" :: "~" :: spellings "null"

/-- A text without a line feed at its end, unless there is nothing else. -/
def withoutFinalFeed (text : String) : String :=
  match text.toList.reverse with
  | '\n' :: c :: rest => String.ofList (c :: rest).reverse
  | _ => text

/-- The tag of a scalar without quotes. A line feed at its end does not count. -/
def ofPlain (text : String) : Tag :=
  let text := withoutFinalFeed text
  if nullWords.contains text then .null
  else if ((trueWords ++ falseWords).flatMap spellings).contains text then .bool
  else if text = "<<" then .merge
  else if text = "=" then .value
  else if ["!", "&", "*"].contains text then .other
  else if isFloat text.toList then .float
  else if isInteger text.toList then .int
  else if isTime text.toList then .time
  else .str

end Tag

end PackageLint.Yaml
