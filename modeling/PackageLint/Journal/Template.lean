import PackageLint.Diagnostic.Rendering
import PackageLint.Journal.Number

/-!
# Templates of log messages

A message may hold places for values. A place begins with `%` and says how the value is shown: as
text, as a literal, as a character, or as a number in some base or form, with a least width and a
precision. A value is the next one, or has a name. When a value is missing, left over, or of the
wrong kind, the template has no text.

## Main definitions

* `Journal.Values`: the values of a template.
* `Journal.Place`: a place for a value.
* `Journal.fill?`: the text of a template.
-/

namespace PackageLint.Journal

/-! ### Values -/

/-- The values of a template. -/
structure Values where
  /-- The values that are not used yet, in order. -/
  ordered : List Arg
  /-- The values by name, when they have names. -/
  named : Option Args := none
  deriving Repr

namespace Values

/-- The values in a list of arguments. A single object that is not empty also gives its values by
name. -/
def of : List Arg → Values
  | [.obj (field :: rest)] => { ordered := [.obj (field :: rest)], named := some (field :: rest) }
  | args => { ordered := args }

/-- Takes the next value. -/
def next? (values : Values) : Option (Arg × Values) :=
  match values.ordered with
  | value :: rest => some (value, { values with ordered := rest })
  | [] => none

/-- Makes the value of a name the next and only one. -/
def select? (values : Values) (name : String) : Option Values := do
  let value ← Assoc.get? name (← values.named)
  pure { values with ordered := [value] }

/-- Whether nothing is left over. Values with names may be. -/
def areUsed (values : Values) : Bool := values.named.isSome || values.ordered.isEmpty

end Values

/-- An integer, which a number with a fraction is not. -/
def integer? : Arg → Option Int
  | .int n => some n
  | .bool b => some (if b then 1 else 0)
  | _ => none

/-- The whole part of a number, rounded towards zero. -/
def whole? : Arg → Option Int
  | .float (.finite negative m q) =>
    let (num, den) := Decimal.quotientOf m q
    some (if negative then -((num / den : Nat) : Int) else ((num / den : Nat) : Int))
  | value => integer? value

/-- A number as one with a fraction; an integer that is too large for that is none. -/
def float? : Arg → Option Binary64
  | .float x => some x
  | value => do
    let n ← integer? value
    match Binary64.ofDecimal (n < 0) n.natAbs 0 with
    | .finite negative m q => some (.finite negative m q)
    | _ => none

/-! ### Places -/

/-- A place for a value. -/
structure Place where
  /-- The flags. -/
  flags : List Char := []
  /-- The least width; below zero the text stands at the left. -/
  width : Int := 0
  /-- The precision, when one is given. -/
  precision : Option Nat := none
  /-- The letter that says how the value is shown. -/
  kind : Char := 's'
  deriving Repr

/-- Whether a place has a flag. -/
def Place.has (place : Place) (flag : Char) : Bool := place.flags.contains flag

/-- Whether a text stands at the left of its place. -/
def Place.isLeft (place : Place) : Bool := place.has '-' || place.width < 0

/-- Whether a character is an ASCII digit. -/
def isCountDigit (c : Char) : Bool := '0' ≤ c && c ≤ '9'

/-- The greatest width: the greatest number of 64 bits with a sign. -/
def greatestWidth : Nat := 0x7fffffffffffffff

/-- The greatest precision: the greatest number of 32 bits with a sign. -/
def greatestPrecision : Nat := 0x7fffffff

/-- Reads a count up to a greatest one: digits, or a star that stands for the next value. -/
def count? (greatest : Nat) (values : Values) : List Char → Option (Int × Values × List Char)
  | '*' :: rest => do
    let (value, values) ← values.next?
    let n ← integer? value
    if n.natAbs ≤ greatest then some (n, values, rest) else none
  | cs =>
    let digits := cs.takeWhile isCountDigit
    let n := digits.foldl (fun n c => 10 * n + (c.toNat - '0'.toNat)) 0
    if n ≤ greatest then some (n, values, cs.dropWhile isCountDigit) else none

/-- Reads a precision, when there is one. One below zero counts as zero. -/
def precision? (values : Values) : List Char → Option (Option Nat × Values × List Char)
  | '.' :: rest =>
    (count? greatestPrecision values rest).map fun (n, values, rest) =>
      (some n.toNat, values, rest)
  | cs => some (none, values, cs)

/-- The text after a mark of size, which says nothing. -/
def dropSize : List Char → List Char
  | 'h' :: rest | 'l' :: rest | 'L' :: rest => rest
  | cs => cs

/-- Reads a place after its percent sign and name. -/
def place? (values : Values) (cs : List Char) : Option (Place × Values × List Char) := do
  let flags := cs.takeWhile ['-', '+', ' ', '#', '0'].contains
  let (width, values, cs) ← count? greatestWidth values (cs.drop flags.length)
  let (precision, values, cs) ← precision? values cs
  match dropSize cs with
  | [] => none
  | kind :: rest => some ({ flags, width, precision, kind }, values, rest)

/-! ### Texts of values -/

/-- A text filled up to the width of a place. -/
def Place.fit (place : Place) (text : List Char) : List Char :=
  let blanks := List.replicate (place.width.natAbs - text.length) ' '
  if place.isLeft then text ++ blanks else blanks ++ text

/-- A number with its sign, filled up to the width of a place. -/
def Place.fitNumber (place : Place) (negative : Bool) (mark digits : List Char) : List Char :=
  let sign : List Char :=
    if negative then ['-'] else if place.has '+' then ['+'] else if place.has ' ' then [' '] else []
  let head := sign ++ mark
  if place.has '0' && !place.isLeft then
    head ++ Decimal.padded (place.width.natAbs - head.length) digits
  else place.fit (head ++ digits)

/-- An integer in a base, with the mark of the base where it is asked for. -/
def Place.inBase (place : Place) (base : Nat) (mark : Char) (n : Int) : List Char :=
  place.fitNumber (n < 0) (if place.has '#' then ['0', mark] else [])
    (Decimal.padded (place.precision.getD 0) (Nat.toDigits base n.natAbs))

/-- A number with a fraction in a form. -/
def Place.inForm (place : Place) (form : NumberForm) : Binary64 → List Char
  | .nan => place.fitNumber false [] "nan".toList
  | .infinity negative => place.fitNumber negative [] "inf".toList
  | .finite negative m q =>
    let (num, den) := Decimal.quotientOf m q
    place.fitNumber negative []
      (form.text (place.has '#') (place.precision.getD 6) num den)

/-- A character, given by itself or by its number. -/
def character? : Arg → Option Char
  | .str s =>
    match s.toList with
    | [c] => some c
    | _ => none
  | value => do
    let n ← integer? value
    if 0 ≤ n && n.toNat.isValidChar then some (Char.ofNat n.toNat) else none

/-- A text with all characters beyond ASCII escaped. -/
def asciiOnly (cs : List Char) : List Char :=
  cs.flatMap fun c => if c.toNat < 0x80 then [c] else Text.codePointEscape c

/-- The text of a value at a place; none for a value of the wrong kind. -/
def Place.text? (place : Place) (value : Arg) : Option (List Char) :=
  let cut (text : String) : List Char :=
    match place.precision with
    | some n => text.toList.take n
    | none => text.toList
  let float (form : NumberForm) : Option (List Char) := (float? value).map (place.inForm form)
  let upper (text : Option (List Char)) : Option (List Char) :=
    text.map fun cs => cs.map Text.upperAscii
  match place.kind with
  | 's' => some (place.fit (cut value.shown))
  | 'r' => some (place.fit (cut value.literal))
  | 'a' => some (place.fit (cut (String.ofList (asciiOnly value.literal.toList))))
  | 'd' | 'i' | 'u' =>
    (whole? value).map fun n =>
      place.fitNumber (n < 0) []
        (Decimal.padded (place.precision.getD 0) (Nat.toDigits 10 n.natAbs))
  | 'x' => (integer? value).map (place.inBase 16 'x')
  | 'X' => upper ((integer? value).map (place.inBase 16 'x'))
  | 'o' => (integer? value).map (place.inBase 8 'o')
  | 'f' => float .fixed
  | 'F' => upper (float .fixed)
  | 'e' => float .scientific
  | 'E' => upper (float .scientific)
  | 'g' => float .general
  | 'G' => upper (float .general)
  | 'c' => (character? value).map fun c => place.fit [c]
  | _ => none

/-! ### Templates -/

/-- Splits off what stands before the parenthesis that closes `depth` open ones. -/
def splitName? : Nat → List Char → Option (List Char × List Char)
  | _, [] => none
  | depth, c :: rest =>
    if c = ')' && depth = 1 then some ([], rest)
    else
      let depth := if c = '(' then depth + 1 else if c = ')' then depth - 1 else depth
      (splitName? depth rest).map fun (name, after) => (c :: name, after)

/-- Selects the value that a name in parentheses at the start of a place asks for. -/
def named? (values : Values) : List Char → Option (Values × List Char)
  | '(' :: rest => do
    let (name, rest) ← splitName? 1 rest
    some (← values.select? (String.ofList name), rest)
  | cs => some (values, cs)

/-- The text of a template; at most `bound` places and characters. -/
def fillFrom? : Nat → Values → List Char → Option (List Char)
  | 0, _, _ => none
  | _ + 1, values, [] => if values.areUsed then some [] else none
  | bound + 1, values, '%' :: '%' :: cs => (fillFrom? bound values cs).map ('%' :: ·)
  | bound + 1, values, '%' :: cs => do
    let (values, cs) ← named? values cs
    let (place, values, cs) ← place? values cs
    let (value, values) ← values.next?
    return (← place.text? value) ++ (← fillFrom? bound values cs)
  | bound + 1, values, c :: cs => (fillFrom? bound values cs).map (c :: ·)

/-- The text of a template. Without any value it is its own text. -/
def fill? (template : String) (args : List Arg) : Option String :=
  if args.isEmpty then some template
  else
    (fillFrom? (template.length + 1) (.of args) template.toList).map String.ofList

end PackageLint.Journal
