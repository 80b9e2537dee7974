import PackageLint.Decimal.Arithmetic
import PackageLint.Text.Base64
import PackageLint.Yaml.Basic
import PackageLint.Yaml.Fault
import PackageLint.Yaml.Tag

/-!
# Scalars under a tag

The tag of a scalar says how its text is read. Where the tag comes from the form of the text there
nearly always is such a value; a tag that is written out can ask for one that does not exist.

## Main definitions

* `Yaml.Scalar.ofText`: the value of a text under a tag.
-/

namespace PackageLint.Yaml.Scalar

/-! ### Numbers -/

/-- Digits without the marks between them. -/
def unmarked (text : String) : List Char := text.toList.filter (· ≠ '_')

/-- Goes on with the sign and the rest of a text that has characters. -/
def withSign {α : Type} (cs : List Char) (read : Bool → List Char → Except Fault α) :
    Except Fault α :=
  match cs with
  | [] => .error .noDigits
  | c :: rest => if c = '-' then read true rest else read false (if c = '+' then rest else c :: rest)

/-- The integer in a text. -/
def integerIn (base : Nat) (cs : List Char) : Except Fault Int :=
  (Numeral.integer base cs).mapError .numeral

/-- The value of digits of base 60, from the left. -/
def sixtieths (digits : List Int) : Int := digits.foldl (fun n digit => 60 * n + digit) 0

/-- The integer of a text without its sign. The mark of a base is taken off; a zero alone before the
digits stands for base eight. -/
def magnitude (cs : List Char) : Except Fault Int :=
  match cs with
  | [] => .error .noDigits
  | ['0'] => .ok 0
  | '0' :: 'b' :: digits => integerIn 2 digits
  | '0' :: 'x' :: digits => integerIn 16 digits
  | '0' :: _ => integerIn 8 cs
  | _ =>
    if cs.contains ':' then ((Text.pieces ':' cs).mapM (integerIn 10)).map sixtieths
    else integerIn 10 cs

/-- The integer of a text. -/
def toInt (text : String) : Except Fault Int :=
  withSign (unmarked text) fun negative body =>
    (magnitude body).map fun n => if negative then -n else n

/-- The value of digits of base 60 with a fraction, from the right: `worth` is what the next place is
worth. -/
def sixtiethsFrom (worth : Nat) (sum : Binary64) : List Binary64 → Except Fault Binary64
  | [] => .ok sum
  | digit :: rest =>
    match Binary64.ofInt worth with
    | .finite false m q =>
      sixtiethsFrom (60 * worth) (sum.add (digit.mul (.finite false m q))) rest
    | _ => .error .tooLarge

/-- The number with a fraction in a text. -/
def numberIn (cs : List Char) : Except Fault Binary64 := (Numeral.number cs).mapError .numeral

/-- The number with a fraction of a text without its sign, in lower case. -/
def fraction (cs : List Char) : Except Fault Binary64 :=
  if cs = ".inf".toList then .ok (.infinity false)
  else if cs = ".nan".toList then .ok .nan
  else if cs.contains ':' then do
    let digits ← (Text.pieces ':' cs).mapM numberIn
    sixtiethsFrom 1 (Binary64.zero false) digits.reverse
  else numberIn cs

/-- The number with a fraction of a text. -/
def toBinary64 (text : String) : Except Fault Binary64 :=
  withSign ((unmarked text).map Text.lowerAscii) fun negative body =>
    (fraction body).map fun x => if negative then x.negate else x

/-! ### Other scalars -/

/-- The truth value of a word in any case. -/
def toBool (text : String) : Except Fault Bool :=
  let word := String.ofList (text.toList.map Text.lowerAscii)
  if Tag.trueWords.contains word then .ok true
  else if Tag.falseWords.contains word then .ok false
  else .error (.notTruth word)

/-- The number that digits denote. -/
def digitsValue (cs : List Char) : Nat := Numeral.numberIn 10 cs

/-- How many minutes ahead a time zone is. -/
def zoneMinutes? (zone : List Char) : Option Int :=
  match zone with
  | [] => none
  | ['Z'] => some 0
  | sign :: offset =>
    let (hours, minutes) := Text.split ':' offset
    some (Numeral.signed (sign = '-') (60 * digitsValue hours + digitsValue minutes.flatten))

/-- The number of a part of a time. -/
def partValue (parts : List (List Char)) (i : Nat) : Nat := digitsValue (parts.getD i [])

/-- The date or moment of a text. Of a fraction the first six digits count. -/
def toTime (text : String) : Except Fault Scalar :=
  match Tag.timeParts? (Tag.withoutFinalFeed text).toList with
  | none => .error .notTime
  | some parts =>
    let (year, month, day) :=
      (partValue parts.date 0, partValue parts.date 1, partValue parts.date 2)
    match parts.clock with
    | none => ((Date.make year month day).map .date).mapError .calendar
    | some clock =>
      let micro := digitsValue ((parts.fraction ++ List.replicate 6 '0').take 6)
      ((Moment.make year month day (partValue clock 0) (partValue clock 1) (partValue clock 2) micro
        (zoneMinutes? parts.zone)).map .moment).mapError .calendar

/-- The bytes of a text in base 64. -/
def toBytes (text : String) : Except Fault (List UInt8) :=
  if text.toList.all fun c => c.toNat < 0x80 then
    match Base64.decode? text.toList with
    | some bytes => .ok bytes
    | none => .error .malformed
  else .error .malformed

/-- The value of a text under a tag. -/
def ofText (tag : Tag) (text : String) : Except Fault Scalar :=
  match tag with
  | .null => .ok .null
  | .bool => (toBool text).map .bool
  | .int => (toInt text).map .int
  | .float => (toBinary64 text).map .float
  | .binary => (toBytes text).map .binary
  | .time => toTime text
  | .str => .ok (.str text)
  | .seq | .map | .set | .pairs | .merge | .value | .other => .error .malformed

end PackageLint.Yaml.Scalar
