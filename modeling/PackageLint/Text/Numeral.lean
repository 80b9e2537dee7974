import PackageLint.Decimal.Binary64
import PackageLint.Text.Basic
import PackageLint.Text.Blank
import PackageLint.Text.Digit
import PackageLint.Text.Hex
import PackageLint.Text.Quoted

/-!
# Numbers in a text

Numbers are read from a text that holds nothing else. Blanks may stand around a number, a sign before
it, and its digits may be of any script. An integer has digits of a base, and may have the mark of that
base before them; a number with a fraction may have an exponent, or be a word for infinity or for no
number.

## Main definitions

* `Numeral.Error`: why a text holds no number.
* `Numeral.integer`: the integer in a text.
* `Numeral.number`: the number with a fraction in a text.
-/

namespace PackageLint.Numeral

/-- Why a text holds no number. -/
inductive Error where
  /-- It is no integer in a base. -/
  | notInteger (base : Nat) (text : String)
  /-- It has too many decimal digits. -/
  | tooManyDigits (digits : Nat)
  /-- It is no number with a fraction. -/
  | notNumber (text : String)
  deriving DecidableEq, Repr, Inhabited

/-- The most characters of a quoted text that a message about an integer shows. -/
def shownLength : Nat := 200

/-- The start of a quoted text, as far as a message about an integer shows it. -/
def quotedStart (text : String) : String :=
  String.ofList ((Text.quoted text).toList.take shownLength)

/-- The wording of an error. -/
def Error.message : Error → String
  | .notInteger base text =>
    "invalid literal for int() with base " ++ toString base ++ ": " ++ quotedStart text
  | .tooManyDigits digits =>
    "Exceeds the limit (4300 digits) for integer string conversion: value has " ++ toString digits
      ++ " digits; use sys.set_int_max_str_digits() to increase the limit"
  | .notNumber text => "could not convert string to float: " ++ Text.quoted text

/-! ### Parts of numbers -/

/-- The text without the blanks around it. -/
def trimmed (cs : List Char) : List Char :=
  (Text.skipBlanks (Text.skipBlanks cs).reverse).reverse

/-- Splits off a sign; the flag says whether it is a minus. -/
def splitSign : List Char → Bool × List Char
  | '-' :: rest => (true, rest)
  | '+' :: rest => (false, rest)
  | cs => (false, cs)

/-- The value of a digit in a base of at most sixteen. -/
def digitValue? (base : Nat) (c : Char) : Option Nat :=
  ((Text.decimalValue? c).or (Text.hexValue? c)).filter (· < base)

/-- The number that digits denote in a base, from the left. -/
def numberIn (base : Nat) (digits : List Char) : Nat :=
  digits.foldl (fun n c => base * n + (digitValue? base c).getD 0) 0

/-- The number with its sign. -/
def signed (negative : Bool) (n : Nat) : Int := if negative then -(n : Int) else n

/-! ### Integers -/

/-- The letter after a zero that marks a base. -/
def markOf? (base : Nat) : Option Char :=
  if base = 16 then some 'x' else if base = 8 then some 'o' else if base = 2 then some 'b' else none

/-- The digits after the mark of a base, if that is there. -/
def withoutMark (base : Nat) : List Char → List Char
  | zero :: letter :: rest =>
    if Text.decimalValue? zero = some 0 && markOf? base = some (Text.lowerAscii letter) then rest
    else zero :: letter :: rest
  | cs => cs

/-- The most digits of an integer in base ten. -/
def maxDigits : Nat := 4300

/-- The integer in a text. Too long a run of decimal digits is an error before a character after it
that is no digit. -/
def integer (base : Nat) (cs : List Char) : Except Error Int :=
  let (negative, body) := splitSign (trimmed cs)
  let digits := withoutMark base body
  let run := digits.takeWhile fun c => (digitValue? base c).isSome
  if base = 10 && maxDigits < run.length then .error (.tooManyDigits run.length)
  else if run.isEmpty || run.length < digits.length then
    .error (.notInteger base (String.ofList cs))
  else .ok (signed negative (numberIn base run))

/-! ### Numbers with a fraction -/

/-- Splits off a run of decimal digits. -/
def splitDigits (cs : List Char) : List Char × List Char :=
  let run := cs.takeWhile fun c => (Text.decimalValue? c).isSome
  (run, cs.drop run.length)

/-- The exponent at the end of a number. -/
def exponent? : List Char → Option Int
  | [] => some 0
  | e :: rest =>
    let (negative, digits) := splitSign rest
    let (run, tail) := splitDigits digits
    if Text.lowerAscii e = 'e' && !run.isEmpty && tail.isEmpty then
      some (signed negative (numberIn 10 run))
    else none

/-- The number of digits with a point among them, and of an exponent. -/
def decimal? (negative : Bool) (body : List Char) : Option Binary64 :=
  let (whole, rest) := splitDigits body
  let (part, tail) : List Char × List Char :=
    match rest with
    | '.' :: after => splitDigits after
    | _ => ([], rest)
  if whole.isEmpty && part.isEmpty then none
  else
    (exponent? tail).map fun e =>
      Binary64.ofDecimal negative (numberIn 10 (whole ++ part)) (e - part.length)

/-- The number with a fraction in a text. -/
def number (cs : List Char) : Except Error Binary64 :=
  let (negative, body) := splitSign (trimmed cs)
  let word := String.ofList (body.map Text.lowerAscii)
  if word = "inf" || word = "infinity" then .ok (.infinity negative)
  else if word = "nan" then .ok .nan
  else
    match decimal? negative body with
    | some x => .ok x
    | none => .error (.notNumber (String.ofList cs))

end PackageLint.Numeral
