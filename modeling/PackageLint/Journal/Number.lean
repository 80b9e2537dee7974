import PackageLint.Decimal.Rounded
import PackageLint.Decimal.Shortest

/-!
# Numbers in log messages

A number with a fraction is shown with its digits after the point counted, with an exponent, or in
the form of the two that suits its size.

## Main definitions

* `Journal.NumberForm`: the forms.
* `Journal.NumberForm.text`: the digits of a quotient in a form.
-/

namespace PackageLint.Journal

/-- How the digits of a number are laid out. -/
inductive NumberForm where
  /-- Digits before and after the point. -/
  | fixed
  /-- One digit before the point, and an exponent. -/
  | scientific
  /-- The form that suits the size, without zeros at the end. -/
  | general
  deriving DecidableEq, Repr

namespace NumberForm

/-- Digits after a point. Without any the point is left out, unless it is to be kept. -/
def afterPoint (keepPoint : Bool) (digits : List Char) : List Char :=
  if digits.isEmpty && !keepPoint then [] else '.' :: digits

/-- Digits without the zeros at their end. -/
def withoutEndZeros (digits : List Char) : List Char :=
  (digits.reverse.dropWhile (· = '0')).reverse

/-- The digits of a quotient, `places` of them after the point. -/
def fixedText (keepPoint : Bool) (num den places : Nat) : List Char :=
  let (whole, part) := Decimal.fixed num den places
  whole ++ afterPoint keepPoint part

/-- Digits `d` with an exponent, for `0.d * 10 ^ p`. -/
def scientificText (keepPoint : Bool) (digits : List Char) (point : Int) : List Char :=
  digits.take 1 ++ afterPoint keepPoint (digits.drop 1) ++ 'e' :: Decimal.exponentText (point - 1)

/-- The form of a number that suits its size, for `0.d * 10 ^ p` with `d` of a given length. Zeros at
the end are kept together with the point. -/
def generalText (keepPoint : Bool) (digits : List Char) (point : Int) : List Char :=
  let trim (part : List Char) : List Char := if keepPoint then part else withoutEndZeros part
  if point < -3 || (digits.length : Int) < point then
    scientificText keepPoint (digits.take 1 ++ trim (digits.drop 1)) point
  else if point ≤ 0 then
    '0' :: afterPoint keepPoint (trim (List.replicate (-point).toNat '0' ++ digits))
  else digits.take point.toNat ++ afterPoint keepPoint (trim (digits.drop point.toNat))

/-- The digits of a quotient in a form. `precision` counts the digits after the point, or all digits in
the general form, which has at least one. -/
def text (form : NumberForm) (keepPoint : Bool) (precision num den : Nat) : List Char :=
  match form with
  | .fixed => fixedText keepPoint num den precision
  | .scientific =>
    let (digits, point) := Decimal.significant num den (precision + 1)
    scientificText keepPoint digits point
  | .general =>
    let (digits, point) := Decimal.significant num den (max precision 1)
    generalText keepPoint digits point

end NumberForm

end PackageLint.Journal
