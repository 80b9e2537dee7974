import PackageLint.Decimal.Binary64

/-!
# Decimals rounded to a number of digits

A quotient is written with a given number of digits, counted from the point or from the first digit
that is not zero. It is rounded to the nearest such decimal, a tie going to the even digit.

## Main definitions

* `Decimal.quotientOf`: a binary number as a quotient.
* `Decimal.pointOf`: the place of the point.
* `Decimal.fixed`: the digits before and after the point.
* `Decimal.significant`: the digits from the first that is not zero.
-/

namespace PackageLint.Decimal

/-- The quotient that `m * 2 ^ q` is. -/
def quotientOf (m : Nat) (q : Int) : Nat × Nat :=
  if 0 ≤ q then (m * Nat.pow 2 q.toNat, 1) else (m, Nat.pow 2 (-q).toNat)

/-- The place of the decimal point of a positive quotient: the least `p` with the quotient below
`10 ^ p`. -/
def pointOf (num den : Nat) : Int :=
  if den ≤ num then Binary64.decimalLength (num / den)
  else 1 - (Binary64.decimalLength ((den - 1) / num) : Int)

/-- The quotient `num / den` divided by `10 ^ e`, to the nearest natural number. -/
def roundedAt (num den : Nat) (e : Int) : Nat :=
  if 0 ≤ e then Binary64.roundQuotient num (den * Nat.pow 10 e.toNat)
  else Binary64.roundQuotient (num * Nat.pow 10 (-e).toNat) den

/-- Digits with zeros before them, at least `length` in all. -/
def padded (length : Nat) (digits : List Char) : List Char :=
  List.replicate (length - digits.length) '0' ++ digits

/-- The digits of a quotient before the point, at least one, and `places` digits after it. -/
def fixed (num den places : Nat) : List Char × List Char :=
  let digits := padded (places + 1) (Nat.toDigits 10 (roundedAt num den (-(places : Int))))
  digits.splitAt (digits.length - places)

/-- The first `count` digits `d` of a quotient and the place `p` of its point: the quotient is about
`0.d * 10 ^ p`. All digits of zero are zeros, and its point is after the first. -/
def significant (num den count : Nat) : List Char × Int :=
  if num = 0 then (List.replicate count '0', 1)
  else
    let point := pointOf num den
    let n := roundedAt num den (point - count)
    if n = Nat.pow 10 count then (Nat.toDigits 10 (Nat.pow 10 (count - 1)), point + 1)
    else (padded count (Nat.toDigits 10 n), point)

end PackageLint.Decimal
