/-!
# Binary floating point numbers

The numbers of a data file that are not integers are binary numbers of 53 significant bits, with the
usual signed zeros, infinities and a not-a-number value. A decimal is read as the nearest of them,
a tie going to the even neighbour. All arithmetic is on natural numbers.

## Main definitions

* `Binary64`: the numbers.
* `Binary64.ofDecimal`: the number nearest to a decimal.
* `Binary64.isZero`: the zeros of either sign.
-/

namespace PackageLint

/-- A binary number: `finite negative m q` stands for `m * 2 ^ q` with its sign. -/
inductive Binary64 where
  | nan
  | infinity (negative : Bool)
  | finite (negative : Bool) (mantissa : Nat) (exponent : Int)
  deriving DecidableEq, Repr, Inhabited

namespace Binary64

/-- The least exponent: that of the smallest positive number. -/
def minExponent : Int := -1074

/-- The greatest exponent of a mantissa of full length. -/
def maxExponent : Int := 971

/-- Whether the number is a zero of either sign. -/
def isZero : Binary64 → Bool
  | .finite _ 0 _ => true
  | _ => false

/-- The quotient `num / den` rounded to the nearest natural number, a tie going to the even one. -/
def roundQuotient (num den : Nat) : Nat :=
  let floor := num / den
  let twice := 2 * (num % den)
  if twice < den then floor
  else if den < twice then floor + 1
  else if floor % 2 = 0 then floor else floor + 1

/-- The quotient `num / den` divided by `2 ^ q`, again as a quotient. -/
def scaleDown (num den : Nat) (q : Int) : Nat × Nat :=
  if 0 ≤ q then (num, den * Nat.pow 2 q.toNat) else (num * Nat.pow 2 (-q).toNat, den)

/-- The exponent at which a positive quotient has a mantissa of 53 bits, or the least exponent. -/
def exponentOf (num den : Nat) : Int :=
  let guess : Int := (Nat.log2 num : Int) - (Nat.log2 den : Int) - 52
  let (n, d) := scaleDown num den guess
  let found := if n / d < Nat.pow 2 52 then guess - 1 else guess
  if found < minExponent then minExponent else found

/-- The number nearest to a positive quotient. -/
def ofQuotient (negative : Bool) (num den : Nat) : Binary64 :=
  let q := exponentOf num den
  let (n, d) := scaleDown num den q
  let m := roundQuotient n d
  let (m, q) := if m = Nat.pow 2 53 then (Nat.pow 2 52, q + 1) else (m, q)
  if maxExponent < q then .infinity negative
  else if m = 0 then .finite negative 0 minExponent
  else .finite negative m q

/-- The number of decimal digits of a natural number. -/
def decimalLength (n : Nat) : Nat := (Nat.toDigits 10 n).length

/-- The number nearest to `digits * 10 ^ exponent`. Magnitudes far out of range are settled by the
number of digits alone. -/
def ofDecimal (negative : Bool) (digits : Nat) (exponent : Int) : Binary64 :=
  let magnitude := (decimalLength digits : Int) + exponent
  if digits = 0 || magnitude < -400 then .finite negative 0 minExponent
  else if 400 < magnitude then .infinity negative
  else if 0 ≤ exponent then ofQuotient negative (digits * Nat.pow 10 exponent.toNat) 1
  else ofQuotient negative digits (Nat.pow 10 (-exponent).toNat)

end Binary64

end PackageLint
