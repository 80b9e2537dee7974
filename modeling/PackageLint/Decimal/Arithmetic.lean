import PackageLint.Decimal.Rounded

/-!
# Sums and products of binary numbers

The sum and the product of two binary numbers are the numbers nearest to the exact ones. Infinities
and the number that is none follow the usual rules.

## Main definitions

* `Binary64.add`, `Binary64.mul`: the operations.
* `Binary64.negate`: the number with the other sign.
* `Binary64.ofInt`: the number nearest to an integer.
-/

namespace PackageLint.Binary64

/-- The number with the other sign. -/
def negate : Binary64 → Binary64
  | .nan => .nan
  | .infinity negative => .infinity !negative
  | .finite negative m q => .finite (!negative) m q

/-- The number nearest to an integer. -/
def ofInt (n : Int) : Binary64 := ofDecimal (n < 0) n.natAbs 0

/-- Zero with a sign. -/
def zero (negative : Bool) : Binary64 := .finite negative 0 minExponent

/-- The number nearest to `n * 2 ^ q`; a zero gets the sign that is given. -/
def ofScaled (signOfZero : Bool) (n q : Int) : Binary64 :=
  if n = 0 then zero signOfZero
  else
    let (num, den) := Decimal.quotientOf n.natAbs q
    ofQuotient (n < 0) num den

/-- The mantissa with its sign, when the exponent is lowered to one that is not greater. -/
def lowered (negative : Bool) (m : Nat) (q low : Int) : Int :=
  let n : Int := m * Nat.pow 2 (q - low).toNat
  if negative then -n else n

/-- The sum. Zeros of different signs give the positive one. -/
def add : Binary64 → Binary64 → Binary64
  | .nan, _ => .nan
  | _, .nan => .nan
  | .infinity a, .infinity b => if a = b then .infinity a else .nan
  | .infinity a, _ => .infinity a
  | _, .infinity b => .infinity b
  | .finite a m p, .finite b n q =>
    let low := if p ≤ q then p else q
    ofScaled (a && b) (lowered a m p low + lowered b n q low) low

/-- The product. -/
def mul : Binary64 → Binary64 → Binary64
  | .nan, _ => .nan
  | _, .nan => .nan
  | .infinity a, .infinity b => .infinity (a != b)
  | .infinity a, .finite b n _ => if n = 0 then .nan else .infinity (a != b)
  | .finite a m _, .infinity b => if m = 0 then .nan else .infinity (a != b)
  | .finite a m p, .finite b n q =>
    let product : Int := m * n
    ofScaled (a != b) (if a != b then -product else product) (p + q)

end PackageLint.Binary64
