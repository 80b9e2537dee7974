import PackageLint.Decimal.Rounded
import PackageLint.Text.Basic

/-!
# The shortest decimal of a binary number

A binary number is written with the fewest significant digits that read back as the same number,
and of those decimals with the nearest one. For each number of digits the two neighbours of the
number on the grid of decimals of that length are tried; the first grid with a hit wins.

## Main definitions

* `Decimal.shortest`: the digits and the position of the point.
* `Decimal.Style`: the decisions of a written form.
* `Decimal.write`: the text of a number in a style.
-/

namespace PackageLint.Decimal

/-! ### Digits -/

/-- A positive number with the interval of reals that round to it, all over one denominator. -/
structure Span where
  /-- The lower end. -/
  low : Nat
  /-- The number itself. -/
  value : Nat
  /-- The upper end. -/
  high : Nat
  /-- The common denominator. -/
  unit : Nat
  /-- Whether the ends themselves round to the number. -/
  closed : Bool

/-- The interval that rounds to `m * 2 ^ q`. Below a power of two the neighbours are closer. -/
def Span.of (m : Nat) (q : Int) : Span :=
  let below := if m = Nat.pow 2 52 && Binary64.minExponent < q then 1 else 2
  let scale := if 2 ≤ q then Nat.pow 2 (q - 2).toNat else 1
  { low := (4 * m - below) * scale
    value := 4 * m * scale
    high := (4 * m + 2) * scale
    unit := if 2 ≤ q then 1 else Nat.pow 2 (2 - q).toNat
    closed := m % 2 = 0 }

/-- Whether the decimal `k * num / den` rounds to the number. -/
def Span.holds (s : Span) (k num den : Nat) : Bool :=
  let left := k * num * s.unit
  if s.closed then s.low * den ≤ left && left ≤ s.high * den
  else s.low * den < left && left < s.high * den

/-- The nearest of the two neighbours on the grid of multiples of `num / den` that rounds to the
number, if one does. -/
def Span.onGrid? (s : Span) (num den : Nat) : Option Nat :=
  let k := s.value * den / (s.unit * num)
  let rest := 2 * (s.value * den % (s.unit * num))
  match s.holds k num den, s.holds (k + 1) num den with
  | true, false => some k
  | false, true => some (k + 1)
  | false, false => none
  | true, true =>
    if rest < s.unit * num then some k
    else if s.unit * num < rest then some (k + 1)
    else some (if k % 2 = 0 then k else k + 1)

/-- Tries grids of more and more digits. -/
def Span.search (s : Span) (point : Int) : Nat → Nat → Nat × Int
  | 0, _ => (s.value / s.unit, 0)
  | fuel + 1, digits =>
    let e := point - digits
    let hit :=
      if 0 ≤ e then s.onGrid? (Nat.pow 10 e.toNat) 1 else s.onGrid? 1 (Nat.pow 10 (-e).toNat)
    match hit with
    | some k => (k, e)
    | none => Span.search s point fuel (digits + 1)

/-- The digits `d` and position `p` of the shortest decimal: the number is `0.d * 10 ^ p`. -/
def shortest (m : Nat) (q : Int) : List Char × Int :=
  if m = 0 then (['0'], 1)
  else
    let s := Span.of m q
    let (k, e) := s.search (pointOf s.value s.unit) 18 1
    let digits := Nat.toDigits 10 k
    let significant := (digits.reverse.dropWhile (· = '0')).reverse
    (significant, e + digits.length)

/-! ### Written forms -/

/-- How numbers are written. -/
structure Style where
  /-- The text of the value that is no number. -/
  nan : String
  /-- The text of positive infinity. -/
  infinity : String
  /-- Points further left are written with an exponent. -/
  leastPoint : Int
  /-- Points further right are written with an exponent. -/
  greatestPoint : Int
  deriving Repr

/-- The exponent with its sign and at least two digits. -/
def exponentText (e : Int) : List Char :=
  let digits := Nat.toDigits 10 e.natAbs
  (if e < 0 then '-' else '+') :: (if digits.length < 2 then '0' :: digits else digits)

/-- The text of `0.d * 10 ^ p`. A positional form always has a point and a digit after it. -/
def positionText (style : Style) (digits : List Char) (point : Int) : List Char :=
  if point < style.leastPoint || style.greatestPoint < point then
    digits.take 1 ++ (if digits.length ≤ 1 then [] else '.' :: digits.drop 1)
      ++ 'e' :: exponentText (point - 1)
  else if point ≤ 0 then
    ['0', '.'] ++ List.replicate (-point).toNat '0' ++ digits
  else if digits.length ≤ point.toNat then
    digits ++ List.replicate (point.toNat - digits.length) '0' ++ ['.', '0']
  else digits.take point.toNat ++ '.' :: digits.drop point.toNat

/-- The text of a number. -/
def write (style : Style) : Binary64 → String
  | .nan => style.nan
  | .infinity negative => if negative then "-" ++ style.infinity else style.infinity
  | .finite negative m q =>
    let (digits, point) := shortest m q
    let text := String.ofList (positionText style digits point)
    if negative then "-" ++ text else text

/-- Numbers in messages: an exponent is written from `1e+16` up and from `1e-05` down. -/
def plain : Style :=
  { nan := "nan", infinity := "inf", leastPoint := -3, greatestPoint := 16 }

end PackageLint.Decimal
