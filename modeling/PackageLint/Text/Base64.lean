import PackageLint.Text.Basic

/-!
# Bytes in base 64

Bytes are written in an alphabet of 64 characters, six bits in each, so that three bytes take four
characters; a last group that is not full is filled up with `=`. The reader passes over all characters
that are not in the alphabet, and stops where a group is filled up.

## Main definitions

* `Base64.decode?`: the bytes of a text.
* `Base64.encode`, `Base64.lines`: the text of bytes, and its lines.
-/

namespace PackageLint.Base64

/-- The characters in the order of their values. -/
def alphabet : List Char :=
  "ABCDEFGHIJKLMNOPQRSTUVWXYZabcdefghijklmnopqrstuvwxyz0123456789+/".toList

/-- The character that fills up a group. -/
def filler : Char := '='

/-- The value of a character. -/
def value? (c : Char) : Option Nat := alphabet.idxOf? c

/-- The character of a value. -/
def charOf (n : Nat) : Char := (alphabet[n]?).getD filler

/-! ### Reading -/

/-- The bytes after the values of a group so far, of which there are up to three, and `fillers` that
came after them. A group that is not filled up has no bytes. -/
def decodeFrom (group : List Nat) (fillers : Nat) : List Char → Option (List UInt8)
  | [] => if group.isEmpty then some [] else none
  | c :: rest =>
    if c = filler then
      if 2 ≤ group.length && 4 ≤ group.length + fillers + 1 then some []
      else decodeFrom group (if 2 ≤ group.length then fillers + 1 else fillers) rest
    else
      match value? c, group with
      | none, _ => decodeFrom group fillers rest
      | some v, [] => decodeFrom [v] 0 rest
      | some v, [a] => (decodeFrom [a, v] 0 rest).map ((a * 4 + v / 16).toUInt8 :: ·)
      | some v, [a, b] => (decodeFrom [a, b, v] 0 rest).map ((b % 16 * 16 + v / 4).toUInt8 :: ·)
      | some v, _ :: _ :: d :: _ => (decodeFrom [] 0 rest).map ((d % 4 * 64 + v).toUInt8 :: ·)

/-- The bytes of a text, when its last group is full or filled up. -/
def decode? (cs : List Char) : Option (List UInt8) := decodeFrom [] 0 cs

/-! ### Writing -/

/-- The text of bytes. -/
def encode : List UInt8 → List Char
  | [] => []
  | [a] =>
    let a := a.toNat
    [charOf (a / 4), charOf (a % 4 * 16), filler, filler]
  | [a, b] =>
    let (a, b) := (a.toNat, b.toNat)
    [charOf (a / 4), charOf (a % 4 * 16 + b / 16), charOf (b % 16 * 4), filler]
  | a :: b :: c :: rest =>
    let (a, b, c) := (a.toNat, b.toNat, c.toNat)
    charOf (a / 4) :: charOf (a % 4 * 16 + b / 16) :: charOf (b % 16 * 4 + c / 64)
      :: charOf (c % 64) :: encode rest

/-- The most bytes on a line. -/
def lineBytes : Nat := 57

/-- The lines of at most `bound` chunks of bytes. -/
def linesWithin : Nat → List UInt8 → List (List Char)
  | 0, _ => []
  | bound + 1, bytes =>
    if bytes.isEmpty then []
    else encode (bytes.take lineBytes) :: linesWithin bound (bytes.drop lineBytes)

/-- The lines of bytes. -/
def lines (bytes : List UInt8) : List (List Char) := linesWithin bytes.length bytes

end PackageLint.Base64
