import PackageLint.Json.Basic
import PackageLint.Text.Basic
import PackageLint.Text.Hex
import PackageLint.Text.Numeral

/-!
# Reading JSON

A strict reader with two liberties: `NaN`, `Infinity` and `-Infinity` are numbers, and of a field that
is given twice the last value counts, at the place of the first. Errors carry the position of the
offending character.

## Main definitions

* `Json.ParseError`: why a text is no JSON value.
* `Json.parse`: the value of a whole text.
* `Json.ParseError.message`: the wording of an error, with its line and column.
-/

namespace PackageLint.Json

/-! ### Errors -/

/-- What is wrong at a position. -/
inductive Problem where
  | expectingValue
  | expectingName
  | expectingColon
  | expectingComma
  | extraData
  | unterminatedString
  | controlCharacter
  | badEscape
  | badCodeUnit
  | byteOrderMark
  deriving DecidableEq, Repr

/-- Why a text is no JSON value. -/
inductive ParseError where
  /-- The text breaks the grammar at a position. -/
  | malformed (problem : Problem) (position : Nat)
  /-- An integer has more digits than are read. -/
  | tooManyDigits (digits : Nat)
  deriving DecidableEq, Repr

/-- The wording of a problem. -/
def Problem.message : Problem → String
  | .expectingValue => "Expecting value"
  | .expectingName => "Expecting property name enclosed in double quotes"
  | .expectingColon => "Expecting ':' delimiter"
  | .expectingComma => "Expecting ',' delimiter"
  | .extraData => "Extra data"
  | .unterminatedString => "Unterminated string starting at"
  | .controlCharacter => "Invalid control character at"
  | .badEscape => "Invalid \\escape"
  | .badCodeUnit => "Invalid \\uXXXX escape"
  | .byteOrderMark => "Unexpected UTF-8 BOM (decode using utf-8-sig)"

/-- The line and the column of a position, both from one. -/
def lineColumn (position : Nat) (text : List Char) : Nat × Nat :=
  let before := text.take position
  let column := (before.reverse.takeWhile (· ≠ '\n')).length + 1
  (before.count '\n' + 1, column)

/-- The wording of an error in a text. -/
def ParseError.message (text : String) : ParseError → String
  | .malformed problem position =>
    let (line, column) := lineColumn position text.toList
    s!"{problem.message}: line {line} column {column} (char {position})"
  | .tooManyDigits digits => (Numeral.Error.tooManyDigits digits).message

/-! ### The cursor -/

/-- What is left of a text, and how many characters came before it. -/
structure Cursor where
  /-- The characters to read. -/
  rest : List Char
  /-- The number of characters read. -/
  position : Nat
  deriving Repr

/-- Blanks between tokens. -/
def isSpace (c : Char) : Bool := c = ' ' || c = '\t' || c = '\n' || c = '\r'

/-- Reads past blanks. -/
def Cursor.skipSpace (c : Cursor) : Cursor :=
  let blanks := c.rest.takeWhile isSpace
  { rest := c.rest.drop blanks.length, position := c.position + blanks.length }

/-- Reads past a number of characters. -/
def Cursor.advance (c : Cursor) (n : Nat) : Cursor :=
  { rest := c.rest.drop n, position := c.position + n }

/-- The error at the cursor. -/
def Cursor.fail {α : Type} (c : Cursor) (problem : Problem) : Except ParseError α :=
  .error (.malformed problem c.position)

/-! ### Strings -/

/-- The number written by four hexadecimal digits. -/
def hex4? (a b c d : Char) : Option Nat := Text.hexNumber? [a, b, c, d]

/-- Whether a code unit opens a surrogate pair. -/
def isHighSurrogate (unit : Nat) : Bool := 0xd800 ≤ unit && unit < 0xdc00

/-- Whether a code unit closes a surrogate pair. -/
def isLowSurrogate (unit : Nat) : Bool := 0xdc00 ≤ unit && unit < 0xe000

/-- The character of a code unit that stands alone. Half of a pair has none and is replaced. -/
def charOfUnit (unit : Nat) : Char :=
  if isHighSurrogate unit || isLowSurrogate unit then '\uFFFD' else Char.ofNat unit

/-- The character of a surrogate pair. -/
def charOfPair (high low : Nat) : Char :=
  Char.ofNat (0x10000 + (high - 0xd800) * 0x400 + (low - 0xdc00))

/-- The character of a simple escape. -/
def simpleEscape? : Char → Option Char
  | '"' => some '"'
  | '\\' => some '\\'
  | '/' => some '/'
  | 'b' => some '\x08'
  | 'f' => some '\x0c'
  | 'n' => some '\n'
  | 'r' => some '\r'
  | 't' => some '\t'
  | _ => none

/-- One unit of a string: a character, or a code unit given by its number. -/
inductive Piece where
  | char (c : Char)
  | unit (value : Nat)

/-- The characters of a string's units. Two code units that form a surrogate pair are one character. -/
def charsOfPieces : List Piece → List Char
  | [] => []
  | .char c :: rest => c :: charsOfPieces rest
  | .unit high :: .unit low :: rest =>
    if isHighSurrogate high && isLowSurrogate low then charOfPair high low :: charsOfPieces rest
    else charOfUnit high :: charsOfPieces (.unit low :: rest)
  | .unit value :: rest => charOfUnit value :: charsOfPieces rest

/-- The string of units that are given latest first. -/
def stringOfPieces (reversed : List Piece) : String :=
  String.ofList (charsOfPieces reversed.reverse)

/-- Reads a string up to its closing quote. `start` is the position of the opening quote, `position`
that of the next character, and `acc` holds the units read so far, the latest first. -/
def stringFrom (start : Nat) :
    Nat → List Piece → List Char → Except ParseError (String × Cursor)
  | _, _, [] => .error (.malformed .unterminatedString start)
  | position, acc, '"' :: rest => .ok (stringOfPieces acc, { rest, position := position + 1 })
  | _, _, '\\' :: [] => .error (.malformed .unterminatedString start)
  | position, acc, '\\' :: 'u' :: a :: b :: c :: d :: rest =>
    match hex4? a b c d, rest with
    | none, _ | some _, [] => .error (.malformed .badCodeUnit (position + 1))
    | some unit, _ :: _ => stringFrom start (position + 6) (.unit unit :: acc) rest
  | position, acc, '\\' :: c :: rest =>
    if c = 'u' then .error (.malformed .badCodeUnit (position + 1))
    else
      match simpleEscape? c with
      | some escaped => stringFrom start (position + 2) (.char escaped :: acc) rest
      | none => .error (.malformed .badEscape position)
  | position, acc, c :: rest =>
    if c.toNat < 0x20 then .error (.malformed .controlCharacter position)
    else stringFrom start (position + 1) (.char c :: acc) rest

/-! ### Numbers -/

/-- Whether a character is a decimal digit of a number. -/
def isDigit (c : Char) : Bool := '0' ≤ c && c ≤ '9'

/-- The number written by ASCII digits. -/
def natOfDigits (digits : List Char) : Nat :=
  digits.foldl (fun n c => 10 * n + (c.toNat - '0'.toNat)) 0

/-- The digits of the integer part: a zero stands alone. -/
def integerDigits : List Char → List Char
  | '0' :: _ => ['0']
  | cs => cs.takeWhile isDigit

/-- The digits after the point, when at least one follows. -/
def fractionDigits : List Char → List Char
  | '.' :: rest => rest.takeWhile isDigit
  | _ => []

/-- The sign and the digits of an exponent with their total length, when at least one digit is
there. -/
def exponentPart? : List Char → Option (Int × Nat)
  | e :: rest =>
    if e = 'e' || e = 'E' then
      let (negative, signLength, digits) :=
        match rest with
        | '-' :: ds => (true, 1, ds.takeWhile isDigit)
        | '+' :: ds => (false, 1, ds.takeWhile isDigit)
        | ds => (false, 0, ds.takeWhile isDigit)
      if digits.isEmpty then none
      else
        let n : Int := natOfDigits digits
        some (if negative then -n else n, 1 + signLength + digits.length)
    else none
  | [] => none

/-- Reads a number after its sign. -/
def numberFrom (start : Cursor) (negative : Bool) (c : Cursor) :
    Except ParseError (Json × Cursor) :=
  let whole := integerDigits c.rest
  if whole.isEmpty then start.fail .expectingValue
  else
    let c := c.advance whole.length
    let fraction := fractionDigits c.rest
    let c := if fraction.isEmpty then c else c.advance (1 + fraction.length)
    match exponentPart? c.rest, fraction.isEmpty with
    | none, true =>
      if Numeral.maxDigits < whole.length then .error (.tooManyDigits whole.length)
      else
        let n : Int := natOfDigits whole
        .ok (.int (if negative then -n else n), c)
    | exponent, _ =>
      let (e, length) := exponent.getD (0, 0)
      let digits := natOfDigits (whole ++ fraction)
      .ok (.float (.ofDecimal negative digits (e - fraction.length)), c.advance length)

/-! ### Values -/

/-- Reads a word that stands for a value. -/
def word? (c : Cursor) : Option (Json × Cursor) :=
  let words : List (String × Json) :=
    [("null", .null), ("true", .bool true), ("false", .bool false), ("NaN", .float .nan),
     ("Infinity", .float (.infinity false)), ("-Infinity", .float (.infinity true))]
  words.findSome? fun (text, value) =>
    (Text.dropStart? text.toList c.rest).map fun rest =>
      (value, { rest, position := c.position + text.length })

/-- Reads a value that is neither a string, an array nor an object. -/
def scalar (c : Cursor) : Except ParseError (Json × Cursor) :=
  match word? c with
  | some found => .ok found
  | none =>
    match c.rest with
    | '-' :: _ => numberFrom c true (c.advance 1)
    | _ => numberFrom c false c

/-- Reads the name of a field and the colon after it. -/
def nameFrom (c : Cursor) : Except ParseError (String × Cursor) :=
  match c.rest with
  | '"' :: rest => do
    let (name, c) ← stringFrom c.position (c.position + 1) [] rest
    let c := c.skipSpace
    match c.rest with
    | ':' :: _ => pure (name, (c.advance 1).skipSpace)
    | _ => c.fail .expectingColon
  | _ => c.fail .expectingName

mutual

/-- Reads a value. The bound counts nested readings. -/
def valueFrom : Nat → Cursor → Except ParseError (Json × Cursor)
  | 0, c => c.fail .expectingValue
  | bound + 1, c =>
    match c.rest with
    | '"' :: rest => do
      let (s, c) ← stringFrom c.position (c.position + 1) [] rest
      pure (.str s, c)
    | '[' :: _ =>
      let c := (c.advance 1).skipSpace
      match c.rest with
      | ']' :: _ => .ok (.arr [], c.advance 1)
      | _ => itemsFrom bound [] c
    | '\x7b' :: _ =>
      let c := (c.advance 1).skipSpace
      match c.rest with
      | '\x7d' :: _ => .ok (.obj [], c.advance 1)
      | _ => fieldsFrom bound [] c
    | _ => scalar c

/-- Reads the items of an array up to its end; `acc` holds those before, the latest first. -/
def itemsFrom : Nat → List Json → Cursor → Except ParseError (Json × Cursor)
  | 0, _, c => c.fail .expectingValue
  | bound + 1, acc, c => do
    let (item, c) ← valueFrom bound c
    let c := c.skipSpace
    match c.rest with
    | ']' :: _ => pure (.arr (item :: acc).reverse, c.advance 1)
    | ',' :: _ => itemsFrom bound (item :: acc) (c.advance 1).skipSpace
    | _ => c.fail .expectingComma

/-- Reads the fields of an object up to its end, after those in `acc`. -/
def fieldsFrom : Nat → Fields → Cursor → Except ParseError (Json × Cursor)
  | 0, _, c => c.fail .expectingName
  | bound + 1, acc, c => do
    let (name, c) ← nameFrom c
    let (value, c) ← valueFrom bound c
    let acc := Assoc.put name value acc
    let c := c.skipSpace
    match c.rest with
    | '\x7d' :: _ => pure (.obj acc, c.advance 1)
    | ',' :: _ => fieldsFrom bound acc (c.advance 1).skipSpace
    | _ => c.fail .expectingComma

end

/-- Reads a whole text. Every nested reading takes a character, so the bound is never met. -/
def parseChars (text : List Char) : Except ParseError Json :=
  match text with
  | '\uFEFF' :: _ => .error (.malformed .byteOrderMark 0)
  | _ => do
    let start : Cursor := { rest := text, position := 0 }
    let (value, c) ← valueFrom (2 * text.length + 2) start.skipSpace
    let c := c.skipSpace
    if c.rest.isEmpty then pure value else c.fail .extraData

/-- The JSON value of a text. -/
def parse (text : String) : Except ParseError Json := parseChars text.toList

end PackageLint.Json
