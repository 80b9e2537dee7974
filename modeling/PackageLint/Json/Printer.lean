import PackageLint.Decimal.Shortest
import PackageLint.Json.Basic
import PackageLint.Text.Basic
import PackageLint.Text.Hex

/-!
# Writing JSON

One printer serves every written form; a form is a record of its decisions. Strings may be kept in
ASCII by escaping other characters as UTF-16 code units, or left as they are.

## Main definitions

* `Json.quote`: a string in double quotes.
* `Json.Form`: the decisions of a written form.
* `Json.write`: the text of a value.
-/

namespace PackageLint.Json

/-! ### Strings -/

/-- The escape of a code unit. -/
def unitEscape (unit : Nat) : List Char := '\\' :: 'u' :: Text.hexDigits 4 unit

/-- The escape of a character: one code unit, or two above the first plane. -/
def charEscape (c : Char) : List Char :=
  if c.toNat < 0x10000 then unitEscape c.toNat
  else
    let n := c.toNat - 0x10000
    unitEscape (0xd800 + n / 0x400) ++ unitEscape (0xdc00 + n % 0x400)

/-- A character inside double quotes. -/
def quoteChar (ascii : Bool) (c : Char) : List Char :=
  if c = '"' then ['\\', '"']
  else if c = '\\' then ['\\', '\\']
  else if c = '\n' then ['\\', 'n']
  else if c = '\r' then ['\\', 'r']
  else if c = '\t' then ['\\', 't']
  else if c = '\x08' then ['\\', 'b']
  else if c = '\x0c' then ['\\', 'f']
  else if c.toNat < 0x20 then unitEscape c.toNat
  else if ascii && 0x7f ≤ c.toNat then charEscape c
  else [c]

/-- A text in double quotes. -/
def quoteChars (ascii : Bool) (cs : List Char) : List Char :=
  '"' :: cs.flatMap (quoteChar ascii) ++ ['"']

/-- A string in double quotes; `ascii` escapes all but printable ASCII. -/
def quote (ascii : Bool) (s : String) : String := String.ofList (quoteChars ascii s.toList)

/-! ### Values -/

/-- How values are written. -/
structure Form where
  /-- Whether all but printable ASCII characters are escaped. -/
  ascii : Bool
  /-- What separates items on one line. -/
  itemGap : String
  /-- What separates a name from its value. -/
  nameGap : String
  /-- The spaces per level, when every item has a line of its own. -/
  indent : Option Nat
  /-- Whether fields are written in the order of their names. -/
  sorted : Bool
  deriving Repr

/-- Numbers of a data file. -/
def numberStyle : Decimal.Style :=
  { nan := "NaN", infinity := "Infinity", leastPoint := -3, greatestPoint := 16 }

/-- A line feed and the indentation of a level. -/
def newLine (width level : Nat) : String :=
  String.ofList ('\n' :: List.replicate (width * level) ' ')

/-- Parts between brackets, on one line or each on its own. -/
def bracketed (form : Form) (level : Nat) (opening closing : String) (parts : List String) :
    String :=
  match parts, form.indent with
  | [], _ => opening ++ closing
  | _, none => opening ++ Text.join form.itemGap parts ++ closing
  | _, some width =>
    opening ++ newLine width (level + 1) ++ Text.join ("," ++ newLine width (level + 1)) parts
      ++ newLine width level ++ closing

/-- Pairs in the order of their first parts. -/
def sortByName (parts : List (String × String)) : List (String × String) :=
  parts.mergeSort fun a b => decide (a.1 ≤ b.1)

/-- A written field. -/
def writtenField (form : Form) (part : String × String) : String :=
  quote form.ascii part.1 ++ form.nameGap ++ part.2

mutual

/-- The text of a value at a level of nesting. -/
def writeAt (form : Form) (level : Nat) : Json → String
  | .null => "null"
  | .bool b => if b then "true" else "false"
  | .int n => toString n
  | .float x => Decimal.write numberStyle x
  | .str s => quote form.ascii s
  | .arr items => bracketed form level "[" "]" (writeItems form (level + 1) items)
  | .obj fields =>
    let parts := writeFields form (level + 1) fields
    let parts := if form.sorted then sortByName parts else parts
    bracketed form level "\x7b" "\x7d" (parts.map (writtenField form))

/-- The texts of values. -/
def writeItems (form : Form) (level : Nat) : List Json → List String
  | [] => []
  | item :: rest => writeAt form level item :: writeItems form level rest

/-- The names and texts of fields. -/
def writeFields (form : Form) (level : Nat) : List (String × Json) → List (String × String)
  | [] => []
  | (name, value) :: rest => (name, writeAt form level value) :: writeFields form level rest

end

/-- The text of a value. -/
def write (form : Form) (value : Json) : String := writeAt form 0 value

/-- One line in ASCII. -/
def lineForm : Form :=
  { ascii := true, itemGap := ",", nameGap := ":", indent := none, sorted := false }

/-- One line with sorted fields, in which equal values have equal texts. -/
def canonicalForm : Form :=
  { ascii := false, itemGap := ",", nameGap := ":", indent := none, sorted := true }

/-- A line per item, indented by two. -/
def pageForm : Form :=
  { ascii := false, itemGap := ",", nameGap := ": ", indent := some 2, sorted := false }

/-- One line in which items are separated by blanks. -/
def recordForm : Form :=
  { ascii := false, itemGap := ", ", nameGap := ": ", indent := none, sorted := false }

end PackageLint.Json
