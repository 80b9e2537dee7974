import PackageLint.Decimal.Shortest
import PackageLint.Text.Base64
import PackageLint.Yaml.Form
import PackageLint.Yaml.Style

/-!
# Writing YAML

Mappings are written in block form. The items of a sequence stand below its key without further
indentation, and empty collections are a pair of brackets. A label before a collection takes up the rest
of its line.

## Main definitions

* `Yaml.scalarText`: the text of a scalar.
* `Yaml.write`: the text of a mapping.
-/

namespace PackageLint.Yaml

/-! ### Scalars -/

/-- The text of a number with a fraction. A number in exponential form has a point too. -/
def floatText : Binary64 → List Char
  | .nan => ".nan".toList
  | .infinity negative => (if negative then "-.inf" else ".inf").toList
  | x =>
    let cs := (Decimal.write Decimal.plain x).toList
    if cs.contains '.' then cs
    else ((Text.replaceFirst? ['e'] ['.', '0', 'e'] cs).getD cs)

/-- The text of bytes: their lines in base 64, each on a line of its own, or an empty text. -/
def binaryText (room : Room) (bytes : List UInt8) : List Char :=
  "!!binary ".toList
    ++ if bytes.isEmpty then ['"', '"']
      else '|' :: (Base64.lines bytes).flatMap fun line => room.newLine ++ line

/-- The text of a scalar. -/
def scalarText (isKey : Bool) (room : Room) : Scalar → List Char
  | .null => "null".toList
  | .bool b => (if b then "true" else "false").toList
  | .int n => (toString n).toList
  | .float x => floatText x
  | .str s => stringText isKey room s
  | .binary bytes => binaryText room bytes
  | .date d => d.text.toList
  | .moment m => plainText room room.column 0 m.text.toList

/-- Whether a key fits on the line of its value, given how long its text and the name of its type
are. -/
def isShortKey (text type : Nat) : Bool := text + type < 128

/-- Whether a key goes on the line of its value: it has one line, is not empty, and is short. -/
def Scalar.isSimpleKey : Scalar → Bool
  | .null => true
  | .bool _ => true
  | .int n => isShortKey (toString n).length 5
  | .float x => isShortKey (floatText x).length 7
  | .str s =>
    let shape := Shape.of s.toList
    !shape.empty && !shape.multiline && isShortKey s.length 5
  | .binary _ => false
  | .date _ => true
  | .moment _ => true

/-! ### Collections -/

/-- The start of a line at a column. -/
def newLine (indent : Nat) : List Char := '\n' :: List.replicate indent ' '

/-- The text of labels, with a space before each. -/
def labelText (labels : List String) : List Char :=
  labels.flatMap fun label => ' ' :: label.toList

/-- A scalar after its labels, on a line that goes up to `column`. -/
def afterLabels (labels : List String) (column indent : Nat) (s : Scalar) : List Char :=
  let before := labelText labels
  before ++ ' ' :: scalarText false ⟨column + before.length + 1, indent, true⟩ s

mutual

/-- A value after its key and colon, in a mapping at a column; the line goes up to `column`. -/
def afterKey (indent column : Nat) : Form → List Char
  | .alias name => " *".toList ++ name.toList
  | .scalar labels s => afterLabels labels column (indent + 2) s
  | .seq labels [] => labelText labels ++ " []".toList
  | .map labels [] => labelText labels ++ " \x7b\x7d".toList
  | .seq labels (item :: rest) =>
    labelText labels ++ newLine indent ++ itemsText indent (item :: rest)
  | .map labels (entry :: rest) =>
    labelText labels ++ newLine (indent + 2) ++ entriesText (indent + 2) (entry :: rest)

/-- A value after a dash or another indicator at a column. Without labels, a collection goes on there;
with labels it begins on the next line, and in a mapping a sequence is then not indented. -/
def afterMark (inMapping : Bool) (indent : Nat) : Form → List Char
  | .alias name => " *".toList ++ name.toList
  | .scalar labels s => afterLabels labels (indent + 1) (indent + 2) s
  | .seq labels [] => labelText labels ++ " []".toList
  | .map labels [] => labelText labels ++ " \x7b\x7d".toList
  | .seq labels (item :: rest) =>
    if labels.isEmpty then ' ' :: itemsText (indent + 2) (item :: rest)
    else
      let column := if inMapping then indent else indent + 2
      labelText labels ++ newLine column ++ itemsText column (item :: rest)
  | .map labels (entry :: rest) =>
    labelText labels ++ (if labels.isEmpty then [' '] else newLine (indent + 2))
      ++ entriesText (indent + 2) (entry :: rest)

/-- The items of a sequence at a column, the first on the current line. -/
def itemsText (indent : Nat) : List Form → List Char
  | [] => []
  | [item] => '-' :: afterMark false indent item
  | item :: rest => '-' :: afterMark false indent item ++ newLine indent ++ itemsText indent rest

/-- An entry of a mapping at a column. -/
def entryText (indent : Nat) : Scalar × Form → List Char
  | (key, value) =>
    if key.isSimpleKey then
      let text := scalarText true ⟨indent, indent, false⟩ key
      text ++ ':' :: afterKey indent (indent + text.length + 1) value
    else
      '?' :: afterLabels [] (indent + 1) (indent + 2) key ++ newLine indent
        ++ ':' :: afterMark true indent value

/-- The entries of a mapping at a column, the first on the current line. -/
def entriesText (indent : Nat) : List (Scalar × Form) → List Char
  | [] => []
  | [entry] => entryText indent entry
  | entry :: rest => entryText indent entry ++ newLine indent ++ entriesText indent rest

end

/-- The text of a mapping. -/
def write (entries : Mapping) : String :=
  match Form.ofEntries entries with
  | [] => "\x7b\x7d\n"
  | first :: rest => String.ofList (entriesText 0 (first :: rest) ++ ['\n'])

end PackageLint.Yaml
