import PackageLint.Decimal.Shortest
import PackageLint.Text.Quoted
import PackageLint.Yaml.Basic

/-!
# Values in messages

A message shows a value on one line, with texts and bytes in quotes and numbers as they are. Where a
sequence or mapping holds itself, it is cut short.

## Main definitions

* `Yaml.literal`: a value as it is shown in a message.
-/

namespace PackageLint.Yaml

/-- A byte between quotes of the given kind. -/
def quotedByte (mark : Char) (b : UInt8) : List Char :=
  let c := Char.ofNat b.toNat
  if c = mark || c = '\\' then ['\\', c]
  else if c = '\n' then ['\\', 'n']
  else if c = '\r' then ['\\', 'r']
  else if c = '\t' then ['\\', 't']
  else if ' ' ≤ c && c ≤ '~' then [c]
  else '\\' :: 'x' :: Text.hexDigits 2 b.toNat

/-- Bytes in quotes. -/
def quotedBytes (bytes : List UInt8) : String :=
  let mark := Text.quoteMark (bytes.map fun b => Char.ofNat b.toNat)
  String.ofList ('b' :: mark :: bytes.flatMap (quotedByte mark) ++ [mark])

/-- A scalar as it is shown in a message. -/
def Scalar.literal : Scalar → String
  | .null => "None"
  | .bool b => if b then "True" else "False"
  | .int n => toString n
  | .float x => Decimal.write Decimal.plain x
  | .str s => Text.quoted s
  | .binary bytes => quotedBytes bytes
  | .date d => d.literal
  | .moment m => m.literal

/-- Items between curly brackets. -/
def bracedItems (items : List String) : String := "\x7b" ++ Text.join ", " items ++ "\x7d"

mutual

/-- A value as it is shown in a message. -/
def literal : Yaml → String
  | .scalar value => value.literal
  | .seq items => "[" ++ Text.join ", " (itemLiterals items) ++ "]"
  | .map entries => bracedItems (entryLiterals entries)
  | .set [] => "set()"
  | .set members => bracedItems (members.map Scalar.literal)
  | .pair key value => "(" ++ key.literal ++ ", " ++ value.literal ++ ")"
  | .shared _ value => value.literal
  | .again _ isMap => if isMap then bracedItems ["..."] else "[...]"

/-- The literals of items. -/
def itemLiterals : List Yaml → List String
  | [] => []
  | item :: rest => item.literal :: itemLiterals rest

/-- The literals of entries. -/
def entryLiterals : List (Scalar × Yaml) → List String
  | [] => []
  | (key, value) :: rest => (key.literal ++ ": " ++ value.literal) :: entryLiterals rest

end

end PackageLint.Yaml
