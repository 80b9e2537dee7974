import PackageLint.Decimal.Shortest
import PackageLint.Diagnostic.Location
import PackageLint.Text.Blank
import PackageLint.Text.Quoted

/-!
# Arguments as text

An array is shown as its items with commas between them, and an array that stands for a place in the
manifest as an accessor. Which arrays do so is told by the name of the argument.

## Main definitions

* `Arg.literal`: a value as it is shown inside an object.
* `Arg.render`: a value as it is shown in a message.
* `Args.text`: all arguments of a finding in one short line.
* `Args.badKey?`: an item of a place that is no key.
-/

namespace PackageLint

/-- The name of a format among its kind. -/
def Format.constant : Format → String
  | .esm => "ESM"
  | .cjs => "CJS"
  | .mixed => "MIXED"
  | .unknown => "UNKNOWN"

namespace Arg

/-! ### Literals -/

mutual

/-- A value as it is shown inside an object. -/
def literal : Arg → String
  | .null => "None"
  | .bool b => if b then "True" else "False"
  | .int n => toString n
  | .float x => Decimal.write Decimal.plain x
  | .str s => Text.quoted s
  | .format f => "<CodeFormat." ++ f.constant ++ ": " ++ Text.quoted f.name ++ ">"
  | .arr items => "[" ++ Text.join ", " (itemLiterals items) ++ "]"
  | .obj fields => "\x7b" ++ Text.join ", " (fieldLiterals fields) ++ "\x7d"

/-- The literals of items. -/
def itemLiterals : List Arg → List String
  | [] => []
  | item :: rest => item.literal :: itemLiterals rest

/-- The literals of fields. -/
def fieldLiterals : List (String × Arg) → List String
  | [] => []
  | (name, value) :: rest => (Text.quoted name ++ ": " ++ value.literal) :: fieldLiterals rest

end

/-- A value as it is shown on its own, where a string has no quotes. -/
def shown : Arg → String
  | .str s => s
  | value => value.literal

/-! ### Messages -/

/-- The key that an item of a place stands for, and the text that is shown for it. -/
def keyText : Arg → String × String
  | .str s => (s, s)
  | .format f => (f.name, "CodeFormat." ++ f.constant)
  | other => (other.literal, other.literal)

/-- The accessor of an array that stands for a place. -/
def renderPlace (items : List Arg) : String :=
  String.ofList ("pkg".toList ++ items.flatMap fun item =>
    Location.accessorAs item.keyText.2.toList item.keyText.1.toList)

/-- Whether an argument of a name stands for a place when it is an array. -/
def namesPlace (name : String) : Bool := Text.hasEnd name "_path"

mutual

/-- A value as it is shown in a message; `place` says whether an array stands for a place. -/
def renderAs (place : Bool) : Arg → String
  | .str s => s
  | .format f => f.name
  | .arr items => if place then renderPlace items else Text.join ", " (renderItems place items)
  | .null => Arg.null.literal
  | .bool b => (Arg.bool b).literal
  | .int n => (Arg.int n).literal
  | .float x => (Arg.float x).literal
  | .obj fields => (Arg.obj fields).literal

/-- The items of an array as they are shown. -/
def renderItems (place : Bool) : List Arg → List String
  | [] => []
  | item :: rest => item.renderAs place :: renderItems place rest

end

/-- A named value as it is shown in a message. -/
def render (name : String) (value : Arg) : String := value.renderAs (namesPlace name)

/-- Whether a value is missing. -/
def isNull : Arg → Bool
  | .null => true
  | _ => false

/-- Whether a value is a string that is no format. -/
def isStr : Arg → Bool
  | .str _ => true
  | _ => false

end Arg

namespace Args

/-! ### One short line -/

/-- The greatest length of a value in the line. -/
def defaultLength : Int := 50

/-- The start of a text up to a length; a negative length counts from the end. -/
def startOf (length : Int) (cs : List Char) : List Char :=
  if 0 ≤ length then cs.take length.toNat else cs.take ((cs.length : Int) + length).toNat

/-- A text with its blanks made single, cut to a length. -/
def shorten (length : Int) (text : String) : String :=
  let clean := [' '].intercalate (Text.words text.toList)
  String.ofList (if length < clean.length then startOf length clean ++ "...".toList else clean)

/-- A named value in the line. Strings are put in quotes and formats are not. -/
def pairText (length : Int) (entry : String × Arg) : String :=
  let shown := shorten length (entry.2.render entry.1)
  if entry.2.isStr then entry.1 ++ "=\"" ++ shown ++ "\"" else entry.1 ++ "=" ++ shown

/-- All arguments that are not null, in one line. -/
def text (args : Args) (length : Int := defaultLength) : String :=
  "(" ++ Text.join ", " ((args.filter fun e => !e.2.isNull).map (pairText length)) ++ ")"

/-! ### Places -/

/-- An item that cannot be a key of a place. -/
def badItem? (name : String) : Arg → Option Arg
  | .arr items =>
    if Arg.namesPlace name then
      items.find? fun item => match item with
        | .str _ | .format _ => false
        | _ => true
    else none
  | _ => none

/-- The first item of an array that stands for a place and holds something else than keys. -/
def badKey? (args : Args) : Option Arg := args.findSome? fun e => badItem? e.1 e.2

/-- Why an item is no key. -/
def badKeyMessage (item : Arg) : String :=
  let kind := match item with
    | .null => "NoneType"
    | .bool _ => "bool"
    | .int _ => "int"
    | .float _ => "float"
    | .str _ | .format _ => "str"
    | .arr _ => "list"
    | .obj _ => "dict"
  Text.quoted kind ++ " object has no attribute 'isdigit'"

end Args

end PackageLint
