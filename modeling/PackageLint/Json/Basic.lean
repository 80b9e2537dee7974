import PackageLint.Assoc
import PackageLint.Decimal.Binary64

/-!
# JSON values

A manifest is a JSON object. Integers are exact and kept apart from numbers with a fraction or an
exponent, and the fields of an object keep their order.

## Main definitions

* `Json`: the values.
* `Json.typeName`: the name of a value's type.
* `Json.truthy`: whether a value counts as given, in the reading in which empty containers do not.
* `Json.isSet`: the same in the reading in which empty containers do.
-/

namespace PackageLint

/-- A JSON value. -/
inductive Json where
  | null
  | bool (value : Bool)
  | int (value : Int)
  | float (value : Binary64)
  | str (value : String)
  | arr (items : List Json)
  | obj (fields : List (String × Json))
  deriving Repr, Inhabited, BEq

namespace Json

/-- The fields of an object, in order. -/
abbrev Fields := Assoc Json

/-- The name of a value's type. -/
def typeName : Json → String
  | .null => "null"
  | .bool _ => "boolean"
  | .int _ | .float _ => "number"
  | .str _ => "string"
  | .arr _ => "array"
  | .obj _ => "object"

/-- Whether a value is neither null, false, zero nor empty. -/
def truthy : Json → Bool
  | .null => false
  | .bool b => b
  | .int n => n != 0
  | .float x => !x.isZero
  | .str s => s != ""
  | .arr items => !items.isEmpty
  | .obj fields => !fields.isEmpty

/-- Whether a value counts as set: empty containers do, and null, false, zero and the empty string do
not. -/
def isSet : Json → Bool
  | .null => false
  | .bool b => b
  | .int n => n != 0
  | .float x => !x.isZero
  | .str s => s != ""
  | .arr _ => true
  | .obj _ => true

/-- Whether a value is null. -/
def isNull : Json → Bool
  | .null => true
  | _ => false

/-- The value of a field of an object; null when it is missing. -/
def field (fields : Fields) (name : String) : Json := (Assoc.get? name fields).getD .null

end Json

end PackageLint
