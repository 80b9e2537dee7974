import PackageLint.Json.Basic
import PackageLint.Source.Format

/-!
# Arguments of findings

A finding carries named values for its message. They are JSON values in which a module format may
stand in place of a string.

## Main definitions

* `Arg`: the values.
* `Args`: named values in order.
* `Arg.toJson`: the JSON value, where a format is its name.
* `Arg.ofJson`: a JSON value as an argument.
-/

namespace PackageLint

/-- A value in a finding's arguments. -/
inductive Arg where
  | null
  | bool (value : Bool)
  | int (value : Int)
  | float (value : Binary64)
  | str (value : String)
  | format (value : Format)
  | arr (items : List Arg)
  | obj (fields : List (String × Arg))
  deriving Repr, Inhabited, BEq

/-- Named values in order. -/
abbrev Args := Assoc Arg

namespace Arg

/-- An array of strings. -/
def strs (items : List String) : Arg := .arr (items.map .str)

mutual

/-- The JSON value of an argument. -/
def toJson : Arg → Json
  | .null => .null
  | .bool b => .bool b
  | .int n => .int n
  | .float x => .float x
  | .str s => .str s
  | .format f => .str f.name
  | .arr items => .arr (itemsToJson items)
  | .obj fields => .obj (fieldsToJson fields)

/-- The JSON values of arguments. -/
def itemsToJson : List Arg → List Json
  | [] => []
  | item :: rest => item.toJson :: itemsToJson rest

/-- The JSON fields of named arguments. -/
def fieldsToJson : List (String × Arg) → List (String × Json)
  | [] => []
  | (name, value) :: rest => (name, value.toJson) :: fieldsToJson rest

end

mutual

/-- A JSON value as an argument. -/
def ofJson : Json → Arg
  | .null => .null
  | .bool b => .bool b
  | .int n => .int n
  | .float x => .float x
  | .str s => .str s
  | .arr items => .arr (itemsOfJson items)
  | .obj fields => .obj (fieldsOfJson fields)

/-- JSON values as arguments. -/
def itemsOfJson : List Json → List Arg
  | [] => []
  | item :: rest => ofJson item :: itemsOfJson rest

/-- JSON fields as named arguments. -/
def fieldsOfJson : List (String × Json) → List (String × Arg)
  | [] => []
  | (name, value) :: rest => (name, ofJson value) :: fieldsOfJson rest

end

end Arg

/-- The JSON object of named arguments. -/
def Args.toJson (args : Args) : Json := .obj (Arg.fieldsToJson args)

end PackageLint
