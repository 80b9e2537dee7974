import PackageLint.Diagnostic.Basic
import PackageLint.Failure
import PackageLint.Json.Parser
import PackageLint.Text.Digit

/-!
# Manifests

A manifest is the object in a package's `package.json`. A field may be overridden for publishing under
`publishConfig`; an override that is empty or zero does not count.

## Main definitions

* `Manifest`: the fields of a manifest.
* `Manifest.published`: a field as published, with its place.
* `Json.follow`: the value at a place.
* `Manifest.ofText?`: the manifest in a text.
-/

namespace PackageLint

/-- The fields of a manifest. -/
abbrev Manifest := Json.Fields

/-- The name of the manifest's file. -/
def manifestName : String := "package.json"

namespace Manifest

/-- The fields that override others for publishing. -/
def overrides (manifest : Manifest) : Json.Fields :=
  match Json.field manifest "publishConfig" with
  | .obj fields => fields
  | _ => []

/-- A field as published, with its place: the override when it counts, else the field itself. A
missing field is null. -/
def published (manifest : Manifest) (field : String) : Json × Location :=
  let override := Json.field manifest.overrides field
  if override.truthy then (override, ["publishConfig", field])
  else (Json.field manifest field, [field])

/-- The manifest in a text, when the text is a JSON object. -/
def ofText? (text : String) : Option Manifest :=
  match Json.parse text with
  | .ok (.obj fields) => some fields
  | _ => none

end Manifest

/-- The index that a key of digits denotes. Too long a run of decimal digits is an error before a digit
after it that is none. -/
def indexOfKey (key : String) : Except Failure Nat :=
  let run := key.toList.takeWhile fun c => (Text.decimalValue? c).isSome
  if Numeral.maxDigits < run.length then .error (.numeral (.tooManyDigits run.length))
  else
    match Text.decimalNumber? key.toList with
    | none => .error (.numeral (.notInteger 10 key))
    | some n => .ok n

/-- The value at a place: null where nothing is there. In an array, only a key of digits leads on. -/
def Json.follow : Json → Location → Except Failure Json
  | value, [] => .ok value
  | .obj fields, key :: rest => (Json.field fields key).follow rest
  | .arr items, key :: rest =>
    if Text.allDigits key.toList then
      match indexOfKey key with
      | .error e => .error e
      | .ok n =>
        match items[n]? with
        | some item => item.follow rest
        | none => .ok .null
    else .ok .null
  | _, _ :: _ => .ok .null

end PackageLint
