import PackageLint.Json.Basic
import PackageLint.Pass.Run

/-!
# Options given as data

The options of a pass may be given as JSON values. A level is the name of a severity. The strict flag may
also be given as a number or a word. The list of published files holds strings only.

## Main definitions

* `Pass.Options.ofJson?`: the options in a JSON object.
-/

namespace PackageLint.Pass

/-- The words that mean yes. -/
def yesWords : List String := ["1", "t", "y", "on", "yes", "true"]

/-- The words that mean no. -/
def noWords : List String := ["0", "f", "n", "no", "off", "false"]

/-- The meaning of a word, whatever the case of its letters. -/
def flagOfWord? (word : String) : Option Bool :=
  let lower := String.ofList (word.toList.map Text.lowerAscii)
  if yesWords.contains lower then some true
  else if noWords.contains lower then some false
  else none

/-- The flag that a value stands for. -/
def flagOfJson? : Json → Option Bool
  | .bool b => some b
  | .int n => if n = 0 then some false else if n = 1 then some true else none
  | .float x =>
    if x.isZero then some false
    else if x = Binary64.ofDecimal false 1 0 then some true
    else none
  | .str word => flagOfWord? word
  | _ => none

/-- The level that a value stands for. -/
def levelOfJson? : Json → Option Severity
  | .str name => Severity.ofName? name
  | _ => none

/-- The strings of a list of values, when all are strings. -/
def strings? : List Json → Option (List String)
  | [] => some []
  | .str s :: rest => (strings? rest).map (s :: ·)
  | _ :: _ => none

/-- The list of published files that a value stands for. -/
def publishedOfJson? : Json → Option (Option (List String))
  | .null => some none
  | .arr items => (strings? items).map some
  | _ => none

/-- The options in a JSON object. What is not given has its default; a value of another kind than
expected makes all options invalid. -/
def Options.ofJson? (fields : Json.Fields) : Option Options := do
  let level ← match Assoc.get? "level" fields with
    | none => some Severity.suggestion
    | some value => levelOfJson? value
  let strict ← match Assoc.get? "strict" fields with
    | none => some false
    | some value => flagOfJson? value
  let published ← match Assoc.get? "published_files" fields with
    | none => some none
    | some value => publishedOfJson? value
  pure { level, strict, published }

end PackageLint.Pass
