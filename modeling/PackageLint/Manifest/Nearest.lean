import PackageLint.Check.Basic
import PackageLint.Manifest.Basic
import PackageLint.Path.Basic
import PackageLint.Source.FileName

/-!
# The format that a path expects

A path states its format by its ending, or leaves it to the manifest of the nearest directory above it
that has a readable one. A manifest that is no JSON object is passed over.

## Main definitions

* `Manifest.nearest`: the manifest in charge of a path.
* `Manifest.expectedFormat`: the format that a code file must have to be loaded.
* `Manifest.expectedDeclarationFormat`: the format that a declaration file is taken to have.
-/

namespace PackageLint.Manifest

/-- The manifest in the first of some directories that has a readable one. -/
def firstIn : List String → Check (Option Manifest)
  | [] => .done none
  | dir :: rest => do
    let path := Path.join dir manifestName
    if ← Check.isThere path then
      match (← Check.readFile path) with
      | .ok text =>
        match ofText? text with
        | some manifest => .done (some manifest)
        | none => firstIn rest
      | .error _ => firstIn rest
    else firstIn rest

/-- The manifest in charge of a path. -/
def nearest (path : String) : Check (Option Manifest) := firstIn (Path.ancestors path)

/-- Whether a manifest declares its files to be ESM. -/
def declaresEsm (manifest : Manifest) : Bool :=
  match Json.field manifest "type" with
  | .str s => s = "module"
  | _ => false

/-- The format that a manifest, or the lack of one, gives to the files below it. -/
def formatOf : Option Manifest → Format
  | some manifest => if manifest.declaresEsm then .esm else .cjs
  | none => .cjs

/-- The format that the nearest manifest gives to a path. -/
def inheritedFormat (path : String) : Check Format := do
  let manifest ← nearest path
  pure (formatOf manifest)

/-- The ending of a platform file, whose format is stated by what comes before it. -/
def platformEnding : String := ".native.js"

/-- The format that a code file must have to be loaded. -/
def expectedFormat (path : String) : Check Format :=
  let path := Text.dropEnd path platformEnding
  if Text.hasEnd path ".mjs" then .done .esm
  else if Text.hasEnd path ".cjs" then .done .cjs
  else inheritedFormat path

/-- The format that a declaration file is taken to have. -/
def expectedDeclarationFormat (path : String) : Check Format :=
  if Text.hasEnd path ".d.mts" then .done .esm
  else if Text.hasEnd path ".d.cts" then .done .cjs
  else inheritedFormat path

end PackageLint.Manifest
