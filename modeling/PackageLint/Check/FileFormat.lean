import PackageLint.Check.Context
import PackageLint.Manifest.Nearest
import PackageLint.Source.ModuleSyntax

/-!
# The format of a file

A file whose text shows one module format while its path expects the other is reported. Two
relaxations apply to files that are not meant for the runtime or that come in both formats.

## Main definitions

* `FileFormat.Leniency`: the relaxations.
* `FileFormat.check`: compares the format of a text with the one its path expects.
-/

namespace PackageLint.FileFormat

/-- When a mismatch is not reported. -/
structure Leniency where
  /-- ESM is accepted where the path speaks of browsers or bundlers, which read any format. -/
  bundlerEsm : Bool := false
  /-- A mismatch is accepted when the same file with the right extension is there too. -/
  rightSibling : Bool := false

/-- The code of a mismatch: it tells whether the extension states a format. -/
def mismatchCode (extension : String) : Code :=
  if Source.statesFormat extension then .fileInvalidExplicitFormat else .fileInvalidFormat

/-- Whether a path speaks of browsers or bundlers. -/
def forBundlers (path : String) : Bool := Text.hasPart path "browser" || Text.hasPart path "bundler"

/-- The finding of a mismatch. `shown` is the path to show, when it is not that of the place. -/
def mismatch (path : String) (location : Location) (actual expected : Format)
    (shown : Option String) : Diagnostic :=
  let extension := Path.extension path
  { code := mismatchCode extension, severity := .warning, location
    args :=
      [("actual_format", .format actual), ("expect_format", .format expected),
       ("actual_extension", .str extension), ("expect_extension", .str actual.codeExtension)]
      ++ (match shown with
          | some shown => [("actual_file_path", .str shown)]
          | none => []) }

/-- The path with its extension exchanged for the one that states a format. -/
def sibling (path : String) (format : Format) : String :=
  Text.replaceLast path (Path.extension path) format.codeExtension

/-- Compares the format of a file's text with the one that its path expects. The result is the format
of the text. -/
def check (path content : String) (location : Location) (leniency : Leniency := {})
    (shown : Option String := none) : Check Format := do
  let actual := Source.classify content
  let expected ← Manifest.expectedFormat path
  if !actual.mismatch expected then pure actual
  else if leniency.bundlerEsm && actual = .esm && forBundlers path then pure actual
  else
    let excused ← if leniency.rightSibling then Check.isThere (sibling path actual) else pure false
    if excused then pure actual
    else
      Check.add (mismatch path location actual expected shown)
      pure actual

end PackageLint.FileFormat
