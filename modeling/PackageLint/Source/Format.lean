/-!
# Module formats

Source text is written in one of two module formats, looks like both, or shows neither. Only a
format that is certain can contradict the one that a path expects.

## Main definitions

* `Format`: the formats.
* `Format.mismatch`: whether a format contradicts an expected one.
* `Format.codeExtension`, `Format.declarationExtension`: the extension that states a format.
-/

namespace PackageLint

/-- The module format of a unit of source text. -/
inductive Format where
  | esm
  | cjs
  /-- Both kinds of module syntax occur. -/
  | mixed
  /-- No module syntax occurs. -/
  | unknown
  deriving DecidableEq, Repr, Inhabited

namespace Format

/-- All formats. -/
def all : List Format := [.esm, .cjs, .mixed, .unknown]

/-- The name of a format. -/
def name : Format → String
  | .esm => "ESM"
  | .cjs => "CJS"
  | .mixed => "mixed"
  | .unknown => "unknown"

/-- The format of a name. -/
def ofName? (name : String) : Option Format := all.find? fun f => f.name = name

/-- Whether the format is certain. -/
def isCertain : Format → Bool
  | .esm | .cjs => true
  | .mixed | .unknown => false

/-- Whether an actual format contradicts the expected one. -/
def mismatch (actual expected : Format) : Bool := actual.isCertain && actual ≠ expected

/-- The extension that states the format of a code file. -/
def codeExtension : Format → String
  | .esm => ".mjs"
  | .cjs => ".cjs"
  | .mixed | .unknown => ".js"

/-- The last extension of a declaration file that states its format. -/
def declarationExtension : Format → String
  | .esm => ".mts"
  | .cjs => ".cts"
  | .mixed | .unknown => ".ts"

end Format

end PackageLint
