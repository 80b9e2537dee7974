import PackageLint.Check.Basic
import PackageLint.Manifest.Basic
import PackageLint.Path.Basic

/-!
# Loading the manifest of a package

A pass needs the manifest of the package. It cannot go on when there is none, or when it is no JSON
object.

## Main definitions

* `Manifest.LoadError`: why there is no manifest.
* `Manifest.ofFile`: the manifest in a file's text.
* `Manifest.load`: the manifest of a package.
-/

namespace PackageLint.Manifest

/-- Why there is no manifest. -/
inductive LoadError where
  /-- The package directory has no readable manifest. -/
  | notFound (pkgDir : String)
  /-- The manifest is no JSON value. -/
  | malformed (path text : String) (error : Json.ParseError)
  /-- The manifest is a JSON value, but no object. -/
  | notObject (path : String)
  /-- The manifest holds an integer that is too long to be read. -/
  | tooManyDigits (digits : Nat)
  deriving Repr

/-- The wording of an error. -/
def LoadError.message : LoadError → String
  | .notFound pkgDir =>
    "Unable to find package.json at " ++ pkgDir ++ ". If a published files list is given, "
      ++ "make sure the package directory is set to the root directory of those files."
  | .malformed path text error => "Invalid package.json at " ++ path ++ ": " ++ error.message text
  | .notObject path => "Invalid package.json at " ++ path ++ ": root value must be an object"
  | .tooManyDigits digits => (Json.ParseError.tooManyDigits digits).message ""

/-- The path of a package's manifest. -/
def pathIn (pkgDir : String) : String := Path.join pkgDir manifestName

/-- The manifest in the text of a file at a path. -/
def ofFile (path text : String) : Except LoadError Manifest :=
  match Json.parse text with
  | .ok (.obj fields) => .ok fields
  | .ok _ => .error (.notObject path)
  | .error (.tooManyDigits digits) => .error (.tooManyDigits digits)
  | .error e => .error (.malformed path text e)

/-- The manifest of a package. -/
def load (pkgDir : String) : Check (Except LoadError Manifest) := do
  match (← Check.readFile (pathIn pkgDir)) with
  | .ok text => pure (ofFile (pathIn pkgDir) text)
  | .error _ => pure (.error (.notFound pkgDir))

end PackageLint.Manifest
