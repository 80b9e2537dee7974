import PackageLint.Check.Context
import PackageLint.Check.FileFormat

/-!
# Checks of the package as a whole

These checks look at what the manifest leaves out: a `files` field where tests would be published, a
`license` field beside a license file, a `type` field, an entry point; and at dependencies that only
exist on the author's disk.

## Main definitions

* `PackageChecks.filesField`, `PackageChecks.licenseField`, `PackageChecks.typeField`: fields to be added.
* `PackageChecks.localDependencies`: dependencies on local paths.
* `PackageChecks.implicitIndex`: the entry point of a package that names none.
-/

namespace PackageLint.PackageChecks

/-- The place of findings about the package as a whole. -/
def wholePackage : Location := ["name"]

/-! ### The `files` field -/

/-- Paths that should not be published as a rule. Directories end with a slash. -/
def internalPaths : List String :=
  ["test/", "tests/", "__tests__/", ".github/", ".circleci/", ".husky/", ".vscode/",
   ".prettierrc", "prettier.config.js", ".eslintrc", ".eslintrc.js", "eslint.config.js",
   "eslint.config.mjs", "eslint.config.cjs", ".editorconfig", ".babelrc", "babel.config.js",
   "tsconfig.json", ".travis.yml", ".gitlab-ci.yml", "jest.config.js", "vitest.config.js",
   "vitest.config.ts", "rollup.config.js"]

/-- Whether a path can lead to a published file, as far as its text tells. -/
def mayBePublished (ctx : Context) (path : String) : Bool :=
  match ctx.published with
  | none => true
  | some files => files.any fun file => Text.hasStart file path

/-- Whether one of some paths is there and would be published. -/
def somePublished (ctx : Context) : List String → Check Bool
  | [] => .done false
  | path :: rest => do
    let path := ctx.within path
    if mayBePublished ctx path then
      if ← Check.isThere path then pure true else somePublished ctx rest
    else somePublished ctx rest

/-- Suggests a `files` field when internal paths would be published. -/
def filesField (ctx : Context) : Plan :=
  if (Json.field ctx.manifest "files").isNull then
    .task <| .single "use-files" do
      if ← somePublished ctx internalPaths then
        Check.add { code := .useFiles, severity := .suggestion, location := wholePackage }
      else pure ()
  else {}

/-! ### The `license` field -/

/-- Whether a character is a capital letter up to case. The dotted capital and the dotless small `i`
and the long `s` are cases of their letters. -/
def isLetter (capital c : Char) : Bool :=
  Text.upperAscii c = capital
    || (capital = 'I' && (c = '\u0130' || c = '\u0131'))
    || (capital = 'S' && c = '\u017F')

/-- Whether a name starts with a word of capitals, up to case. -/
def startsWithWord : List Char → List Char → Bool
  | [], _ => true
  | _ :: _, [] => false
  | w :: word, c :: name => isLetter w c && startsWithWord word name

/-- Whether a name is that of a license file. -/
def isLicenseName (name : String) : Bool :=
  ["LICENSE", "LICENCE", "COPYING"].any fun word => startsWithWord word.toList name.toList

/-- The first license file among names in the package directory. -/
def firstLicense (ctx : Context) : List String → Check (Option String)
  | [] => .done none
  | name :: rest => do
    if ← Check.isDir (ctx.within name) then firstLicense ctx rest
    else if isLicenseName name then pure (some name)
    else firstLicense ctx rest

/-- Suggests a `license` field when there is a license file. -/
def licenseField (ctx : Context) : Plan :=
  if (Json.field ctx.manifest "license").isNull then
    .task <| .single "use-license" do
      let names ← Check.readDir ctx.pkgDir
      match (← firstLicense ctx names) with
      | some name =>
        Check.add
          { code := .useLicense, severity := .suggestion, location := wholePackage
            args := [("license_file_path", .str ("/" ++ name))] }
      | none => pure ()
  else {}

/-! ### The `type` field -/

/-- Suggests a `type` field. -/
def typeField (ctx : Context) : Plan :=
  if (Json.field ctx.manifest "type").isNull then
    .finding { code := .useType, severity := .suggestion, location := wholePackage }
  else {}

/-! ### Dependencies -/

/-- Whether a version is a local path. -/
def isLocalVersion : Json → Bool
  | .str version => Text.hasStart version "file:" || Text.hasStart version "link:"
  | _ => false

/-- Reports dependencies on local paths. -/
def localDependencies (ctx : Context) : Plan :=
  match Json.field ctx.manifest "dependencies" with
  | .obj fields =>
    { findings :=
        (fields.filter fun (_, version) => isLocalVersion version).map fun (name, _) =>
          { code := .localDependency, severity := .error, location := ["dependencies", name] } }
  | _ => {}

/-! ### The implicit entry point -/

/-- The entry point of a package that names none. -/
def indexName : String := "index.js"

/-- Compares the format of the implicit entry point with the one expected of it. -/
def checkIndex (ctx : Context) : Check Unit := do
  let path := ctx.within indexName
  if ← Check.isThere path then
    match (← Context.readQuietly path) with
    | none => pure ()
    | some content =>
      let actual := Source.classify content
      let expected ← Manifest.expectedFormat path
      if actual.mismatch expected then
        Check.add
          { code := .implicitIndexJsInvalidFormat, severity := .warning, location := wholePackage
            args := [("actual_format", .format actual), ("expect_format", .format expected)] }
      else pure ()
  else pure ()

/-- Checks the implicit entry point. -/
def implicitIndex (ctx : Context) : Plan := .task (.single "implicit-index" (checkIndex ctx))

end PackageLint.PackageChecks
