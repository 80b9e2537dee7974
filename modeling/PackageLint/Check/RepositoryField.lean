import PackageLint.Check.Context
import PackageLint.Repository

/-!
# The `repository` field

A string has to be a shorthand. An object of type `git` has to hold a git address, in the complete
form that the registry gives it and over a protocol that is still served.

## Main definitions

* `RepositoryField.findings`: the findings about the field.
-/

namespace PackageLint.RepositoryField

/-- A finding about the value at a place. -/
def invalid (severity : Severity) (location : Location) (args : Args) : Diagnostic :=
  { code := .invalidRepositoryValue, severity, location, args }

/-- The findings about a shorthand. -/
def ofShorthand (value : String) : List Diagnostic :=
  if Repository.isShorthand value then []
  else [invalid .warning ["repository"] [("type", .str "invalid-string-shorthand")]]

/-- The findings about a git address. -/
def ofAddress (url : String) : List Diagnostic :=
  let location := ["repository", "url"]
  if !Repository.isGitAddress url then
    [invalid .warning location [("type", .str "invalid-git-url")]]
  else if Repository.isRetiredGithubAddress url then
    [invalid .suggestion location [("type", .str "deprecated-github-git-protocol")]]
  else if Repository.isIncompleteSiteAddress url then
    [invalid .suggestion location
      [("type", .str "shorthand-git-sites"), ("suggest_value", .str (Repository.complete url))]]
  else []

/-- Whether a value is the type of a git repository. -/
def isGit : Json → Bool
  | .str s => s = "git"
  | _ => false

/-- The findings about the field of a manifest. -/
def findings (manifest : Manifest) : List Diagnostic :=
  match Assoc.get? "repository" manifest with
  | none => []
  | some (.str value) => ofShorthand value
  | some (.obj fields) =>
    match Json.field fields "url" with
    | .str url => if url = "" || !isGit (Json.field fields "type") then [] else ofAddress url
    | _ => []
  | some other => [Context.wrongType other ["string", "object"] ["repository"]]

end PackageLint.RepositoryField
