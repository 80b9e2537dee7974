import PackageLint.Check.Basic
import PackageLint.Manifest.Basic
import PackageLint.Path.Basic
import PackageLint.Source.FileName

/-!
# What checks share

All checks of a pass see the same package: its directory, its manifest, and the list of files that
will be published, when that is known. This module holds the steps that several checks take.

## Main definitions

* `Context`: what all checks of a pass see.
* `Context.readEntry`: reads a file that the manifest refers to.
* `Context.wrongType`: the finding about a value of a wrong type.
* `Context.rejectsJsx`: reports an extension that nothing understands.
-/

namespace PackageLint

/-- What all checks of a pass see. -/
structure Context where
  /-- The root directory of the package. -/
  pkgDir : String
  /-- The manifest of the package. -/
  manifest : Manifest
  /-- The absolute paths of the files that will be published, when they are known. -/
  published : Option (List String) := none
  /-- The directory that relative paths start from. -/
  workDir : String := "/"
  /-- A bound on the length of a chain of nested directories. -/
  depth : Nat

namespace Context

/-- A path below the package directory. -/
def within (ctx : Context) (path : String) : String := Path.join ctx.pkgDir path

/-- The way from the package directory to a path. -/
def relative (ctx : Context) (path : String) : String :=
  (Path.relative? ctx.workDir ctx.pkgDir path).getD "."

/-- Whether a file will be published, as far as is known. -/
def isPublished (ctx : Context) (path : String) : Bool :=
  match ctx.published with
  | none => true
  | some files => files.contains path

/-! ### Reading files -/

/-- The extensions that legacy resolution tries on a path that is not there. -/
def legacyExtensions : List String := [".js", "/index.js"]

/-- A path with an extension. One that starts with a slash does not double a slash that is there. -/
def extend (path extension : String) : String :=
  if Text.hasStart extension "/" && Text.hasEnd path "/" then
    path ++ String.ofList (extension.toList.drop 1)
  else path ++ extension

/-- The paths to try for an entry, in order. -/
def candidates (path : String) (extensions : List String) : List String :=
  path :: extensions.map (extend path)

/-- The text of a file, when it can be read. Nothing is reported; a text that is no path makes the check
fail. -/
def readQuietly (path : String) : Check (Option String) := do
  match (← Check.readFile path) with
  | .ok content => pure (some content)
  | .error (.notPath path) => .fail (.unreadable (.notPath path))
  | .error _ => pure none

/-- The first of some paths that can be read, with its text. -/
def firstReadable : List String → Check (Option (String × String))
  | [] => .done none
  | path :: rest => do
    match (← readQuietly path) with
    | some content => pure (some (path, content))
    | none => firstReadable rest

/-- The text of a file that the manifest refers to at a place. A missing or unpublished file is
reported there. -/
def readEntry (ctx : Context) (path : String) (location : Location)
    (extensions : List String := []) : Check (Option String) := do
  match (← firstReadable (candidates path extensions)) with
  | some (found, content) =>
    if ctx.isPublished found then pure (some content)
    else
      Check.add { code := .fileNotPublished, severity := .error, location }
      pure (some content)
  | none =>
    Check.add { code := .fileDoesNotExist, severity := .error, location }
    pure none

/-! ### Common findings -/

/-- The finding that a value has none of the types it should have. -/
def wrongType (value : Json) (types : List String) (location : Location) : Diagnostic :=
  { code := .fieldInvalidValueType, severity := .error, location
    args := [("actual_type", .str value.typeName), ("expect_types", .strs types)] }

/-- The extensions that nothing understands. -/
def jsxExtensions : List String := [".mjsx", ".cjsx"]

/-- The extension of a path that nothing understands, when it has one. -/
def jsxExtension? (path : String) : Option String := jsxExtensions.find? (Text.hasEnd path)

/-- Reports a path whose extension nothing understands, and tells whether it is one. `globbed` is the
file that was matched, when the place holds a pattern. -/
def rejectsJsx (path : String) (location : Location) (globbed : Option String := none) :
    Check Bool :=
  match jsxExtension? path with
  | none => pure false
  | some extension => do
    Check.add
      { code := .fileInvalidJsxExtension, severity := .error, location
        args :=
          [("actual_extension", .str extension),
           ("globbed_file_path", (globbed.map Arg.str).getD .null)] }
    pure true

end Context

/-- Runs a check on every item in turn. -/
def Check.forEach {α : Type} (f : α → Check Unit) : List α → Check Unit
  | [] => .done ()
  | a :: rest => do
    f a
    forEach f rest

/-! ### Tasks -/

/-- Further checks that a task leaves to be run, under the name of their group. -/
structure Batch where
  /-- The name of the group. -/
  name : String := "files"
  /-- The checks. -/
  checks : List (Check Unit) := []

/-- A check of a pass, with the label under which its failure is logged. -/
structure Task where
  /-- The label. -/
  label : String
  /-- The check. It may leave further ones. -/
  check : Check Batch

/-- A task that leaves no further checks. -/
def Task.single (label : String) (check : Check Unit) : Task :=
  { label, check := check.bind fun _ => .done {} }

/-- The label of the task about a place. -/
def Location.label (location : Location) : String := Text.join "." location

/-- What a field of the manifest asks for: findings that the manifest alone shows, and tasks that look
at files. -/
structure Plan where
  /-- The findings. -/
  findings : List Diagnostic := []
  /-- The tasks, in the order in which they are scheduled. -/
  tasks : List Task := []

namespace Plan

instance : Append Plan where
  append a b := { findings := a.findings ++ b.findings, tasks := a.tasks ++ b.tasks }

/-- The plan with a single finding. -/
def finding (d : Diagnostic) : Plan := { findings := [d] }

/-- The plan with a single task. -/
def task (t : Task) : Plan := { tasks := [t] }

/-- The plans in turn. -/
def concat : List Plan → Plan
  | [] => {}
  | plan :: rest => plan ++ concat rest

end Plan

end PackageLint
