import PackageLint.Check.Context
import PackageLint.Check.FileFormat
import PackageLint.Source.Markers

/-!
# Checks of the legacy entry fields

`main` and `module` name an entry point that legacy resolution may complete with an extension. Other
fields name files that have to be there: declarations, builds for a content network, commands, and
the files that `browser` puts in place of others.

## Main definitions

* `EntryChecks.mainField`, `EntryChecks.moduleField`: the two entry points.
* `EntryChecks.knownFields`: fields that name files.
* `EntryChecks.browserField`, `EntryChecks.binField`: the maps of files and of commands.
* `EntryChecks.legacyCandidates`: the files that an entry point may resolve to.
-/

namespace PackageLint.EntryChecks

/-- The files that an entry point may resolve to, in the order of resolution. -/
def legacyCandidates (ctx : Context) : Json → List String
  | .str value =>
    let path := ctx.within value
    path :: Context.legacyExtensions.map fun extension =>
      if Text.hasStart extension "/" then Path.join path extension else path ++ extension
  | _ => []

/-! ### `main` and `module` -/

/-- The text of an entry point whose format can be judged, with the value that names it. -/
def readLegacy (ctx : Context) (value : Json) (location : Location) :
    Check (Option (String × String)) :=
  match value with
  | .str path => do
    match (← ctx.readEntry (ctx.within path) location Context.legacyExtensions) with
    | none => pure none
    | some content =>
      if ← Context.rejectsJsx path location then pure none
      else if Source.isLintableName path then pure (some (path, content))
      else pure none
  | other => do
    Check.add (Context.wrongType other ["string"] location)
    pure none

/-- Checks `main`. An ESM package should have `exports` instead. -/
def checkMain (ctx : Context) (value : Json) (location : Location) (hasExports : Bool) :
    Check Unit := do
  match (← readLegacy ctx value location) with
  | none => pure ()
  | some (path, content) =>
    let actual ← FileFormat.check (ctx.within path) content location
    if actual = .esm && !hasExports then
      Check.add { code := .hasEsmMainButNoExports, severity := .suggestion, location }
    else pure ()

/-- The plan for `main`. -/
def mainField (ctx : Context) (value : Json) (location : Location) (hasExports : Bool) : Plan :=
  .task (.single "main" (checkMain ctx value location hasExports))

/-- Checks `module`, which only bundlers read and which has to be ESM. -/
def checkModule (ctx : Context) (value : Json) (location : Location) (hasExports : Bool) :
    Check Unit := do
  match (← readLegacy ctx value location) with
  | none => pure ()
  | some (_, content) =>
    if Source.classify content = .cjs then
      Check.add { code := .moduleShouldBeEsm, severity := .error, location }
    else pure ()
    if hasExports then pure ()
    else Check.add { code := .hasModuleButNoExports, severity := .suggestion, location }

/-- The plan for `module`. -/
def moduleField (ctx : Context) (value : Json) (location : Location) (hasExports : Bool) : Plan :=
  .task (.single "module" (checkModule ctx value location hasExports))

/-! ### Fields that name files -/

/-- The fields that name files. -/
def fileFields : List String :=
  ["types", "typings", "jsnext:main", "jsnext", "unpkg", "jsdelivr"]

/-- The fields that name declarations, which `typesVersions` redirects. -/
def declarationFields : List String := ["types", "typings"]

/-- The fields that are no longer in use. -/
def retiredFields : List String := ["jsnext:main", "jsnext"]

/-- Whether a published field is given and not empty. -/
def isGiven (ctx : Context) (field : String) : Bool := (ctx.manifest.published field).1.truthy

/-- Checks a field that names a file. A retired one is excused where `module` is given too. -/
def checkKnownField (ctx : Context) (field value : String) (location : Location) : Check Unit := do
  match (← ctx.readEntry (ctx.within value) location Context.legacyExtensions) with
  | none => pure ()
  | some _ =>
    if retiredFields.contains field then
      Check.add
        { code := .deprecatedFieldJsnext
          severity := if isGiven ctx "module" then .suggestion else .warning
          location }
    else pure ()

/-- The plan for one field that names a file. -/
def knownField (ctx : Context) (field : String) : Plan :=
  match ctx.manifest.published field with
  | (.null, _) => {}
  | (.str value, location) => .task (.single field (checkKnownField ctx field value location))
  | (other, location) => .finding (Context.wrongType other ["string"] location)

/-- The plan for all fields that name files. -/
def knownFields (ctx : Context) : Plan :=
  let fields :=
    if isGiven ctx "typesVersions" then
      fileFields.filter fun field => !declarationFields.contains field
    else fileFields
  .concat (fields.map (knownField ctx))

/-! ### `browser` -/

mutual

/-- The strings in nested objects, with their places. -/
def nestedStrings (location : Location) : Json → List (String × Location)
  | .str value => [(value, location)]
  | .obj fields => nestedStringsOf location fields
  | _ => []

/-- The strings in nested objects among fields, with their places. -/
def nestedStringsOf (location : Location) : List (String × Json) → List (String × Location)
  | [] => []
  | (key, value) :: rest =>
    nestedStrings (location ++ [key]) value ++ nestedStringsOf location rest

end

/-- The task that looks for a file that `browser` names. -/
def browserTask (ctx : Context) (entry : String × Location) : Task :=
  .single entry.2.label do
    let _ ← ctx.readEntry (ctx.within entry.1) entry.2 Context.legacyExtensions
    pure ()

/-- The suggestion to use conditions in place of `browser`. -/
def preferConditions (browser : Json) (location : Location) : Diagnostic :=
  { code := match browser with
      | .str _ => .useExportsBrowser
      | _ => .useExportsOrImportsBrowser
    severity := .suggestion
    location }

/-- The plan for `browser`: its files have to be there, and beside `exports` conditions are
preferred. -/
def browserField (ctx : Context) (value : Json) (location : Location) (hasExports : Bool) : Plan :=
  { tasks := (nestedStrings location value).map (browserTask ctx)
    findings := if hasExports then [preferConditions value location] else [] }

/-! ### `bin` -/

/-- Checks the file of a command: it has to start as one, in the format expected of it. -/
def checkCommand (ctx : Context) (value : String) (location : Location) : Check Unit := do
  let path := ctx.within value
  match (← ctx.readEntry path location Context.legacyExtensions) with
  | none => pure ()
  | some content =>
    if Source.isLintableName value then
      if Source.hasShebang content then pure ()
      else Check.add { code := .binFileNotExecutable, severity := .error, location }
      let _ ← FileFormat.check path content location
      pure ()
    else pure ()

/-- The plan for one command. -/
def command (ctx : Context) (value : String) (location : Location) : Plan :=
  .task (.single location.label (checkCommand ctx value location))

/-- The plan for `bin`, a command or an object of commands. -/
def binField (ctx : Context) (value : Json) (location : Location) : Plan :=
  match value with
  | .str path => command ctx path location
  | .obj fields =>
    .concat <| fields.map fun (name, value) =>
      match value with
      | .str path => command ctx path (location ++ [name])
      | other => .finding (Context.wrongType other ["string"] (location ++ [name]))
  | _ => {}

end PackageLint.EntryChecks
