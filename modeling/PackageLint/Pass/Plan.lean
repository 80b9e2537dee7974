import PackageLint.Check.AllFiles
import PackageLint.Check.Declarations
import PackageLint.Check.Entry
import PackageLint.Check.Package
import PackageLint.Check.RepositoryField
import PackageLint.Check.Target

/-!
# The plan of a pass

The plan of a pass depends on the manifest alone: it holds the findings that the manifest shows by
itself, and the tasks that look at files. Which checks apply depends on which fields are given.

## Main definitions

* `Pass.Fields`: the fields that a plan is made from.
* `Pass.plan`: the plan for a manifest.
-/

namespace PackageLint.Pass

/-- The fields that a plan is made from, each with its place. -/
structure Fields where
  main : Json × Location
  module : Json × Location
  exports : Json × Location
  browser : Json × Location
  bin : Json × Location
  imports : Json × Location

/-- The fields of a manifest. -/
def Fields.of (manifest : Manifest) : Fields :=
  { main := manifest.published "main"
    module := manifest.published "module"
    exports := manifest.published "exports"
    browser := manifest.published "browser"
    bin := manifest.published "bin"
    imports := manifest.published "imports" }

/-- Whether `exports` counts as set. -/
def Fields.hasExports (fields : Fields) : Bool := fields.exports.1.isSet

/-- Whether neither `main` nor `module` nor `exports` is given. -/
def Fields.areImplicit (fields : Fields) : Bool :=
  fields.main.1.isNull && fields.module.1.isNull && fields.exports.1.isNull

/-- The finding that `exports` maps subpaths but has no root entry, while other fields have one. -/
def missingRoot (fields : Fields) : Plan :=
  match ConditionTree.ofJson fields.exports.1 with
  | .map entries =>
    match entries with
    | [] => {}
    | (first, _) :: _ =>
      if Text.hasStart first "." && !Assoc.hasKey "." entries then
        .finding
          { code := .exportsMissingRootEntrypoint, severity := .warning
            location := fields.exports.2
            args :=
              [("main_fields",
                .strs ((if fields.main.1.truthy then ["main"] else [])
                  ++ (if fields.module.1.truthy then ["module"] else [])))] }
      else {}
  | _ => {}

/-- The plan for the entry points of legacy resolution. -/
def legacyPlan (ctx : Context) (fields : Fields) : Plan :=
  (if fields.areImplicit then PackageChecks.implicitIndex ctx else {})
  ++ (if fields.main.1.isNull then {}
      else EntryChecks.mainField ctx fields.main.1 fields.main.2 fields.hasExports)
  ++ (if fields.module.1.isNull then {}
      else EntryChecks.moduleField ctx fields.module.1 fields.module.2 fields.hasExports)
  ++ (if fields.exports.1.isNull || (fields.main.1.isNull && fields.module.1.isNull) then {}
      else missingRoot fields)

/-- The exports tree with its place. -/
def exportsEntry (fields : Fields) : EntryTree :=
  { field := .exports, tree := ConditionTree.ofJson fields.exports.1
    location := fields.exports.2, browser := fields.browser.1
    browserLocation := fields.browser.2 }

/-- The files that another field leads to, which the scan of all files leaves out. -/
def checkedPaths (ctx : Context) (fields : Fields) : List String :=
  (if fields.areImplicit then [ctx.within PackageChecks.indexName] else [])
  ++ EntryChecks.legacyCandidates ctx fields.main.1
  ++ EntryChecks.legacyCandidates ctx fields.module.1

/-- The plan for `exports`, or for all files where it is not set. -/
def exportsPlan (ctx : Context) (fields : Fields) : Plan :=
  if fields.hasExports then
    (exportsEntry fields).plan ctx
      ++ Declarations.plan ctx (ConditionTree.ofJson fields.exports.1) fields.exports.2
  else AllFiles.plan ctx (checkedPaths ctx fields)

/-- The imports tree with its place. -/
def importsEntry (fields : Fields) : EntryTree :=
  { field := .imports, tree := ConditionTree.ofJson fields.imports.1
    location := fields.imports.2 }

/-- The plan for `imports`, which has to be an object. -/
def importsPlan (ctx : Context) (fields : Fields) : Plan :=
  if fields.imports.1.isSet then
    match fields.imports.1 with
    | .obj _ => (importsEntry fields).plan ctx
    | other => .finding (Context.wrongType other ["object"] fields.imports.2)
  else {}

/-- The plan for a manifest. -/
def plan (ctx : Context) : Plan :=
  let fields := Fields.of ctx.manifest
  .concat
    [PackageChecks.filesField ctx,
     PackageChecks.licenseField ctx,
     PackageChecks.localDependencies ctx,
     PackageChecks.typeField ctx,
     legacyPlan ctx fields,
     { findings := RepositoryField.findings ctx.manifest },
     EntryChecks.knownFields ctx,
     if fields.browser.1.isSet then
       EntryChecks.browserField ctx fields.browser.1 fields.browser.2 fields.hasExports
     else {},
     exportsPlan ctx fields,
     if fields.bin.1.isSet then EntryChecks.binField ctx fields.bin.1 fields.bin.2 else {},
     importsPlan ctx fields]

end PackageLint.Pass
