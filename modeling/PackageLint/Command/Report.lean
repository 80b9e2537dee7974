import PackageLint.Diagnostic.Message
import PackageLint.Pass.Run
import PackageLint.Terminal.Markup
import PackageLint.Terminal.Table

/-!
# Reports of a pass

The findings of a pass are shown in their order, as data or as a table under the name of the package.

## Main definitions

* `Report.json`: the findings as data.
* `Report.table`: the findings as a table.
-/

namespace PackageLint.Report

/-- A finding as data. -/
def findingJson (d : Diagnostic) : Json :=
  .obj
    [("code", .str d.code.name),
     ("severity", .str d.severity.name),
     ("path", .arr (d.location.map .str)),
     ("args", d.args.toJson),
     ("message", .str d.message)]

/-- The findings as data. -/
def json (findings : List Diagnostic) : String :=
  (Json.arr ((Diagnostic.sort findings).map findingJson)).write Json.pageForm ++ "\n"

/-- The name under which a package is shown: that of its manifest, or that of its directory. -/
def packageName (manifest : Manifest) (pkgDir : String) : String :=
  let name := Json.field manifest "name"
  if name.truthy then (Arg.ofJson name).shown else Path.baseName pkgDir

/-- The row of a finding. -/
def row (verbose : Bool) (d : Diagnostic) : List String :=
  [d.severity.name, d.code.name, Markup.shown (Location.text d.location), Markup.shown d.message]
    ++ (if verbose then [Markup.shown d.args.text] else [])

/-- The line with the numbers of findings. -/
def countLine (findings : List Diagnostic) : String :=
  let count (severity : Severity) : String := toString (Diagnostic.count severity findings)
  count .error ++ " errors, " ++ count .warning ++ " warnings, " ++ count .suggestion
    ++ " suggestions"

/-- The findings as a table. -/
def table (verbose : Bool) (name : String) (findings : List Diagnostic) : String :=
  if findings.isEmpty then
    Wrap.printed (Markup.plain ("✓ " ++ Markup.escape name ++ ": all good")) ++ "\n"
  else
    let shown : Table :=
      { title := Markup.plain ("Lint results for " ++ Markup.escape name)
        headings := ["Severity", "Code", "Path", "Message"] ++ (if verbose then ["Args"] else [])
        rows := (Diagnostic.sort findings).map (row verbose) }
    Text.join "\n" (shown.lines ++ [countLine findings]) ++ "\n"

end PackageLint.Report
