import PackageLint.Check.FileFormat
import PackageLint.Source.Markers
import PackageLint.Subpath.Expand

/-!
# The scan of all files

Without `exports` every published file of a package can be imported, so all code files are checked.
Files that another field has led to already are left out, and so are installed packages.

## Main definitions

* `AllFiles.plan`: the scan.
* `AllFiles.checkFile`: the check of one file.
-/

namespace PackageLint.AllFiles

/-- Directories that hold no files of the package. -/
def skippedNames : List String := ["node_modules", ".git"]

/-- The search for all files of the package. -/
def search (ctx : Context) : Subpath.Search :=
  { pattern := ctx.within "./*", published := ctx.published, skipped := skippedNames }

/-- Checks a code file. -/
def checkFile (path shown : String) : Check Unit := do
  match (← Context.readQuietly path) with
  | none => pure ()
  | some content =>
    if Source.isLintable content then
      let _ ← FileFormat.check path content ["name"]
        { bundlerEsm := true, rightSibling := true } (some shown)
      pure ()
    else pure ()

/-- The checks of files, after those with an extension that nothing understands have been reported. -/
def fileChecks (ctx : Context) (checked : List String) : List String → Check (List (Check Unit))
  | [] => .done []
  | path :: rest =>
    if checked.contains path then fileChecks ctx checked rest
    else do
      let shown := "/" ++ ctx.relative path
      if ← Context.rejectsJsx path ["name"] (some shown) then fileChecks ctx checked rest
      else
        let others ← fileChecks ctx checked rest
        if Source.isLintableName path then pure (checkFile path shown :: others)
        else pure others

/-- Looks for all files, and leaves their checks to be run. -/
def scan (ctx : Context) (checked : List String) : Check Batch := do
  let files ← Subpath.expand ctx.depth (search ctx)
  let checks ← fileChecks ctx checked files
  pure { name := "all-files", checks }

/-- The plan of the scan. `checked` lists the files that another field has led to. -/
def plan (ctx : Context) (checked : List String) : Plan :=
  .task { label := "all-files", check := scan ctx checked }

end PackageLint.AllFiles
