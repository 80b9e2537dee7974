import PackageLint.Check.Crawl
import PackageLint.Check.FileFormat
import PackageLint.Source.Markers
import PackageLint.Subpath.Expand

/-!
# Targets of a condition tree

The target of a leaf is a file, or a pattern that stands for several. Targets start with `./`; a target
that ends with a slash is a mapping of a whole folder, which is no longer served and is read as the
pattern that replaces it. Every file has to be there, and code has to have the format that its path
expects, unless only bundlers read it.

## Main definitions

* `EntryTree`: a condition tree with its field and place.
* `EntryTree.plan`: the findings of a crawl, and a task per leaf.
* `EntryTree.checkTarget`: checks a leaf.
-/

namespace PackageLint

/-- The condition tree of a field, with what its checks need to know. -/
structure EntryTree where
  /-- The field. -/
  field : EntryField
  /-- The tree. -/
  tree : ConditionTree
  /-- The place of the field. -/
  location : Location
  /-- The value of `browser`, which may put other files in place of targets. -/
  browser : Json := .null
  /-- The place of `browser`. -/
  browserLocation : Location := ["browser"]

namespace EntryTree

/-! ### Folder mappings -/

/-- The place where the pattern that replaces a folder mapping belongs. -/
def starredLocation (location : Location) : Location :=
  location.map fun key => if Text.hasEnd key "/" then key ++ "*" else key

/-- The finding about a folder mapping. Where the pattern is there too, the mapping is only kept for
compatibility. -/
def folderMapping (entry : EntryTree) (target : Crawl.Target) (starred : Json) : Diagnostic :=
  { code := .entry entry.field .globNoDeprecatedSubpathMapping
    severity := if starred.truthy then .suggestion else .error
    location := target.location
    args :=
      [("expect_path", .strs (starredLocation target.location)),
       ("expect_value", .str (target.value ++ "*"))] }

/-- Reports a folder mapping, and tells the value to go on with. -/
def starFolder (ctx : Context) (entry : EntryTree) (target : Crawl.Target) : Check String :=
  if Text.hasEnd target.value "/" then do
    let starred ← .ofExcept ((Json.obj ctx.manifest).follow (starredLocation target.location))
    Check.add (entry.folderMapping target starred)
    pure (target.value ++ "*")
  else pure target.value

/-! ### Files of a target -/

/-- The finding that a target does not start with `./`. -/
def badTarget (entry : EntryTree) (value : String) (location : Location) : Diagnostic :=
  { code := .entry entry.field .valueInvalid, severity := .error, location
    args :=
      [("suggest_value", .str ("./" ++ String.ofList (Text.stripLeading '/' value.toList)))] }

/-- The path that a target names. -/
def targetPath (ctx : Context) (value : String) : String :=
  if Path.looksRelative value then ctx.within value else value

/-- The key of the entry that a place belongs to. -/
def entryKey (entry : EntryTree) (location : Location) : Option String :=
  location[entry.location.length]?

/-- The search for the files of a pattern. -/
def search (ctx : Context) (entry : EntryTree) (value : String) (location : Location) :
    Subpath.Search :=
  { pattern := targetPath ctx value
    published := ctx.published
    key := entry.entryKey location
    tree := some entry.tree }

/-- The files of a target. -/
def targetFiles (ctx : Context) (entry : EntryTree) (value : String) (location : Location) :
    Check (List String) :=
  if Pattern.hasWildcard value then Subpath.expand ctx.depth (entry.search ctx value location)
  else pure [targetPath ctx value]

/-! ### Conflicts with `browser` -/

/-- The conditions under which bundlers apply the `browser` field as well. -/
def browserishConditions : List String :=
  ["browser", "electron", "react-native", "worker", "worklet"]

/-- Whether `browser` puts something in place of a target. -/
def isRemapped (entry : EntryTree) (value : String) : Bool :=
  match entry.browser with
  | .obj fields => entry.field = .exports && Assoc.hasKey value fields
  | _ => false

/-- The finding that `browser` puts something in place of a target that is for browsers already. -/
def browserConflict? (entry : EntryTree) (value : String) (location : Location) :
    Option Diagnostic :=
  if entry.isRemapped value then
    (browserishConditions.find? location.contains).map fun condition =>
      { code := .exportsValueConflictsWithBrowser, severity := .warning, location
        args :=
          [("browser_path", .strs (entry.browserLocation ++ [value])),
           ("browserish_condition", .str condition)] }
  else none

/-! ### Checking files -/

/-- Checks the text of a code file. `globbed` is the path to show when a pattern was matched, and
`value` that of a plain target. -/
def checkContent (entry : EntryTree) (path content value : String) (location : Location)
    (afterNode : Bool) (globbed : Option String) : Check Unit :=
  if !Source.isLintable content then pure ()
  else if location.contains "module" then
    if Source.classify content = .cjs then
      Check.add { code := .entry entry.field .moduleShouldBeEsm, severity := .error, location }
    else pure ()
  else if afterNode || location.contains "browser" then pure ()
  else do
    let _ ← FileFormat.check path content location
      { bundlerEsm := true, rightSibling := globbed.isSome } (some (globbed.getD value))
    pure ()

/-- Checks a code file. -/
def checkFile (ctx : Context) (entry : EntryTree) (path value : String) (location : Location)
    (afterNode : Bool) (globbed : Option String) : Check Unit := do
  match (← ctx.readEntry path location) with
  | none => pure ()
  | some content => entry.checkContent path content value location afterNode globbed

/-- Looks whether a file is there. -/
def checkPresence (ctx : Context) (path : String) (location : Location) : Check Unit := do
  let _ ← ctx.readEntry path location
  pure ()

/-- The checks of a target's files, after those with an extension that nothing understands have been
reported. A file that is no code only has to be there, and a typed source not even that. -/
def fileChecks (ctx : Context) (entry : EntryTree) (value : String) (target : Crawl.Target) :
    List String → Check (List (Check Unit))
  | [] => .done []
  | path :: rest => do
    let globbed :=
      if Pattern.hasWildcard value then some ("./" ++ ctx.relative path) else none
    if ← Context.rejectsJsx path target.location globbed then fileChecks ctx entry value target rest
    else
      let others ← fileChecks ctx entry value target rest
      if Source.isLintableName path then
        pure (entry.checkFile ctx path value target.location target.afterNode globbed :: others)
      else if Path.looksAbsolute path && !Source.isTypedSource path then
        pure (checkPresence ctx path target.location :: others)
      else pure others

/-- Checks a leaf, and leaves the checks of its files to be run. Targets of imports that are not
relative are packages. -/
def checkTarget (ctx : Context) (entry : EntryTree) (target : Crawl.Target) : Check Batch :=
  if entry.field = .imports && !Text.hasStart target.value "." then pure {}
  else do
    let location := target.location
    let value ← entry.starFolder ctx target
    if Text.hasStart value "./" then pure () else Check.add (entry.badTarget value location)
    let files ← entry.targetFiles ctx value location
    if Pattern.hasWildcard value && files.isEmpty then
      Check.add { code := .entry entry.field .globNoMatchedFiles, severity := .warning, location }
      pure {}
    else
      match entry.browserConflict? value location with
      | some d => Check.add d
      | none => pure ()
      let checks ← entry.fileChecks ctx value target files
      pure { name := "exports-files", checks }

/-! ### The plan -/

/-- The task of a leaf. -/
def task (ctx : Context) (entry : EntryTree) (target : Crawl.Target) : Task :=
  { label := target.location.label, check := entry.checkTarget ctx target }

/-- The plan for a condition tree: what the tree alone shows, and a task per leaf. -/
def plan (ctx : Context) (entry : EntryTree) : Plan :=
  { findings := Crawl.findings entry.field entry.location entry.tree
    tasks := (Crawl.targets entry.field entry.location entry.tree).map (entry.task ctx) }

end EntryTree

end PackageLint
