import PackageLint.Proofs.ListedFiles
import PackageLint.Proofs.ResolvedTargets
import PackageLint.Proofs.Views

/-!
# Lists of all files

A pass can be given the files that will be published. Given all files of a tree it reports what it
reports without a list, failures included and in the same order: the list is asked about paths that are
put below the package, for which it tells what is there.

Targets that are read as they stand are the exception. A target that starts with a slash is not put below
the package and need not be in normal form, and a file that it names by a roundabout way is there without
being in the list. Targets of `imports` cannot do so, for only those that start with a dot are looked up.

## Main definitions

* `Context.listing` — the same pass with a list of published files
* `Context.IsCovered` — a list has all files of a tree, and the package lies below a root of it

## Main results

* `Context.IsCovered.run_readEntry` — reading what a manifest names
* `Context.IsCovered.view_checkTarget` — the task of a target
* `Context.IsCovered.view_plan` — the whole plan
* `Pass.run_listing` — whole passes
-/

namespace PackageLint

open PackageLint.Path (IsInner)

/-! ### Targets that start with a slash -/

namespace EntryTree

theorem hasStart_starred {value : String} (h : Text.hasStart value "/" = false) :
    Text.hasStart (starred value) "/" = false := by
  rw [starred]
  split
  next hslash =>
    cases hchars : value.toList with
    | nil => simp [Text.hasEnd, hchars] at hslash
    | cons c rest => simpa [Text.hasStart, hchars, List.isPrefixOf] using h
  next => exact h

/-- A target of `imports` that is looked up starts with a dot. -/
theorem hasStart_of_lookedUp {entry : EntryTree} {value : String}
    (hexports : entry.field = .exports → Text.hasStart value "/" = false)
    (hlooked : ¬ (entry.field = .imports && !Text.hasStart value ".") = true) :
    Text.hasStart value "/" = false := by
  cases hfield : entry.field with
  | exports => exact hexports hfield
  | imports =>
    have hdot : Text.hasStart value "." = true := by simpa [hfield] using hlooked
    obtain ⟨rest, hrest⟩ := List.isPrefixOf_iff_prefix.mp hdot
    rw [Text.hasStart, ← hrest]
    rfl

end EntryTree

/-! ### What a list of all files is asked -/

namespace Context

/-- The same pass with a list of published files. -/
def listing (ctx : Context) (files : List String) : Context := { ctx with published := some files }

/-- A list has all files of a tree, and the package lies below a root of it. -/
structure IsCovered (tree : MemoryTree) (ctx : Context) (files : List String) : Prop where
  reachable : tree.Reachable
  unlisted : ctx.published = none
  isRooted : Path.isRooted ctx.pkgDir = true
  mem_files : ∀ path, Assoc.hasKey path tree.files = true → path ∈ files

namespace IsCovered

variable {tree : MemoryTree} {ctx : Context} {files : List String} (h : IsCovered tree ctx files)

include h

theorem isInner_within (value : String) : IsInner (ctx.within value) :=
  Path.isInner_join h.isRooted value

/-- What can be read within the package is in the list. -/
theorem mem_of_isInner {path : String} (hpath : IsInner path)
    (hread : tree.toFileTree.Readable path) : path ∈ files :=
  h.mem_files _ (MemoryTree.hasKey_of_readable hpath hread)

/-- An entry is read alike when those of its candidates that can be read are in the list. -/
theorem run_readEntry {path : String} {extensions : List String}
    (hpath : ∀ candidate ∈ candidates path extensions,
      tree.toFileTree.Readable candidate → candidate ∈ files) (location : Location) :
    ((ctx.listing files).readEntry path location extensions).run tree.toFileTree
      = (ctx.readEntry path location extensions).run tree.toFileTree := by
  rw [Context.run_readEntry tree.takesAnyPath, Context.run_readEntry tree.takesAnyPath]
  cases hfound : tree.toFileTree.firstText? (candidates path extensions) with
  | none => rfl
  | some found =>
    obtain ⟨file, text⟩ := found
    obtain ⟨hmem, htext⟩ := FileTree.firstText?_eq_some hfound
    have hlisted : (ctx.listing files).isPublished file = true :=
      List.contains_iff_mem.mpr (hpath file hmem ⟨text, htext⟩)
    have hunlisted : ctx.isPublished file = true := by
      rw [isPublished, h.unlisted]
    simp only [readFindings, hlisted, hunlisted]

/-- An entry that legacy resolution may complete. -/
theorem run_readEntry_within (value : String) (location : Location) :
    ((ctx.listing files).readEntry (ctx.within value) location legacyExtensions).run
        tree.toFileTree
      = (ctx.readEntry (ctx.within value) location legacyExtensions).run tree.toFileTree :=
  h.run_readEntry (fun candidate hmem =>
    h.mem_of_isInner ((h.isInner_within value).candidates candidate hmem)) location

/-! ### The package as a whole -/

/-- An internal path that is there has a file of the list that starts with it. -/
theorem mayBePublished {path : String} (hpath : path ∈ PackageChecks.internalPaths)
    (hthere : tree.isThere (ctx.within path) = true) :
    PackageChecks.mayBePublished (ctx.listing files) (ctx.within path) = true := by
  have hall : ∀ path ∈ PackageChecks.internalPaths,
      Path.Descends path ∧ Path.namesOf path ≠ [] := by decide
  obtain ⟨hdescends, hnames⟩ := hall path hpath
  obtain ⟨d, hd⟩ := Path.exists_join_eq_at h.isRooted hdescends
  rw [within, hd] at hthere ⊢
  obtain ⟨file, hfile, hstart⟩ := h.reachable.exists_hasStart hnames hthere
  exact List.any_eq_true.mpr ⟨file, h.mem_files file hfile, hstart⟩

omit h in
/-- Looking for internal paths comes down to the first that is there, when the list does not pass over
any that is. -/
theorem run_somePublished_cons {tree : FileTree} {ctx : Context} {path : String}
    {rest : List String}
    (hlist : tree.isThere (ctx.within path) = true →
      PackageChecks.mayBePublished ctx (ctx.within path) = true) :
    (PackageChecks.somePublished ctx (path :: rest)).run tree
      = if tree.isThere (ctx.within path) then ⟨[], .ok true⟩
        else (PackageChecks.somePublished ctx rest).run tree := by
  simp only [PackageChecks.somePublished, Check.bind_eq]
  cases hthere : tree.isThere (ctx.within path) with
  | true => simp [hlist hthere, hthere]
  | false =>
    split
    · simp [hthere]
    · rfl

theorem run_somePublished {paths : List String} (hpaths : paths ⊆ PackageChecks.internalPaths) :
    (PackageChecks.somePublished (ctx.listing files) paths).run tree.toFileTree
      = (PackageChecks.somePublished ctx paths).run tree.toFileTree := by
  induction paths with
  | nil => rfl
  | cons path rest ih =>
    obtain ⟨hpath, hrest⟩ := List.cons_subset.mp hpaths
    have hunlisted : PackageChecks.mayBePublished ctx (ctx.within path) = true := by
      rw [PackageChecks.mayBePublished, h.unlisted]
    rw [run_somePublished_cons fun _ => hunlisted,
      run_somePublished_cons fun hthere => h.mayBePublished hpath hthere, ih hrest]
    rfl

theorem view_filesField :
    (PackageChecks.filesField (ctx.listing files)).view tree.toFileTree
      = (PackageChecks.filesField ctx).view tree.toFileTree :=
  Plan.view_ite
    (fun _ => Plan.view_single
      (Check.run_bind_congr (h.run_somePublished fun _ => id) fun _ => rfl) _)
    fun _ => rfl

omit h in
theorem view_licenseField :
    (PackageChecks.licenseField (ctx.listing files)).view tree.toFileTree
      = (PackageChecks.licenseField ctx).view tree.toFileTree := by
  have hfirst : ∀ names, PackageChecks.firstLicense (ctx.listing files) names
      = PackageChecks.firstLicense ctx names := by
    intro names
    induction names with
    | nil => rfl
    | cons name rest ih =>
      simp only [PackageChecks.firstLicense, ih]
      rfl
  refine Plan.view_ite (fun _ => Plan.view_single ?_ _) fun _ => rfl
  simp only [hfirst]
  rfl

/-! ### Fields that name files -/

theorem run_readLegacy (value : Json) (location : Location) :
    (EntryChecks.readLegacy (ctx.listing files) value location).run tree.toFileTree
      = (EntryChecks.readLegacy ctx value location).run tree.toFileTree := by
  cases value with
  | str path => exact Check.run_bind_congr (h.run_readEntry_within path location) fun _ => rfl
  | _ => rfl

theorem view_mainField (value : Json) (location : Location) (hasExports : Bool) :
    (EntryChecks.mainField (ctx.listing files) value location hasExports).view tree.toFileTree
      = (EntryChecks.mainField ctx value location hasExports).view tree.toFileTree :=
  Plan.view_single (Check.run_bind_congr (h.run_readLegacy value location) fun _ => rfl) _

theorem view_moduleField (value : Json) (location : Location) (hasExports : Bool) :
    (EntryChecks.moduleField (ctx.listing files) value location hasExports).view tree.toFileTree
      = (EntryChecks.moduleField ctx value location hasExports).view tree.toFileTree :=
  Plan.view_single (Check.run_bind_congr (h.run_readLegacy value location) fun _ => rfl) _

theorem view_knownField (field : String) :
    (EntryChecks.knownField (ctx.listing files) field).view tree.toFileTree
      = (EntryChecks.knownField ctx field).view tree.toFileTree := by
  have hmanifest : (ctx.listing files).manifest = ctx.manifest := rfl
  rw [EntryChecks.knownField, EntryChecks.knownField, hmanifest]
  obtain ⟨value, location⟩ := ctx.manifest.published field
  cases value with
  | str value =>
    exact Plan.view_single
      (Check.run_bind_congr (h.run_readEntry_within value location) fun _ => rfl) _
  | _ => rfl

theorem view_knownFields :
    (EntryChecks.knownFields (ctx.listing files)).view tree.toFileTree
      = (EntryChecks.knownFields ctx).view tree.toFileTree := by
  refine Plan.view_concat ?_
  rw [List.map_map, List.map_map]
  exact List.map_congr_left fun field _ => h.view_knownField field

theorem view_browserField (value : Json) (location : Location) (hasExports : Bool) :
    (EntryChecks.browserField (ctx.listing files) value location hasExports).view tree.toFileTree
      = (EntryChecks.browserField ctx value location hasExports).view tree.toFileTree := by
  refine congrArg (Prod.mk _) ?_
  simp only [EntryChecks.browserField, List.map_map]
  refine List.map_congr_left fun entry _ => ?_
  exact Task.view_single
    (Check.run_bind_congr (h.run_readEntry_within entry.1 entry.2) fun _ => rfl) _

theorem view_command (value : String) (location : Location) :
    (EntryChecks.command (ctx.listing files) value location).view tree.toFileTree
      = (EntryChecks.command ctx value location).view tree.toFileTree :=
  Plan.view_single (Check.run_bind_congr (h.run_readEntry_within value location) fun _ => rfl) _

theorem view_binField (value : Json) (location : Location) :
    (EntryChecks.binField (ctx.listing files) value location).view tree.toFileTree
      = (EntryChecks.binField ctx value location).view tree.toFileTree := by
  cases value with
  | str path => exact h.view_command path location
  | obj fields =>
    refine Plan.view_concat ?_
    rw [List.map_map, List.map_map]
    refine List.map_congr_left fun field _ => ?_
    obtain ⟨name, value⟩ := field
    cases value with
    | str path => exact h.view_command path (location ++ [name])
    | _ => rfl
  | _ => rfl

/-! ### Targets -/

/-- A target that does not start with a slash names a path within the package, or none from a root. -/
theorem mem_of_targetPath {value : String} (hvalue : Text.hasStart value "/" = false)
    (hread : tree.toFileTree.Readable (EntryTree.targetPath ctx value)) :
    EntryTree.targetPath ctx value ∈ files := by
  rw [EntryTree.targetPath] at hread ⊢
  split at hread
  next hrelative =>
    rw [if_pos hrelative]
    exact h.mem_of_isInner (h.isInner_within value) hread
  next =>
    have hrooted := h.reachable.sound.isRooted_of_readable hread
    rw [Path.isRooted, hvalue] at hrooted
    exact absurd hrooted (by simp)

/-- The files of a target are in the list, as far as they can be read. -/
theorem mem_of_mem_files {entry : EntryTree} {value : String} {location : Location}
    (hvalue : Text.hasStart value "/" = false) {path : String}
    (hpath : path ∈ entry.files tree.toFileTree ctx value location)
    (hread : tree.toFileTree.Readable path) : path ∈ files := by
  rw [EntryTree.files] at hpath
  split at hpath
  · exact h.mem_of_isInner (h.reachable.sound.isInner_of_mem_expanded hpath) hread
  · obtain rfl := List.mem_singleton.mp hpath
    exact h.mem_of_targetPath hvalue hread

/-- A search that is led by the list finds what a search without a list finds. -/
theorem run_targetFiles (entry : EntryTree) (value : String) (location : Location) :
    (entry.targetFiles (ctx.listing files) value location).run tree.toFileTree
      = (entry.targetFiles ctx value location).run tree.toFileTree := by
  have hsearch := h.reachable.expanded_listing h.mem_files ctx.depth
    (entry.search ctx value location)
  have hfiles : entry.files tree.toFileTree (ctx.listing files) value location
      = entry.files tree.toFileTree ctx value location := by
    rw [EntryTree.files, EntryTree.files]
    split
    · rw [EntryTree.search] at hsearch ⊢
      rw [EntryTree.search, h.unlisted]
      exact hsearch
    · rfl
  rw [EntryTree.run_targetFiles tree.listsDirs, EntryTree.run_targetFiles tree.listsDirs, hfiles]

/-- The check of one file of a target. -/
theorem run_fileCheck (entry : EntryTree) (value : String) (target : Crawl.Target) {path : String}
    (hpath : tree.toFileTree.Readable path → path ∈ files) :
    (entry.fileCheck? (ctx.listing files) value target path).map (Check.run tree.toFileTree)
      = (entry.fileCheck? ctx value target path).map (Check.run tree.toFileTree) := by
  have hread : ∀ location, ((ctx.listing files).readEntry path location).run tree.toFileTree
      = (ctx.readEntry path location).run tree.toFileTree := by
    refine h.run_readEntry fun candidate hcandidate => ?_
    obtain rfl := List.mem_singleton.mp hcandidate
    exact hpath
  rw [EntryTree.fileCheck?, EntryTree.fileCheck?]
  split
  · rfl
  · split
    · exact congrArg some (Check.run_bind_congr (hread target.location) fun _ => rfl)
    · split
      · exact congrArg some (Check.run_bind_congr (hread target.location) fun _ => rfl)
      · rfl

/-- What is done with the files of a target, when those that can be read are in the list. -/
theorem view_finish (entry : EntryTree) (target : Crawl.Target) (value : String)
    {paths : List String}
    (hpaths : ∀ path ∈ paths, tree.toFileTree.Readable path → path ∈ files) :
    (entry.finish (ctx.listing files) target value paths).view tree.toFileTree
        (Batch.view tree.toFileTree)
      = (entry.finish ctx target value paths).view tree.toFileTree
          (Batch.view tree.toFileTree) := by
  rw [EntryTree.finish, EntryTree.finish]
  split
  · rfl
  · refine Check.view_bind rfl fun _ _ => ?_
    have hrun := EntryTree.run_fileChecks tree.toFileTree ctx entry value target paths
    have hrun' := EntryTree.run_fileChecks tree.toFileTree (ctx.listing files) entry value target paths
    have hchecks : (paths.filterMap (entry.fileCheck? (ctx.listing files) value target)).map
          (Check.run tree.toFileTree)
        = (paths.filterMap (entry.fileCheck? ctx value target)).map (Check.run tree.toFileTree) := by
      rw [List.map_filterMap, List.map_filterMap]
      exact List.filterMap_congr fun path hmem => h.run_fileCheck entry value target (hpaths path hmem)
    simp only [Check.view, Check.findings, Check.result, Check.run_bind_of_ok hrun,
      Check.run_bind_of_ok hrun', Check.run_done, Except.map, Batch.view, hchecks]
    rfl

/-- The check of a target that does not start with a slash, or that is not looked up. -/
theorem view_checkTarget {entry : EntryTree} {target : Crawl.Target}
    (htarget : entry.field = .exports → Text.hasStart target.value "/" = false) :
    (entry.task (ctx.listing files) target).view tree.toFileTree
      = (entry.task ctx target).view tree.toFileTree := by
  refine congrArg (Prod.mk _) ?_
  simp only [EntryTree.task]
  rw [EntryTree.checkTarget_eq, EntryTree.checkTarget_eq]
  split
  · rfl
  next hlooked =>
    have hstart := EntryTree.hasStart_starred (EntryTree.hasStart_of_lookedUp htarget hlooked)
    refine Check.view_bind rfl fun value hvalue => Check.view_bind rfl fun _ _ => ?_
    obtain rfl := EntryTree.starred_of_result hvalue
    refine Check.view_bind (h.run_targetFiles entry _ _) fun paths hpaths => ?_
    rw [Check.result, h.run_targetFiles, EntryTree.run_targetFiles tree.listsDirs] at hpaths
    obtain rfl := Except.ok.inj hpaths
    exact h.view_finish entry target _ fun path hmem => h.mem_of_mem_files hstart hmem

/-! ### The rest of the plan -/

omit h in
/-- The check of declarations asks no list. -/
theorem check_declarations (root : Declarations.Root) :
    Declarations.check (ctx.listing files) root = Declarations.check ctx root := by
  have hrequests : ∀ shipped seen requests,
      Declarations.checkRequests (ctx.listing files) root shipped seen requests
        = Declarations.checkRequests ctx root shipped seen requests := by
    intro shipped seen requests
    induction requests generalizing seen with
    | nil => rfl
    | cons request rest ih =>
      simp only [Declarations.checkRequests, ih]
      rfl
  simp only [Declarations.check, hrequests]
  rfl

/-- The scan of all files. -/
theorem view_allFiles (checked : List String) :
    (AllFiles.plan (ctx.listing files) checked).view tree.toFileTree
      = (AllFiles.plan ctx checked).view tree.toFileTree := by
  have hchecks : ∀ paths, AllFiles.fileChecks (ctx.listing files) checked paths
      = AllFiles.fileChecks ctx checked paths := by
    intro paths
    induction paths with
    | nil => rfl
    | cons path rest ih =>
      simp only [AllFiles.fileChecks, ih]
      rfl
  have hsearch := h.reachable.expanded_listing h.mem_files ctx.depth (AllFiles.search ctx)
  have hexpand : (Subpath.expand ctx.depth (AllFiles.search (ctx.listing files))).run
        tree.toFileTree
      = (Subpath.expand ctx.depth (AllFiles.search ctx)).run tree.toFileTree := by
    rw [Subpath.run_expand tree.listsDirs, Subpath.run_expand tree.listsDirs]
    rw [AllFiles.search] at hsearch ⊢
    rw [AllFiles.search, h.unlisted]
    exact congrArg (fun paths => Outcome.mk [] (.ok paths)) hsearch
  have hscan : (AllFiles.scan (ctx.listing files) checked).run tree.toFileTree
      = (AllFiles.scan ctx checked).run tree.toFileTree := by
    simp only [AllFiles.scan, Check.bind_eq, hchecks]
    exact Check.run_bind_congr hexpand fun _ => rfl
  exact congrArg (fun outcome => ([], [(_, outcome)])) (Check.view_of_run_eq hscan)

theorem view_legacyPlan (fields : Pass.Fields) :
    (Pass.legacyPlan (ctx.listing files) fields).view tree.toFileTree
      = (Pass.legacyPlan ctx fields).view tree.toFileTree := by
  refine Plan.view_append (Plan.view_append (Plan.view_append rfl ?_) ?_) rfl
  · exact Plan.view_ite (fun _ => rfl) fun _ => h.view_mainField _ _ _
  · exact Plan.view_ite (fun _ => rfl) fun _ => h.view_moduleField _ _ _

theorem view_entryPlan {entry : EntryTree}
    (htargets : ∀ target ∈ Crawl.targets entry.field entry.location entry.tree,
      entry.field = .exports → Text.hasStart target.value "/" = false) :
    (entry.plan (ctx.listing files)).view tree.toFileTree
      = (entry.plan ctx).view tree.toFileTree := by
  refine congrArg (Prod.mk _) ?_
  simp only [EntryTree.plan, List.map_map]
  exact List.map_congr_left fun target htarget => h.view_checkTarget (htargets target htarget)

theorem view_exportsPlan (hd : (Json.obj ctx.manifest).DistinctKeys)
    (haims : ∀ p v, ctx.manifest.Aims .exports p v → Text.hasStart v "/" = false) :
    (Pass.exportsPlan (ctx.listing files) (Pass.Fields.of ctx.manifest)).view tree.toFileTree
      = (Pass.exportsPlan ctx (Pass.Fields.of ctx.manifest)).view tree.toFileTree := by
  refine Plan.view_ite (fun hset => Plan.view_append ?_ ?_) fun _ => h.view_allFiles _
  · refine h.view_entryPlan fun target htarget _ => ?_
    obtain ⟨place, -, hat, -⟩ := (Crawl.mem_targets (ConditionTree.distinctKeys_ofJson
      (Manifest.distinctKeys_published hd "exports"))).mp htarget
    exact haims _ _ (.exports hset hat)
  · rw [Declarations.plan, Declarations.plan]
    split
    · rw [check_declarations]
    · rfl

theorem view_importsPlan :
    (Pass.importsPlan (ctx.listing files) (Pass.Fields.of ctx.manifest)).view tree.toFileTree
      = (Pass.importsPlan ctx (Pass.Fields.of ctx.manifest)).view tree.toFileTree := by
  refine Plan.view_ite (fun _ => ?_) fun _ => rfl
  split
  · exact h.view_entryPlan fun _ _ hfield => absurd hfield (by simp [Pass.importsEntry])
  · rfl

/-- The plans with and without the list look the same. -/
theorem view_plan (hd : (Json.obj ctx.manifest).DistinctKeys)
    (haims : ∀ p v, ctx.manifest.Aims .exports p v → Text.hasStart v "/" = false) :
    (Pass.plan (ctx.listing files)).view tree.toFileTree
      = (Pass.plan ctx).view tree.toFileTree := by
  refine Plan.view_concat ?_
  have hmanifest : (ctx.listing files).manifest = ctx.manifest := rfl
  have hbrowser : ∀ value location hasExports c, (if c = true then
        EntryChecks.browserField (ctx.listing files) value location hasExports else {}).view
          tree.toFileTree
      = (if c = true then EntryChecks.browserField ctx value location hasExports else {}).view
          tree.toFileTree :=
    fun _ _ _ _ => Plan.view_ite (fun _ => h.view_browserField _ _ _) fun _ => rfl
  have hbin : ∀ value location c, (if c = true then
        EntryChecks.binField (ctx.listing files) value location else {}).view tree.toFileTree
      = (if c = true then EntryChecks.binField ctx value location else {}).view tree.toFileTree :=
    fun _ _ _ => Plan.view_ite (fun _ => h.view_binField _ _) fun _ => rfl
  simp only [hmanifest, List.map_cons, List.map_nil, h.view_filesField, view_licenseField,
    h.view_legacyPlan, h.view_knownFields, h.view_exportsPlan hd haims, h.view_importsPlan,
    hbrowser, hbin]
  rfl

end IsCovered

end Context

/-! ### Whole passes -/

namespace Pass

/-- A pass that is given a list with all files of the tree, and maybe with others, comes to what a pass
without a list comes to. -/
theorem run_listing {tree : MemoryTree} (h : tree.Reachable) {files : List String}
    (hfiles : ∀ path, Assoc.hasKey path tree.files = true → path ∈ files) {pkgDir : String}
    (haims : ∀ manifest, (Manifest.load pkgDir).result tree.toFileTree = .ok (.ok manifest) →
      ∀ p v, manifest.Aims .exports p v → Text.hasStart v "/" = false)
    (level : Severity) (strict : Bool) (workDir : String) :
    run tree.toFileTree pkgDir { level, strict, published := some files } workDir
      = run tree.toFileTree pkgDir { level, strict } workDir := by
  cases hload : (Manifest.load pkgDir).result tree.toFileTree with
  | error e => simp only [run, hload, loaded, Except.map]
  | ok loadedManifest =>
    cases loadedManifest with
    | error e => simp only [run, hload, loaded, Except.map]
    | ok manifest =>
      let ctx := contextOf tree.toFileTree.depth workDir pkgDir manifest { level, strict }
      have hcovered : ctx.IsCovered tree files :=
        { reachable := h, unlisted := rfl, isRooted := h.sound.isRooted_of_load hload
          mem_files := hfiles }
      have hreport : runPlan tree.toFileTree (plan (ctx.listing files))
          = runPlan tree.toFileTree (plan ctx) :=
        runPlan_congr (hcovered.view_plan (Manifest.distinctKeys_load hload) (haims manifest hload))
      have hlisting : contextOf tree.toFileTree.depth workDir pkgDir manifest
          { level, strict, published := some files } = ctx.listing files := rfl
      have hresult : ∀ report, resultOf { level, strict, published := some files } manifest report
          = resultOf { level, strict } manifest report := fun _ => rfl
      rw [run_of_load hload, run_of_load hload, hlisting, hreport, hresult]

/-- Publishing everything is as good as no list: with the list of all its files, the pass over a tree
comes to the same as without, in the same order, at every level, as long as no target of `exports`
starts with a slash. -/
theorem full_list_neutral {entries : List (String × String)} {tree : MemoryTree}
    (htree : MemoryTree.ofFiles entries = .ok tree) {pkgDir : String}
    (haims : ∀ manifest, (Manifest.load pkgDir).result tree.toFileTree = .ok (.ok manifest) →
      ∀ p v, manifest.Aims .exports p v → Text.hasStart v "/" = false)
    (level : Severity) (strict : Bool) (workDir : String) :
    run tree.toFileTree pkgDir { level, strict, published := some (Assoc.keys tree.files) } workDir
      = run tree.toFileTree pkgDir { level, strict } workDir :=
  run_listing (MemoryTree.reachable_ofFiles htree)
    (fun _ hpath => Assoc.hasKey_iff_mem.mp hpath) haims level strict workDir

/-- A package with a test that nothing keeps from being published, with a list that has the test. -/
theorem listed_test_neutral :
    ∃ tree, MemoryTree.ofFiles
        [("/p/package.json", "\x7b\"exports\":\"./a.js\"\x7d"), ("/p/a.js", ""), ("/p/test/t.js", "")]
          = .ok tree
      ∧ run tree.toFileTree "/p"
            { published := some ["/p/package.json", "/p/a.js", "/p/test/t.js"] } "/"
          = run tree.toFileTree "/p" {} "/" := by
  let entries :=
    [("/p/package.json", "\x7b\"exports\":\"./a.js\"\x7d"), ("/p/a.js", ""), ("/p/test/t.js", "")]
  let tree : MemoryTree :=
    { files := entries
      dirs := [("/", ["p"]), ("/p", ["package.json", "a.js", "test"]), ("/p/test", ["t.js"])] }
  have htree : MemoryTree.ofFiles entries = .ok tree := by cbv
  have hload : (Manifest.load "/p").result tree.toFileTree
      = .ok (.ok [("exports", .str "./a.js")]) := by
    cbv
  refine ⟨tree, htree, full_list_neutral htree ?_ .suggestion false "/"⟩
  intro manifest hmanifest p v hv
  rw [hload] at hmanifest
  obtain rfl := Except.ok.inj (Except.ok.inj hmanifest)
  cases hv with
  | @exports q _ _ hat =>
    have hleaf : (ConditionTree.leaf "./a.js").at? q = some (.leaf v) := hat
    cases q with
    | nil =>
      obtain rfl := ConditionTree.leaf.inj (Option.some.inj hleaf)
      decide
    | cons key rest => simp [ConditionTree.at?] at hleaf

end Pass

end PackageLint
