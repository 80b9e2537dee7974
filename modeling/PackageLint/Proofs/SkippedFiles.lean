import PackageLint.Proofs.FileRoutes

/-!
# Files that the scan leaves out

The scan of all files leaves out what another field has led to: the implicit entry point, and every file
that `main` or `module` may resolve to. Which of them has then been compared with the format that its
own path expects depends on the value. A value that is itself the path of code is compared when it is
read as it stands. One that leaves the extension to legacy resolution is not compared at all, and neither
is what `module` leads to, which only may not be CJS.

## Main definitions

* `Pass.legacyAbout` — what is found about a file by way of the legacy entry points
* `Pass.LeftOut` — what is said of a file that the scan leaves out

## Main results

* `Pass.skipped_file_compared` — what is said of such a file, route by route
* `Pass.completed_main_not_compared` — a file that legacy resolution leads to is left out uncompared
-/

namespace PackageLint.Pass

open PackageLint.MemoryTree

variable {tree : MemoryTree} {ctx : Context} {file text : String}

/-- What is found about a file by way of the legacy entry points. -/
def legacyAbout (tree : FileTree) (ctx : Context) (file : String) : List Diagnostic :=
  (legacyPlan ctx (Fields.of ctx.manifest)).tasks.flatMap fun task => task.about tree file

/-- It is among the findings of a pass. -/
theorem legacyAbout_sublist (tree : FileTree) (ctx : Context) (file : String) :
    (legacyAbout tree ctx file).Sublist (runPlan tree (plan ctx)).findings := by
  refine List.Sublist.trans ?_ (about_sublist tree ctx file)
  rw [about, tasks_plan, legacyAbout]
  simp only [List.flatMap_append]
  exact (List.sublist_append_left _ _).trans
    ((List.sublist_append_right _ _).trans (List.sublist_append_right _ _))

/-- The routes by which a path comes to be left out of the scan. -/
theorem mem_checkedPaths {path : String} :
    path ∈ checkedPaths ctx (Fields.of ctx.manifest)
      ↔ ((Fields.of ctx.manifest).areImplicit = true ∧ path = ctx.within PackageChecks.indexName)
        ∨ (∃ v p, ctx.manifest.published "main" = (.str v, p)
          ∧ path ∈ EntryChecks.legacyCandidates ctx (.str v))
        ∨ ∃ v p, ctx.manifest.published "module" = (.str v, p)
          ∧ path ∈ EntryChecks.legacyCandidates ctx (.str v) := by
  have hcandidates : ∀ published : Json × Location,
      path ∈ EntryChecks.legacyCandidates ctx published.1
        ↔ ∃ v p, published = (.str v, p) ∧ path ∈ EntryChecks.legacyCandidates ctx (.str v) := by
    rintro ⟨value, p⟩
    cases value with
    | str v => simp
    | _ => simp [EntryChecks.legacyCandidates]
  rw [checkedPaths, List.mem_append, List.mem_append, List.mem_ite_nil_right, List.mem_singleton,
    or_assoc]
  exact or_congr_right (or_congr (hcandidates _) (hcandidates _))

/-- What the scan leaves out are paths within directories. -/
theorem isInner_of_mem_checkedPaths (hroot : Path.isRooted ctx.pkgDir = true)
    (h : file ∈ checkedPaths ctx (Fields.of ctx.manifest)) : Path.IsInner file := by
  rcases mem_checkedPaths.mp h with ⟨-, rfl⟩ | ⟨v, p, -, hmem⟩ | ⟨v, p, -, hmem⟩
  · exact Path.isInner_join hroot _
  · exact Context.isInner_candidates hroot v file (Context.legacyCandidates_eq hroot v ▸ hmem)
  · exact Context.isInner_candidates hroot v file (Context.legacyCandidates_eq hroot v ▸ hmem)

/-- What can be read of them has the path that it is read by. -/
theorem normalize_of_mem_checkedPaths (h : tree.Sound) (hroot : Path.isRooted ctx.pkgDir = true)
    (hfile : file ∈ checkedPaths ctx (Fields.of ctx.manifest))
    (hread : tree.toFileTree.contents file = .ok text) : Path.normalize file = file :=
  h.normalize_of_hasKey
    (hasKey_of_readable (isInner_of_mem_checkedPaths hroot hfile) ⟨text, hread⟩)

/-- The scan says nothing of what it leaves out. -/
theorem scanSays_of_mem_checkedPaths (h : tree.Sound)
    (hfile : file ∈ checkedPaths ctx (Fields.of ctx.manifest)) :
    scanSays tree.toFileTree ctx file = [] := by
  refine List.flatMap_eq_nil_iff.mpr fun path hpath => ?_
  obtain ⟨hlisted, hlooks⟩ := List.mem_filter.mp hpath
  refine h.saidOf_other hlisted fun heq => ?_
  simp [AllFiles.looksAt, heq, hfile] at hlooks

/-! ### Comparisons of one file -/

theorem mainSays_of_implicit (himplicit : (Fields.of ctx.manifest).areImplicit = true) :
    mainSays tree.toFileTree ctx file = [] := by
  have hnull : (ctx.manifest.published "main").1.isNull = true := by
    simp only [Fields.areImplicit, Fields.of, Bool.and_eq_true] at himplicit
    exact himplicit.1.1
  rw [mainSays]
  split
  next v p hmain => simp [hmain, Json.isNull] at hnull
  next => rfl

/-- Without an entry point, only the implicit one is compared. -/
theorem judging_of_implicit (himplicit : (Fields.of ctx.manifest).areImplicit = true) :
    ofCodes judgingCodes (legacyAbout tree.toFileTree ctx file)
      = indexSays tree.toFileTree ctx file := by
  rw [legacyAbout, judging_legacyPlan tree.takesAnyPath (tree.indexThere ctx),
    mainSays_of_implicit himplicit, List.append_nil]

/-- With `main`, only what it leads to is compared. -/
theorem judging_of_main {v : String} {p : Location}
    (hmain : ctx.manifest.published "main" = (.str v, p)) :
    ofCodes judgingCodes (legacyAbout tree.toFileTree ctx file)
      = tree.toFileTree.saidOf file (Context.candidates (ctx.within v) Context.legacyExtensions)
          (EntryChecks.textFindings tree.toFileTree ctx v p) := by
  have himplicit : (Fields.of ctx.manifest).areImplicit = false := by
    simp [Fields.areImplicit, Fields.of, hmain, Json.isNull]
  rw [legacyAbout, judging_legacyPlan tree.takesAnyPath (tree.indexThere ctx), indexSays,
    himplicit, mainSays, hmain]
  rfl

/-- What is said of a file to be ESM comes from `module`. -/
theorem esm_of_module {v : String} {p : Location}
    (hmodule : ctx.manifest.published "module" = (.str v, p)) :
    ofCodes [.moduleShouldBeEsm] (legacyAbout tree.toFileTree ctx file)
      = tree.toFileTree.saidOf file (Context.candidates (ctx.within v) Context.legacyExtensions)
          (EntryChecks.moduleFindings v p) := by
  have hnone : ∀ {ds : List Diagnostic}, (∀ d ∈ ds, d.JudgesFormat) →
      ofCodes [.moduleShouldBeEsm] ds = [] := fun hjudges =>
    ofCodes_eq_nil fun d hd hcode => by
      have hother : ∀ code ∈ judgingCodes, code ∉ [Code.moduleShouldBeEsm] := by decide
      exact hother _ (hjudges d hd) hcode
  have hself : ofCodes [.moduleShouldBeEsm] (moduleSays tree.toFileTree ctx file)
      = moduleSays tree.toFileTree ctx file :=
    ofCodes_eq_self fun d hd => List.mem_singleton.mpr (code_of_mem_moduleSays d hd)
  rw [legacyAbout, ← ofCodes_ofCodes (by decide : [Code.moduleShouldBeEsm] ⊆ textualCodes),
    textual_legacyPlan tree.takesAnyPath (tree.indexThere ctx), ofCodes_append, ofCodes_append,
    hnone indexSays_judges, hnone mainSays_judges, hself, moduleSays, hmodule]
  rfl

theorem entryFindings_eq {v : String} {p : Location} (hname : Source.isLintableName v = true) :
    EntryChecks.textFindings tree.toFileTree ctx v p text
      = if (Source.classify text).mismatch (tree.toFileTree.expectedFormat (ctx.within v)) then
          [FileFormat.mismatch (ctx.within v) p (Source.classify text)
            (tree.toFileTree.expectedFormat (ctx.within v)) none]
        else [] := by
  simp [EntryChecks.textFindings, hname, FileFormat.findings, FileFormat.isExcused]

/-! ### Results -/

/-- What is said of a file that the scan leaves out. -/
structure LeftOut (tree : FileTree) (ctx : Context) (file text : String) : Prop where
  /-- The scan says nothing of it. -/
  unscanned : (Fields.of ctx.manifest).hasExports = false →
    ofCodes textualCodes ((exportsPlan ctx (Fields.of ctx.manifest)).tasks.flatMap fun task =>
      task.about tree file) = []
  /-- It is the implicit entry point, or `main` or `module` may resolve to it. -/
  route : ((Fields.of ctx.manifest).areImplicit = true ∧ file = ctx.within PackageChecks.indexName)
    ∨ (∃ v p, ctx.manifest.published "main" = (.str v, p)
      ∧ file ∈ EntryChecks.legacyCandidates ctx (.str v))
    ∨ ∃ v p, ctx.manifest.published "module" = (.str v, p)
      ∧ file ∈ EntryChecks.legacyCandidates ctx (.str v)
  /-- The implicit entry point is compared with the format that its path expects. -/
  index : (Fields.of ctx.manifest).areImplicit = true →
    file = ctx.within PackageChecks.indexName →
      ofCodes judgingCodes (legacyAbout tree ctx file)
        = if (Source.classify text).mismatch (tree.expectedFormat file) then
            [PackageChecks.wrongIndex (Source.classify text) (tree.expectedFormat file)]
          else []
  /-- So is a file that `main` names as it stands. -/
  main : ∀ v p, ctx.manifest.published "main" = (.str v, p) → Source.isLintableName v = true →
    file = ctx.within v →
      ofCodes judgingCodes (legacyAbout tree ctx file)
        = if (Source.classify text).mismatch (tree.expectedFormat file) then
            [FileFormat.mismatch file p (Source.classify text) (tree.expectedFormat file) none]
          else []
  /-- Nothing is compared where `main` leaves out the extension. -/
  completedMain : ∀ v p, ctx.manifest.published "main" = (.str v, p) →
    Source.isLintableName v = false → ofCodes judgingCodes (legacyAbout tree ctx file) = []
  /-- What `module` resolves to must not be CJS. -/
  module : ∀ v p, ctx.manifest.published "module" = (.str v, p) → Source.isLintableName v = true →
    tree.Resolves (ctx.within v) file text →
      ofCodes [.moduleShouldBeEsm] (legacyAbout tree ctx file)
        = if Source.classify text = .cjs then [EntryChecks.wrongModule p] else []
  /-- That is not looked at where `module` leaves out the extension. -/
  completedModule : ∀ v p, ctx.manifest.published "module" = (.str v, p) →
    Source.isLintableName v = false →
      ofCodes [.moduleShouldBeEsm] (legacyAbout tree ctx file) = []

/-- What is left out of the scan is treated so, when it can be read. -/
theorem leftOut_of_mem_checkedPaths (h : tree.Sound) (hroot : Path.isRooted ctx.pkgDir = true)
    (hfile : file ∈ checkedPaths ctx (Fields.of ctx.manifest))
    (hread : tree.toFileTree.contents file = .ok text) : LeftOut tree.toFileTree ctx file text := by
  have hnormal := normalize_of_mem_checkedPaths h hroot hfile hread
  have hself : ∀ rest, tree.toFileTree.firstText? (file :: rest) = some (file, text) :=
    FileTree.firstText?_cons_of_contents hread
  constructor
  case unscanned =>
    intro hexports
    rw [textual_exportsPlan tree.takesAnyPath tree.listsDirs hexports,
      scanSays_of_mem_checkedPaths h hfile]
  case route => exact mem_checkedPaths.mp hfile
  case index =>
    intro himplicit hindex
    rw [judging_of_implicit himplicit, indexSays, if_pos himplicit, ← hindex,
      FileTree.saidOf_eq (hself []) hnormal]
    rfl
  case main =>
    intro v p hmain hname hv
    rw [judging_of_main hmain, Context.candidates, ← hv, FileTree.saidOf_eq (hself _) hnormal,
      entryFindings_eq hname, ← hv]
  case completedMain =>
    intro v p hmain hname
    rw [judging_of_main hmain]
    exact FileTree.saidOf_eq_nil fun _ other _ _ => if_neg (by simp [hname])
  case module =>
    intro v p hmodule hname hresolves
    rw [esm_of_module hmodule, FileTree.saidOf_eq hresolves hnormal]
    simp [EntryChecks.moduleFindings, hname]
  case completedModule =>
    intro v p hmodule hname
    rw [esm_of_module hmodule]
    exact FileTree.saidOf_eq_nil fun _ other _ _ => if_neg (by simp [hname])

/-- The files that a scan leaves out are the implicit entry point and what `main` or `module` may
resolve to, and the scan says nothing of them. The implicit entry point is compared with the format that
its path expects, and so is a file that `main` names as it stands; where `main` leaves the extension to
legacy resolution, nothing is compared. What `module` resolves to is not compared with the format
expected of it, but must not be CJS; nor is that looked at where `module` leaves out the extension. -/
theorem skipped_file_compared {files : List (String × String)} {tree : MemoryTree}
    (htree : MemoryTree.ofFiles files = .ok tree) {pkgDir : String} {manifest : Manifest}
    (hload : (Manifest.load pkgDir).result tree.toFileTree = .ok (.ok manifest))
    (published : Option (List String)) (workDir : String) :
    let ctx := contextOf tree.toFileTree.depth workDir pkgDir manifest { published }
    ∃ result, run tree.toFileTree pkgDir { published } workDir = .ok result
      ∧ ∀ file text, file ∈ checkedPaths ctx (Fields.of manifest) → tree.contents file = .ok text →
        (legacyAbout tree.toFileTree ctx file).Sublist result.diagnostics
          ∧ LeftOut tree.toFileTree ctx file text := by
  intro ctx
  have h := (reachable_ofFiles htree).sound
  refine ⟨_, run_of_load hload _ _, fun file text hfile hread => ⟨?_, ?_⟩⟩
  · rw [diagnostics_resultOf]
    exact legacyAbout_sublist tree.toFileTree ctx file
  · exact leftOut_of_mem_checkedPaths h (h.isRooted_of_load hload) hfile hread

/-- A file that `main` names as it stands is compared. -/
theorem named_main_compared :
    ∃ tree result,
      MemoryTree.ofFiles
          [("/p/package.json", "\x7b\"main\":\"./a.js\"\x7d"), ("/p/a.js", "export default 1")]
        = .ok tree
      ∧ run tree.toFileTree "/p" {} "/" = .ok result
      ∧ FileFormat.mismatch "/p/a.js" ["main"] .esm .cjs none ∈ result.diagnostics := by
  let text := "export default 1"
  let files := [("/p/package.json", "\x7b\"main\":\"./a.js\"\x7d"), ("/p/a.js", text)]
  let tree : MemoryTree := { files, dirs := [("/", ["p"]), ("/p", ["package.json", "a.js"])] }
  have htree : MemoryTree.ofFiles files = .ok tree := by cbv
  have hload : (Manifest.load "/p").result tree.toFileTree
      = .ok (.ok [("main", .str "./a.js")]) := by
    cbv
  let ctx := contextOf tree.toFileTree.depth "/" "/p" [("main", .str "./a.js")] {}
  obtain ⟨result, hrun, hskipped⟩ := skipped_file_compared htree hload none "/"
  have hread : tree.contents "/p/a.js" = .ok text := by cbv
  have hpath : "/p/a.js" = Path.join "/p" "./a.js" := by decide +kernel
  have hactual : Source.classify text = .esm := by decide +kernel
  have hexpected : tree.toFileTree.expectedFormat "/p/a.js" = .cjs := by decide +kernel
  obtain ⟨hamong, hleft⟩ := hskipped "/p/a.js" text (by decide +kernel) hread
  have hfound := hleft.main "./a.js" ["main"] rfl (by decide) hpath
  rw [hactual, hexpected] at hfound
  have hmem : FileFormat.mismatch "/p/a.js" ["main"] .esm .cjs none
      ∈ ofCodes judgingCodes (legacyAbout tree.toFileTree ctx "/p/a.js") := by
    rw [hfound]
    exact List.mem_singleton_self _
  exact ⟨tree, result, htree, hrun, hamong.subset (mem_ofCodes.mp hmem).1⟩

/-- A file that `main` leaves to legacy resolution is left out of the scan, and not compared, though it
has another format than its path expects. -/
theorem completed_main_not_compared :
    ∃ tree result,
      MemoryTree.ofFiles
          [("/p/package.json", "\x7b\"main\":\"./lib\"\x7d"),
           ("/p/lib/index.js", "export default 1")]
        = .ok tree
      ∧ run tree.toFileTree "/p" {} "/" = .ok result
      ∧ (let ctx := contextOf tree.toFileTree.depth "/" "/p" [("main", .str "./lib")] {}
        "/p/lib/index.js" ∈ tree.toFileTree.expanded ctx.depth (AllFiles.search ctx)
          ∧ "/p/lib/index.js" ∈ checkedPaths ctx (Fields.of ctx.manifest))
      ∧ Source.isLintableName "/p/lib/index.js" = true
      ∧ tree.contents "/p/lib/index.js" = .ok "export default 1"
      ∧ (Source.classify "export default 1").mismatch
          (tree.toFileTree.expectedFormat "/p/lib/index.js") = true
      ∧ ∀ d ∈ result.diagnostics, ¬ d.JudgesFormat := by
  let files :=
    [("/p/package.json", "\x7b\"main\":\"./lib\"\x7d"), ("/p/lib/index.js", "export default 1")]
  let tree : MemoryTree :=
    { files, dirs := [("/", ["p"]), ("/p", ["package.json", "lib"]), ("/p/lib", ["index.js"])] }
  have htree : MemoryTree.ofFiles files = .ok tree := by cbv
  have hload : (Manifest.load "/p").result tree.toFileTree
      = .ok (.ok [("main", .str "./lib")]) := by
    cbv
  let ctx := contextOf tree.toFileTree.depth "/" "/p" [("main", .str "./lib")] {}
  have hcodes : ∀ d ∈ (runPlan tree.toFileTree (plan ctx)).findings, d.code ∉ judgingCodes := by
    decide +kernel
  refine ⟨tree, _, htree, run_of_load hload {} "/", by decide +kernel, by decide, by cbv,
    by decide +kernel, ?_⟩
  rw [diagnostics_resultOf]
  exact hcodes

end PackageLint.Pass
