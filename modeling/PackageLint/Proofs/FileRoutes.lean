import PackageLint.Proofs.DistinctFiles
import PackageLint.Proofs.Examinations
import PackageLint.Proofs.ResolvedTargets

/-!
# The routes to a file

A pass comes upon files by six routes that speak of formats: the implicit entry point, `main`, `module`,
the leaves of `exports` or else the scan of all files, the commands, and the leaves of `imports`. What
the pass finds about one file is put together here from what each route says of it, in the order of the
pass.

The legacy routes and the scan say what a text shows in closed form. The leaves of condition trees are
left as they are, for what they say depends on how their targets expand.

## Main definitions

* `Manifest.commands` — the commands with their places
* `Pass.indexSays`, `Pass.mainSays`, `Pass.moduleSays`, `Pass.scanSays`, `Pass.commandsSay` — the routes

## Main results

* `Pass.textual_about` — what a pass finds about a file is what its routes say
* `Pass.textual_exportsPlan` — without `exports` the scan is one of them
* `Pass.exists_about` — every finding that depends on a text is about a file
-/

namespace PackageLint

variable {tree : FileTree} {ctx : Context} {file : String}

/-! ### Findings that are about a file -/

/-- Whatever a check says about formats is about a file. -/
def Check.Traced {α : Type} (tree : FileTree) (c : Check α) : Prop :=
  ∀ d ∈ c.findings tree, d.code ∈ textualCodes → ∃ file, d ∈ c.about tree file

/-- Whatever a task says about formats is about a file. -/
def Task.Traced (tree : FileTree) (task : Task) : Prop :=
  ∀ d ∈ task.findings tree, d.code ∈ textualCodes → ∃ file, d ∈ task.about tree file

theorem Check.Examines.traced {α : Type} {c : Check α} {paths : List String}
    {judge : String → List Diagnostic} (h : c.Examines tree paths judge) : c.Traced tree :=
  fun _ hd hcode => h.exists_about hd hcode

theorem Check.traced_wrongType {c : Check Unit} {value : Json} {types : List String}
    {location : Location} (h : c.findings tree = [Context.wrongType value types location]) :
    c.Traced tree := by
  intro d hd hcode
  rw [h] at hd
  obtain rfl := List.mem_singleton.mp hd
  have hcodes : Code.fieldInvalidValueType ∉ textualCodes := by decide
  exact absurd hcode hcodes

namespace Task

variable {task : Task} {codes : List Code}

theorem Reports.traced (h : task.Reports codes) (hcodes : ∀ code ∈ codes, code ∉ textualCodes) :
    task.Traced tree :=
  fun _ hd hcode => absurd hcode (hcodes _ (h.code_mem hd))

theorem traced_single {label : String} {check : Check Unit} (h : check.Traced tree) :
    (single label check).Traced tree := by
  intro d hd hcode
  rw [findings_single] at hd
  obtain ⟨file, hd⟩ := h d hd hcode
  exact ⟨file, by rwa [about_single]⟩

/-- The check of a task need not be traced, when only those that it leaves say something. -/
theorem traced_of_batch (h : task.check.Reports codes) (hcodes : ∀ code ∈ codes, code ∉ textualCodes)
    (hchecks : ∀ batch, task.check.result tree = .ok batch →
      ∀ check ∈ batch.checks, check.Traced tree) : task.Traced tree := by
  intro d hd hcode
  rcases mem_findings.mp hd with hd | ⟨batch, hbatch, check, hcheck, hd⟩
  · exact absurd hcode (hcodes _ (h.of_mem hd))
  · obtain ⟨file, hd⟩ := hchecks batch hbatch check hcheck d hd hcode
    refine ⟨file, List.mem_append_right _ ?_⟩
    rw [hbatch]
    exact List.mem_flatMap.mpr ⟨check, hcheck, hd⟩

/-- What a task says about a file, when only the checks that it leaves say something. -/
theorem textual_about (h : task.check.Reports codes) (hcodes : ∀ code ∈ codes, code ∉ textualCodes)
    (tree : FileTree) (file : String) :
    ofCodes textualCodes (task.about tree file)
      = match task.check.result tree with
        | .ok batch => batch.checks.flatMap fun check => ofCodes textualCodes (check.about tree file)
        | .error _ => [] := by
  have hself : ofCodes textualCodes (task.check.about tree file) = [] :=
    ofCodes_eq_nil fun d hd => hcodes _ (h.of_mem ((task.check.about_sublist tree file).subset hd))
  rw [about, ofCodes_append, hself, List.nil_append]
  cases task.check.result tree with
  | ok batch => exact ofCodes_flatMap _ _ _
  | error e => rfl

end Task

/-! ### Commands -/

/-- The commands of a manifest, with their places. -/
def Manifest.commands (manifest : Manifest) : List (Location × String) :=
  match manifest.published "bin" with
  | (.str v, p) => if v = "" then [] else [(p, v)]
  | (.obj fields, p) =>
    fields.filterMap fun field =>
      match field.2 with
      | .str v => some (p ++ [field.1], v)
      | _ => none
  | _ => []

theorem Manifest.mem_commands {manifest : Manifest} {p : Location} {v : String} :
    (p, v) ∈ manifest.commands ↔ manifest.Commands p v := by
  rw [commands]
  constructor
  · intro h
    split at h
    next w q hbin =>
      split at h
      · simp at h
      next hset =>
        obtain ⟨rfl, rfl⟩ := Prod.mk.inj (List.mem_singleton.mp h)
        exact .single hset hbin
    next fields q hbin =>
      obtain ⟨⟨name, value⟩, hfield, h⟩ := List.mem_filterMap.mp h
      cases value with
      | str w =>
        obtain ⟨rfl, rfl⟩ := Prod.mk.inj (Option.some.inj h)
        have hplace : (manifest.published "bin").2 = q := congrArg Prod.snd hbin
        rw [← hplace]
        exact .named (congrArg Prod.fst hbin) hfield
      | _ => simp at h
    next => simp at h
  · intro h
    cases h with
    | single hset hbin => simp [hbin, hset]
    | @named fields name v hobj hfield =>
      have hbin : manifest.published "bin" = (.obj fields, (manifest.published "bin").2) :=
        Prod.ext hobj rfl
      rw [hbin]
      exact List.mem_filterMap.mpr ⟨_, hfield, rfl⟩

/-- The tasks of `bin` are those of the commands, in their order. -/
theorem Pass.tasks_bin (ctx : Context) :
    (if (ctx.manifest.published "bin").1.isSet then
        EntryChecks.binField ctx (ctx.manifest.published "bin").1 (ctx.manifest.published "bin").2
      else {}).tasks
      = ctx.manifest.commands.map fun command =>
          .single command.1.label (EntryChecks.checkCommand ctx command.2 command.1) := by
  rw [Manifest.commands]
  obtain ⟨value, p⟩ := ctx.manifest.published "bin"
  cases value with
  | str v =>
    by_cases hv : v = ""
    · simp [hv, Json.isSet]
    · simp [hv, Json.isSet, EntryChecks.binField, EntryChecks.command, Plan.task]
  | obj fields =>
    simp only [Json.isSet, if_true, EntryChecks.binField, Plan.tasks_concat]
    induction fields with
    | nil => rfl
    | cons field rest ih =>
      obtain ⟨name, value⟩ := field
      rw [List.map_cons, List.flatMap_cons, ih]
      cases value <;> rfl
  | _ => split <;> rfl

/-! ### The scan -/

namespace AllFiles

/-- Whether the scan looks at a path: no other field leads to it, and it is the name of code. -/
def looksAt (checked : List String) (path : String) : Bool :=
  !checked.contains path && Source.isLintableName path

/-- The check of a file as the scan shows it. -/
def shownCheck (ctx : Context) (path : String) : Check Unit := checkFile path ("/" ++ ctx.relative path)

theorem result_fileChecks (tree : FileTree) (ctx : Context) (checked files : List String) :
    (fileChecks ctx checked files).result tree
      = .ok ((files.filter (looksAt checked)).map (shownCheck ctx)) := by
  induction files with
  | nil => rfl
  | cons path rest ih =>
    rw [fileChecks]
    split
    next hchecked =>
      have hpassed : looksAt checked path = false := by rw [looksAt, hchecked]; rfl
      rw [ih, List.filter_cons_of_neg (by simp [hpassed])]
    next hchecked =>
      have hlooks : looksAt checked path = Source.isLintableName path := by
        rw [looksAt, Bool.eq_false_iff.mpr hchecked]
        rfl
      have hjsx : (Context.rejectsJsx path ["name"] (some ("/" ++ ctx.relative path))).result tree
          = .ok (Context.jsxExtension? path).isSome := by
        rw [Check.result, Context.run_rejectsJsx]
      refine Check.result_bind_eq_ok.mpr ⟨_, hjsx, ?_⟩
      cases hextension : (Context.jsxExtension? path).isSome with
      | true =>
        have hname : Source.isLintableName path = false := by
          refine Bool.eq_false_iff.mpr fun hname => ?_
          simp [Context.jsxExtension?_of_isLintableName hname] at hextension
        rw [if_pos rfl, ih, List.filter_cons_of_neg (by simp [hlooks, hname])]
      | false =>
        refine Check.result_bind_eq_ok.mpr ⟨_, ih, ?_⟩
        cases hname : Source.isLintableName path with
        | true =>
          rw [List.filter_cons_of_pos (by rw [hlooks, hname])]
          rfl
        | false =>
          rw [List.filter_cons_of_neg (by simp [hlooks, hname])]
          rfl

theorem result_scan (hl : tree.ListsDirs) (ctx : Context) (checked : List String) :
    (scan ctx checked).result tree
      = .ok
          { name := "all-files"
            checks := ((tree.expanded ctx.depth (search ctx)).filter (looksAt checked)).map
              (shownCheck ctx) } := by
  have hsearch : (Subpath.expand ctx.depth (search ctx)).result tree
      = .ok (tree.expanded ctx.depth (search ctx)) := by
    rw [Check.result, Subpath.run_expand hl]
  rw [scan, Check.bind_eq]
  exact Check.result_bind_eq_ok.mpr ⟨_, hsearch,
    Check.result_bind_eq_ok.mpr ⟨_, result_fileChecks tree ctx checked _, rfl⟩⟩

/-- The task of the scan. -/
def scanTask (ctx : Context) (checked : List String) : Task :=
  { label := "all-files", check := scan ctx checked }

theorem reports_scanTask (ctx : Context) (checked : List String) :
    (scanTask ctx checked).check.Reports [.fileInvalidJsxExtension] :=
  (meets_scan (fun _ hcode _ => List.mem_singleton.mpr hcode) checked).only

theorem checks_scanTask (hl : tree.ListsDirs) {ctx : Context} {checked : List String} {batch : Batch}
    (hbatch : (scanTask ctx checked).check.result tree = .ok batch) :
    batch.checks
      = ((tree.expanded ctx.depth (search ctx)).filter (looksAt checked)).map (shownCheck ctx) := by
  rw [scanTask, result_scan hl] at hbatch
  rw [← Except.ok.inj hbatch]

theorem traced_scanTask (h : tree.TakesAnyPath) (hl : tree.ListsDirs) (ctx : Context)
    (checked : List String) : (scanTask ctx checked).Traced tree := by
  refine Task.traced_of_batch (reports_scanTask ctx checked) (by decide) fun batch hbatch => ?_
  rw [checks_scanTask hl hbatch]
  refine List.forall_mem_map.mpr fun path _ => ?_
  exact (examines_checkFile h path ("/" ++ ctx.relative path)).traced

/-- What the scan says of a file. -/
theorem textual_about_scanTask (h : tree.TakesAnyPath) (hl : tree.ListsDirs) (ctx : Context)
    (checked : List String) :
    ofCodes textualCodes ((scanTask ctx checked).about tree file)
      = ((tree.expanded ctx.depth (search ctx)).filter (looksAt checked)).flatMap fun path =>
          tree.saidOf file [path] (textFindings tree path ("/" ++ ctx.relative path)) := by
  have hresult : (scanTask ctx checked).check.result tree = _ := result_scan hl ctx checked
  rw [Task.textual_about (reports_scanTask ctx checked) (by decide), hresult]
  simp only [List.flatMap_map]
  refine List.flatMap_congr fun path _ => ?_
  exact (examines_checkFile h path ("/" ++ ctx.relative path)).about file

end AllFiles

/-! ### Leaves -/

namespace EntryTree

variable {entry : EntryTree} {target : Crawl.Target} {value path : String} {check : Check Unit}

theorem not_textual_of_target (field : EntryField) :
    ∀ code ∈ targetCodes field, code ∉ textualCodes := by
  cases field <;> decide

/-- The check of a file of a leaf judges its text, and says nothing of a text that is no plain code. -/
theorem examines_fileCheck? (h : tree.TakesAnyPath)
    (hcheck : entry.fileCheck? ctx value target path = some check) :
    ∃ judge, check.Examines tree [path] judge
      ∧ ∀ text, Source.isLintable text = false → judge text = [] := by
  rw [fileCheck?] at hcheck
  split at hcheck
  · simp at hcheck
  · split at hcheck
    · obtain rfl := Option.some.inj hcheck
      exact ⟨_, examines_checkFile h _ _ _ _, fun text htext => by simp [textFindings, htext]⟩
    · split at hcheck
      · obtain rfl := Option.some.inj hcheck
        exact ⟨_, examines_checkPresence h _, fun _ _ => rfl⟩
      · simp at hcheck

theorem traced_task (h : tree.TakesAnyPath) (hl : tree.ListsDirs) (ctx : Context)
    (entry : EntryTree) (target : Crawl.Target) : (entry.task ctx target).Traced tree := by
  refine Task.traced_of_batch (reports_checkTarget ctx entry target) (not_textual_of_target _) ?_
  intro batch hbatch check hcheck
  obtain ⟨path, -, hfile⟩ := checks_of_result hl hbatch hcheck
  obtain ⟨judge, hexamines, -⟩ := examines_fileCheck? h hfile
  exact hexamines.traced

/-- A leaf says nothing about the formats of a file whose text is no plain code. -/
theorem textual_about_of_rejected (h : tree.TakesAnyPath) (hl : tree.ListsDirs)
    (hrejected : ∀ path text, tree.contents path = .ok text → Path.normalize path = file →
      Source.isLintable text = false) :
    ofCodes textualCodes ((entry.task ctx target).about tree file) = [] := by
  rw [Task.textual_about (reports_checkTarget ctx entry target) (not_textual_of_target _)]
  cases hbatch : (entry.task ctx target).check.result tree with
  | error e => rfl
  | ok batch =>
    refine List.flatMap_eq_nil_iff.mpr fun check hcheck => ?_
    obtain ⟨path, -, hfile⟩ := checks_of_result hl hbatch hcheck
    obtain ⟨judge, hexamines, hjudge⟩ := examines_fileCheck? h hfile
    rw [hexamines.about]
    refine FileTree.saidOf_eq_nil fun found text hfound hsame => hjudge text ?_
    exact hrejected found text (FileTree.firstText?_eq_some hfound).2 hsame

end EntryTree

/-! ### What the routes say -/

namespace Pass

/-- What the check of the implicit entry point says of a file. -/
def indexSays (tree : FileTree) (ctx : Context) (file : String) : List Diagnostic :=
  if (Fields.of ctx.manifest).areImplicit then
    tree.saidOf file [ctx.within PackageChecks.indexName]
      (PackageChecks.textFindings tree (ctx.within PackageChecks.indexName))
  else []

/-- What the check of `main` says of a file. -/
def mainSays (tree : FileTree) (ctx : Context) (file : String) : List Diagnostic :=
  match ctx.manifest.published "main" with
  | (.str v, p) =>
    tree.saidOf file (Context.candidates (ctx.within v) Context.legacyExtensions)
      (EntryChecks.textFindings tree ctx v p)
  | _ => []

/-- What the check of `module` says of a file. -/
def moduleSays (tree : FileTree) (ctx : Context) (file : String) : List Diagnostic :=
  match ctx.manifest.published "module" with
  | (.str v, p) =>
    tree.saidOf file (Context.candidates (ctx.within v) Context.legacyExtensions)
      (EntryChecks.moduleFindings v p)
  | _ => []

/-- What the scan says of a file. -/
def scanSays (tree : FileTree) (ctx : Context) (file : String) : List Diagnostic :=
  ((tree.expanded ctx.depth (AllFiles.search ctx)).filter
      (AllFiles.looksAt (checkedPaths ctx (Fields.of ctx.manifest)))).flatMap fun path =>
    tree.saidOf file [path] (AllFiles.textFindings tree path ("/" ++ ctx.relative path))

/-- What the checks of the commands say of a file. -/
def commandsSay (tree : FileTree) (ctx : Context) (file : String) : List Diagnostic :=
  ctx.manifest.commands.flatMap fun command =>
    tree.saidOf file (Context.candidates (ctx.within command.2) Context.legacyExtensions)
      (EntryChecks.textFindings tree ctx command.2 command.1)

/-- What can be read at the implicit entry point is there. -/
def IndexThere (tree : FileTree) (ctx : Context) : Prop :=
  tree.Readable (ctx.within PackageChecks.indexName) →
    tree.isThere (ctx.within PackageChecks.indexName) = true

variable {task : Task}

theorem textual_single {label : String} {check : Check Unit} :
    ofCodes textualCodes (([Task.single label check]).flatMap fun task => task.about tree file)
      = ofCodes textualCodes (check.about tree file) := by
  rw [List.flatMap_singleton, Task.about_single]

theorem textual_indexPlan (h : tree.TakesAnyPath) (hindex : IndexThere tree ctx) :
    ofCodes textualCodes ((if (Fields.of ctx.manifest).areImplicit then
        PackageChecks.implicitIndex ctx else {}).tasks.flatMap fun task => task.about tree file)
      = indexSays tree ctx file := by
  rw [indexSays]
  split
  · exact textual_single.trans ((PackageChecks.examines_checkIndex h hindex).about file)
  · rfl

theorem textual_mainPlan (h : tree.TakesAnyPath) (hasExports : Bool) :
    ofCodes textualCodes ((if (ctx.manifest.published "main").1.isNull then {} else
        EntryChecks.mainField ctx (ctx.manifest.published "main").1 (ctx.manifest.published "main").2
          hasExports).tasks.flatMap fun task => task.about tree file)
      = mainSays tree ctx file := by
  rw [mainSays]
  obtain ⟨value, p⟩ := ctx.manifest.published "main"
  cases value with
  | null => rfl
  | str v => exact textual_single.trans ((EntryChecks.examines_checkMain h v hasExports).about file)
  | _ => exact textual_single

theorem textual_modulePlan (h : tree.TakesAnyPath) (hasExports : Bool) :
    ofCodes textualCodes ((if (ctx.manifest.published "module").1.isNull then {} else
        EntryChecks.moduleField ctx (ctx.manifest.published "module").1
          (ctx.manifest.published "module").2 hasExports).tasks.flatMap fun task =>
            task.about tree file)
      = moduleSays tree ctx file := by
  rw [moduleSays]
  obtain ⟨value, p⟩ := ctx.manifest.published "module"
  cases value with
  | null => rfl
  | str v => exact textual_single.trans ((EntryChecks.examines_checkModule h v hasExports).about file)
  | _ => exact textual_single

/-- What is found about a file by way of the legacy entry points. -/
theorem textual_legacyPlan (h : tree.TakesAnyPath) (hindex : IndexThere tree ctx) :
    ofCodes textualCodes ((legacyPlan ctx (Fields.of ctx.manifest)).tasks.flatMap fun task =>
        task.about tree file)
      = indexSays tree ctx file ++ (mainSays tree ctx file ++ moduleSays tree ctx file) := by
  rw [tasks_legacyPlan, List.flatMap_append, List.flatMap_append, ofCodes_append, ofCodes_append,
    List.append_assoc, textual_indexPlan h hindex]
  exact congrArg _ (congrArg₂ _ (textual_mainPlan h _) (textual_modulePlan h _))

/-- What is found about a file by way of the commands. -/
theorem textual_binPlan (h : tree.TakesAnyPath) :
    ofCodes textualCodes ((if (Fields.of ctx.manifest).bin.1.isSet then
        EntryChecks.binField ctx (Fields.of ctx.manifest).bin.1 (Fields.of ctx.manifest).bin.2
      else {}).tasks.flatMap fun task => task.about tree file)
      = commandsSay tree ctx file := by
  have hbin : (Fields.of ctx.manifest).bin = ctx.manifest.published "bin" := rfl
  rw [hbin, tasks_bin, List.flatMap_map, ofCodes_flatMap, commandsSay]
  refine List.flatMap_congr fun command _ => ?_
  rw [Task.about_single]
  exact (EntryChecks.examines_checkCommand h command.2).about file

/-- What is found about a file by way of the scan, where `exports` is not set. -/
theorem textual_exportsPlan (h : tree.TakesAnyPath) (hl : tree.ListsDirs)
    (hexports : (Fields.of ctx.manifest).hasExports = false) :
    ofCodes textualCodes ((exportsPlan ctx (Fields.of ctx.manifest)).tasks.flatMap fun task =>
        task.about tree file)
      = scanSays tree ctx file := by
  have hplan : (exportsPlan ctx (Fields.of ctx.manifest)).tasks
      = [AllFiles.scanTask ctx (checkedPaths ctx (Fields.of ctx.manifest))] := by
    rw [exportsPlan, hexports]
    rfl
  rw [hplan, List.flatMap_singleton, AllFiles.textual_about_scanTask h hl, scanSays]

/-- What a pass finds about a file is what its routes say. -/
theorem textual_about (h : tree.TakesAnyPath) (hindex : IndexThere tree ctx) (file : String) :
    ofCodes textualCodes (about tree ctx file)
      = (indexSays tree ctx file ++ (mainSays tree ctx file ++ moduleSays tree ctx file))
        ++ (ofCodes textualCodes ((exportsPlan ctx (Fields.of ctx.manifest)).tasks.flatMap fun task =>
            task.about tree file)
        ++ (commandsSay tree ctx file
        ++ ofCodes textualCodes ((importsPlan ctx (Fields.of ctx.manifest)).tasks.flatMap fun task =>
            task.about tree file))) := by
  have hfiles : ofCodes textualCodes ((PackageChecks.filesField ctx).tasks.flatMap fun task =>
      task.about tree file) = [] :=
    flatMap_about_eq_nil (fun _ => PackageChecks.reports_filesField) (by decide)
  have hlicense : ofCodes textualCodes ((PackageChecks.licenseField ctx).tasks.flatMap fun task =>
      task.about tree file) = [] :=
    flatMap_about_eq_nil (fun _ => PackageChecks.reports_licenseField) (by decide)
  have hknown : ofCodes textualCodes ((EntryChecks.knownFields ctx).tasks.flatMap fun task =>
      task.about tree file) = [] := by
    refine flatMap_about_eq_nil (fun task ht => ?_)
      (by decide : ∀ code ∈ EntryChecks.knownCodes, code ∉ textualCodes)
    simp only [EntryChecks.knownFields, Plan.tasks_concat] at ht
    obtain ⟨plan, hplan, ht⟩ := List.mem_flatMap.mp ht
    obtain ⟨field, -, rfl⟩ := List.mem_map.mp hplan
    exact EntryChecks.reports_knownField ht
  have hbrowser : ofCodes textualCodes ((if (Fields.of ctx.manifest).browser.1.isSet then
        EntryChecks.browserField ctx (Fields.of ctx.manifest).browser.1
          (Fields.of ctx.manifest).browser.2 (Fields.of ctx.manifest).hasExports
      else {}).tasks.flatMap fun task => task.about tree file) = [] := by
    refine flatMap_about_eq_nil (fun task ht => ?_)
      (by decide : ∀ code ∈ EntryChecks.readCodes, code ∉ textualCodes)
    split at ht
    · obtain ⟨entry, -, rfl⟩ := List.mem_map.mp ht
      exact EntryChecks.reports_browserTask entry
    · exact absurd ht List.not_mem_nil
  rw [about, tasks_plan]
  simp only [List.flatMap_append, ofCodes_append, hfiles, hlicense, hknown, hbrowser,
    textual_legacyPlan h hindex, textual_binPlan h, List.nil_append]

/-! ### Comparisons -/

/-- A comparison of the text that a value resolves to, without leniency. -/
theorem mem_entryFindings {v : String} {p : Location} {text : String} {d : Diagnostic} :
    d ∈ EntryChecks.textFindings tree ctx v p text
      ↔ Source.isLintableName v = true
        ∧ (Source.classify text).mismatch (tree.expectedFormat (ctx.within v)) = true
        ∧ d = FileFormat.mismatch (ctx.within v) p (Source.classify text)
            (tree.expectedFormat (ctx.within v)) none := by
  rw [EntryChecks.textFindings, List.mem_ite_nil_right, FileFormat.mem_findings]
  simp [FileFormat.isExcused]

theorem judgesFormat_of_mem_entryFindings {v : String} {p : Location} {text : String}
    {d : Diagnostic} (hd : d ∈ EntryChecks.textFindings tree ctx v p text) : d.JudgesFormat := by
  obtain ⟨-, -, rfl⟩ := mem_entryFindings.mp hd
  exact FileFormat.judgesFormat_mismatch _ _ _ _ _

theorem indexSays_judges : ∀ d ∈ indexSays tree ctx file, d.JudgesFormat := by
  intro d hd
  obtain ⟨-, hd⟩ := List.mem_ite_nil_right.mp hd
  obtain ⟨found, text, -, -, hd⟩ := FileTree.mem_saidOf.mp hd
  obtain ⟨-, hd⟩ := List.mem_ite_nil_right.mp hd
  obtain rfl := List.mem_singleton.mp hd
  have hcode : Code.implicitIndexJsInvalidFormat ∈ judgingCodes := by decide
  exact hcode

theorem mainSays_judges : ∀ d ∈ mainSays tree ctx file, d.JudgesFormat := by
  intro d hd
  rw [mainSays] at hd
  split at hd
  · obtain ⟨found, text, -, -, hd⟩ := FileTree.mem_saidOf.mp hd
    exact judgesFormat_of_mem_entryFindings hd
  · exact absurd hd List.not_mem_nil

theorem commandsSay_judges : ∀ d ∈ commandsSay tree ctx file, d.JudgesFormat := by
  intro d hd
  obtain ⟨command, -, hd⟩ := List.mem_flatMap.mp hd
  obtain ⟨found, text, -, -, hd⟩ := FileTree.mem_saidOf.mp hd
  exact judgesFormat_of_mem_entryFindings hd

theorem scanSays_judges : ∀ d ∈ scanSays tree ctx file, d.JudgesFormat := by
  intro d hd
  obtain ⟨path, -, hd⟩ := List.mem_flatMap.mp hd
  obtain ⟨found, text, -, -, hd⟩ := FileTree.mem_saidOf.mp hd
  obtain ⟨-, hd⟩ := List.mem_ite_nil_right.mp hd
  obtain ⟨-, rfl⟩ := FileFormat.mem_findings.mp hd
  exact FileFormat.judgesFormat_mismatch _ _ _ _ _

theorem code_of_mem_moduleSays :
    ∀ d ∈ moduleSays tree ctx file, d.code = .moduleShouldBeEsm := by
  intro d hd
  rw [moduleSays] at hd
  split at hd
  · obtain ⟨found, text, -, -, hd⟩ := FileTree.mem_saidOf.mp hd
    obtain ⟨-, hd⟩ := List.mem_ite_nil_right.mp hd
    rw [List.mem_singleton.mp hd]
    rfl
  · exact absurd hd List.not_mem_nil

/-- The comparisons among what the legacy entry points say of a file. -/
theorem judging_legacyPlan (h : tree.TakesAnyPath) (hindex : IndexThere tree ctx) :
    ofCodes judgingCodes ((legacyPlan ctx (Fields.of ctx.manifest)).tasks.flatMap fun task =>
        task.about tree file)
      = indexSays tree ctx file ++ mainSays tree ctx file := by
  have hmodule : ofCodes judgingCodes (moduleSays tree ctx file) = [] :=
    ofCodes_eq_nil fun d hd => by
      rw [code_of_mem_moduleSays d hd]
      decide
  rw [← ofCodes_ofCodes judging_subset_textual, textual_legacyPlan h hindex, ofCodes_append,
    ofCodes_append, hmodule, ofCodes_eq_self indexSays_judges, ofCodes_eq_self mainSays_judges,
    List.append_nil]

/-! ### Findings that depend on texts -/

theorem traced_mainTask (h : tree.TakesAnyPath) (value : Json) (location : Location)
    (hasExports : Bool) : (EntryChecks.checkMain ctx value location hasExports).Traced tree := by
  cases value with
  | str v => exact (EntryChecks.examines_checkMain h v hasExports).traced
  | _ => exact Check.traced_wrongType rfl

theorem traced_moduleTask (h : tree.TakesAnyPath) (value : Json) (location : Location)
    (hasExports : Bool) : (EntryChecks.checkModule ctx value location hasExports).Traced tree := by
  cases value with
  | str v => exact (EntryChecks.examines_checkModule h v hasExports).traced
  | _ => exact Check.traced_wrongType rfl

/-- Whatever the tasks of a pass say about formats is about a file. -/
theorem traced_plan (h : tree.TakesAnyPath) (hl : tree.ListsDirs) (hindex : IndexThere tree ctx)
    (ht : task ∈ (plan ctx).tasks) : task.Traced tree := by
  cases planned_of_mem ht with
  | files ht => exact (PackageChecks.reports_filesField ht).traced (by decide)
  | license ht => exact (PackageChecks.reports_licenseField ht).traced (by decide)
  | legacy ht =>
    cases ht with
    | index => exact Task.traced_single (PackageChecks.examines_checkIndex h hindex).traced
    | main _ => exact Task.traced_single (traced_mainTask h _ _ _)
    | module _ => exact Task.traced_single (traced_moduleTask h _ _ _)
  | known ht => exact (EntryChecks.reports_knownField ht).traced (by decide)
  | browser _ _ => exact (EntryChecks.reports_browserTask _).traced (by decide)
  | leaf ht =>
    obtain ⟨-, -, -, -⟩ := ht
    exact EntryTree.traced_task h hl ctx _ _
  | root ht => exact ht.reports.traced (by decide)
  | scan ht =>
    obtain rfl := List.mem_singleton.mp ht
    exact AllFiles.traced_scanTask h hl ctx _
  | bin hset ht =>
    obtain ⟨p, v, -, rfl⟩ := mem_binField.mp (by rwa [if_pos hset])
    exact Task.traced_single (EntryChecks.examines_checkCommand h v).traced

/-- Every finding of a pass that depends on a text is about a file. -/
theorem exists_about (h : tree.TakesAnyPath) (hl : tree.ListsDirs) (hindex : IndexThere tree ctx)
    {d : Diagnostic} (hd : d ∈ (runPlan tree (plan ctx)).findings) (hcode : d.code ∈ textualCodes) :
    ∃ file, d ∈ about tree ctx file := by
  rw [findings_runPlan] at hd
  rcases List.mem_append.mp hd with hd | hd
  · have hcodes : ∀ code ∈ planCodes, code ∉ textualCodes := by decide
    exact absurd hcode (hcodes _ (code_of_mem_planFindings hd))
  · obtain ⟨task, ht, hd⟩ := List.mem_flatMap.mp hd
    obtain ⟨file, hd⟩ := traced_plan h hl hindex ht d hd hcode
    exact ⟨file, List.mem_flatMap.mpr ⟨task, ht, hd⟩⟩

end Pass

/-! ### Trees in memory -/

namespace MemoryTree

open PackageLint.Path

variable {tree : MemoryTree} {paths : List String} {judge : String → List Diagnostic} {d : Diagnostic}

/-- The file that a check looks at is one of the tree. -/
theorem hasKey_of_subject {α : Type} {c : Check α} (h : c.subject? tree.toFileTree = some file) :
    Assoc.hasKey file tree.files = true := by
  induction c with
  | done a => simp [Check.subject?] at h
  | fail e => simp [Check.subject?] at h
  | report d next ih => exact ih h
  | ask q next ih =>
    rw [Check.subject?, Option.or_eq_some_iff] at h
    rcases h with h | ⟨-, h⟩
    · cases q with
      | contents path =>
        obtain ⟨text, htext, rfl⟩ := Option.map_eq_some_iff.mp h
        exact Assoc.hasKey_iff_get?.mpr
          ⟨text, (contents_eq_ok_iff.mp (FileTree.text?_eq_some.mp htext)).1⟩
      | _ => simp [FileTree.reads?] at h
    · exact ih _ h

theorem hasKey_of_mem_taskAbout {task : Task} (h : d ∈ task.about tree.toFileTree file) :
    Assoc.hasKey file tree.files = true := by
  rw [Task.about] at h
  rcases List.mem_append.mp h with h | h
  · exact hasKey_of_subject (Check.mem_about.mp h).1
  · split at h
    · obtain ⟨check, -, h⟩ := List.mem_flatMap.mp h
      exact hasKey_of_subject (Check.mem_about.mp h).1
    · exact absurd h List.not_mem_nil

/-- What a pass finds about a file is about one of the tree. -/
theorem hasKey_of_mem_about (h : d ∈ Pass.about tree.toFileTree ctx file) :
    Assoc.hasKey file tree.files = true := by
  obtain ⟨task, -, h⟩ := List.mem_flatMap.mp h
  exact hasKey_of_mem_taskAbout h

theorem indexThere (tree : MemoryTree) (ctx : Context) : Pass.IndexThere tree.toFileTree ctx :=
  isThere_of_readable

/-- A path within a directory that is read is the path of the file. -/
theorem Sound.normalize_of_firstText? (h : tree.Sound) (hinner : ∀ path ∈ paths, IsInner path)
    {found text : String} (hfound : tree.toFileTree.firstText? paths = some (found, text)) :
    normalize found = found := by
  obtain ⟨hmem, hread⟩ := FileTree.firstText?_eq_some hfound
  exact h.normalize_of_hasKey (hasKey_of_readable (hinner found hmem) ⟨text, hread⟩)

/-- What is said of a file, when the paths to try are within directories. -/
theorem Sound.mem_saidOf (h : tree.Sound) (hinner : ∀ path ∈ paths, IsInner path) :
    d ∈ tree.toFileTree.saidOf file paths judge
      ↔ ∃ text, tree.toFileTree.firstText? paths = some (file, text) ∧ d ∈ judge text := by
  rw [FileTree.mem_saidOf]
  constructor
  · rintro ⟨found, text, hfound, hsame, hd⟩
    obtain rfl := (h.normalize_of_firstText? hinner hfound).symm.trans hsame
    exact ⟨text, hfound, hd⟩
  · rintro ⟨text, hfound, hd⟩
    exact ⟨file, text, hfound, h.normalize_of_firstText? hinner hfound, hd⟩

/-- The path of a file that a search finds says nothing of another file. -/
theorem Sound.saidOf_other (h : tree.Sound) {search : Subpath.Search} {depth : Nat} {path : String}
    (hlisted : path ∈ tree.toFileTree.expanded depth search) (hne : path ≠ file) :
    tree.toFileTree.saidOf file [path] judge = [] := by
  refine FileTree.saidOf_eq_nil fun found text hfound hsame => absurd ?_ hne
  obtain rfl := List.mem_singleton.mp (FileTree.firstText?_eq_some hfound).1
  exact (h.normalize_of_hasKey (h.hasKey_of_mem_expanded hlisted)).symm.trans hsame

/-- A file has one text, by whichever path it is read. -/
theorem Sound.text_unique (h : tree.Sound) {path text other : String}
    (hread : tree.toFileTree.contents file = .ok text)
    (hother : tree.toFileTree.contents path = .ok other) (hsame : normalize path = file) :
    other = text := by
  have hget := (contents_eq_ok_iff.mp hother).1
  have hnormal := h.normalize_of_hasKey (Assoc.hasKey_iff_get?.mpr ⟨_, hget⟩)
  rw [hsame] at hget hnormal
  have hgot := (contents_eq_ok_iff.mp hread).1
  rw [hnormal, hget] at hgot
  exact Option.some.inj hgot

end MemoryTree

namespace Context

/-- The files that an entry point may resolve to are those that legacy resolution tries. -/
theorem legacyCandidates_eq (h : Path.isRooted ctx.pkgDir = true) (v : String) :
    EntryChecks.legacyCandidates ctx (.str v)
      = candidates (ctx.within v) legacyExtensions := by
  obtain ⟨d, i, hpath⟩ := Path.isInner_join h v
  have hindex : Path.join (d.at i) "/index.js" = extend (d.at i) "/index.js" := by
    have hslash : "/index.js" = String.ofList ('/' :: "index.js".toList) := by decide
    rw [d.extend_index i, hslash, Path.join_slash _ Path.isName_index, ← d.join_at i]
  have hscript : extend (d.at i) ".js" = d.at i ++ ".js" := by
    simp [extend, Text.hasStart]
  rw [EntryChecks.legacyCandidates, candidates, show ctx.within v = d.at i from hpath]
  simp only [legacyExtensions, List.map_cons, List.map_nil, hindex, hscript]
  rw [if_neg (by decide), if_pos (by decide)]

theorem isInner_candidates (h : Path.isRooted ctx.pkgDir = true) (v : String) :
    ∀ path ∈ candidates (ctx.within v) legacyExtensions, Path.IsInner path :=
  (Path.isInner_join h v).candidates

end Context

namespace Pass

variable {tree : MemoryTree} {d : Diagnostic}

theorem mem_indexSays (h : tree.Sound) (hroot : Path.isRooted ctx.pkgDir = true) :
    d ∈ indexSays tree.toFileTree ctx file
      ↔ (Fields.of ctx.manifest).areImplicit = true
        ∧ ctx.within PackageChecks.indexName = file
        ∧ ∃ text, tree.toFileTree.contents file = .ok text
          ∧ d ∈ PackageChecks.textFindings tree.toFileTree file text := by
  have hinner : ∀ path ∈ [ctx.within PackageChecks.indexName], Path.IsInner path := fun path hpath =>
    List.mem_singleton.mp hpath ▸ Path.isInner_join hroot _
  rw [indexSays, List.mem_ite_nil_right, h.mem_saidOf hinner]
  refine and_congr_right fun _ => ?_
  constructor
  · rintro ⟨text, hfound, hd⟩
    obtain ⟨hmem, hread⟩ := FileTree.firstText?_eq_some hfound
    obtain rfl := List.mem_singleton.mp hmem
    exact ⟨rfl, text, hread, hd⟩
  · rintro ⟨rfl, text, hread, hd⟩
    exact ⟨text, FileTree.firstText?_cons_of_contents hread [], hd⟩

theorem mem_mainSays (h : tree.Sound) (hroot : Path.isRooted ctx.pkgDir = true) :
    d ∈ mainSays tree.toFileTree ctx file
      ↔ ∃ v p text, ctx.manifest.published "main" = (.str v, p)
        ∧ tree.toFileTree.Resolves (ctx.within v) file text
        ∧ d ∈ EntryChecks.textFindings tree.toFileTree ctx v p text := by
  rw [mainSays]
  split
  next v p hmain =>
    rw [h.mem_saidOf (Context.isInner_candidates hroot v)]
    simp [hmain, FileTree.Resolves]
  next hother => simpa using fun v p hmain => absurd hmain (hother v p)

theorem mem_moduleSays (h : tree.Sound) (hroot : Path.isRooted ctx.pkgDir = true) :
    d ∈ moduleSays tree.toFileTree ctx file
      ↔ ∃ v p text, ctx.manifest.published "module" = (.str v, p)
        ∧ tree.toFileTree.Resolves (ctx.within v) file text
        ∧ d ∈ EntryChecks.moduleFindings v p text := by
  rw [moduleSays]
  split
  next v p hmodule =>
    rw [h.mem_saidOf (Context.isInner_candidates hroot v)]
    simp [hmodule, FileTree.Resolves]
  next hother => simpa using fun v p hmodule => absurd hmodule (hother v p)

theorem mem_commandsSay (h : tree.Sound) (hroot : Path.isRooted ctx.pkgDir = true) :
    d ∈ commandsSay tree.toFileTree ctx file
      ↔ ∃ v p text, ctx.manifest.Commands p v
        ∧ tree.toFileTree.Resolves (ctx.within v) file text
        ∧ d ∈ EntryChecks.textFindings tree.toFileTree ctx v p text := by
  rw [commandsSay, List.mem_flatMap]
  constructor
  · rintro ⟨⟨p, v⟩, hcommand, hd⟩
    obtain ⟨text, hfound, hd⟩ := (h.mem_saidOf (Context.isInner_candidates hroot v)).mp hd
    exact ⟨v, p, text, Manifest.mem_commands.mp hcommand, hfound, hd⟩
  · rintro ⟨v, p, text, hcommand, hfound, hd⟩
    exact ⟨(p, v), Manifest.mem_commands.mpr hcommand,
      (h.mem_saidOf (Context.isInner_candidates hroot v)).mpr ⟨text, hfound, hd⟩⟩

end Pass

end PackageLint
