import PackageLint.Proofs.CheckCodes

/-!
# The codes that the tasks of a pass may report

The tasks of a pass come from three places: from the leaves of a condition tree, from its root entry,
and from fields and files that need no tree. Those of each place report the codes of that place only.
A theorem about the findings of one code over a whole pass has so to look at the place that reports it,
and at no other task.

## Main definitions

* `EntryTree.fileCodes` — the codes of what is found in the files of a leaf
* `Pass.plainCodes` — the codes of the tasks that need no condition tree
* `Pass.LegacyTask`, `Pass.LeafTask`, `Pass.RootTask` — the tasks of legacy resolution, of leaves, and of
  root entries
* `Pass.Planned` — the tasks of a pass, by where they come from

## Main results

* `EntryTree.reports_task` — the codes of a leaf and of its files
* `Pass.planned_of_mem` — the tasks of a pass come from nowhere else
* `Pass.task_cases` — what the tasks of a pass may report
-/

namespace PackageLint

variable {ctx : Context}

theorem Task.Only.imp {P P' : Diagnostic → Prop} {task : Task} (h : task.Only P)
    (hP : ∀ d, P d → P' d) : task.Only P' :=
  Check.Meets.imp h hP fun _ hbatch check hcheck => (hbatch check hcheck).imp hP fun _ => id

theorem Task.reports_single {codes : List Code} {check : Check Unit} (h : check.Reports codes)
    (label : String) : (Task.single label check).Reports codes :=
  Task.only_single h label

theorem Task.Reports.mono {codes codes' : List Code} {task : Task} (h : task.Reports codes)
    (hcodes : ∀ code ∈ codes, code ∈ codes') : task.Reports codes' :=
  Task.Only.imp h fun d => hcodes d.code

/-! ### Leaves -/

namespace EntryTree

/-- The codes of what is found in the files of a leaf. -/
def fileCodes (field : EntryField) : List Code :=
  .entry field .moduleShouldBeEsm :: EntryChecks.readCodes ++ FileFormat.codes

variable {entry : EntryTree} {target : Crawl.Target} {location : Location} {value : String}

theorem reports_checkContent (path content value : String) (afterNode : Bool)
    (globbed : Option String) :
    (entry.checkContent path content value location afterNode globbed).Reports
      (fileCodes entry.field) := by
  rw [checkContent]
  split
  · exact .done trivial
  · split
    · split
      · exact Check.only_add (by simp [fileCodes])
      · exact .done trivial
    · split
      · exact .done trivial
      · refine (FileFormat.only_check _ _ _ _ _ fun _ _ => ?_).bind fun _ _ => .done trivial
        exact List.mem_append_right _ (FileFormat.code_mismatch _ _ _ _ _)

/-- The codes of what the check that a leaf leaves for a file finds. -/
theorem LeavesCheck.reports {check : Check Unit} (h : LeavesCheck ctx entry target value check) :
    check.Reports (fileCodes entry.field) := by
  have hread : ∀ d : Diagnostic, d.code ∈ EntryChecks.readCodes → d.location = target.location →
      d.code ∈ fileCodes entry.field :=
    fun d hcode _ => List.mem_append_left _ (List.mem_cons_of_mem _ hcode)
  cases h with
  | file path globbed =>
    refine (EntryChecks.only_readEntry hread path []).bind fun text _ => ?_
    cases text with
    | none => exact .done trivial
    | some content => exact reports_checkContent path content value target.afterNode globbed
  | presence path => exact (EntryChecks.only_readEntry hread path []).bind fun _ _ => .done trivial

/-- The codes of what a leaf and the checks that it leaves find. -/
theorem reports_task (ctx : Context) (entry : EntryTree) (target : Crawl.Target) :
    (entry.task ctx target).Reports (targetCodes entry.field ++ fileCodes entry.field) := by
  refine (meets_checkTarget fun _ hcode _ => List.mem_append_left _ hcode).imp (fun _ => id)
    fun batch hbatch check hcheck => ?_
  obtain ⟨value, hleft⟩ := hbatch check hcheck
  exact hleft.reports.imp (fun _ hcode => List.mem_append_right _ hcode) fun _ => id

end EntryTree

/-! ### Fields and files -/

namespace Pass

variable {task : Task}

/-- The codes of the tasks that need no condition tree. -/
def plainCodes : List Code :=
  [.useFiles, .useLicense, .implicitIndexJsInvalidFormat] ++ EntryChecks.mainCodes
    ++ EntryChecks.moduleCodes ++ EntryChecks.knownCodes ++ AllFiles.codes
    ++ EntryChecks.commandCodes

/-- The codes of the tasks that look at the entry points of legacy resolution. -/
def legacyTaskCodes : List Code :=
  .implicitIndexJsInvalidFormat :: EntryChecks.mainCodes ++ EntryChecks.moduleCodes

/-- The tasks that look at the entry points of legacy resolution. -/
inductive LegacyTask (ctx : Context) (fields : Fields) : Task → Prop
  | index : LegacyTask ctx fields (.single "implicit-index" (PackageChecks.checkIndex ctx))
  | main (hgiven : ¬fields.main.1.isNull = true) :
      LegacyTask ctx fields
        (.single "main" (EntryChecks.checkMain ctx fields.main.1 fields.main.2 fields.hasExports))
  | module (hgiven : ¬fields.module.1.isNull = true) :
      LegacyTask ctx fields
        (.single "module"
          (EntryChecks.checkModule ctx fields.module.1 fields.module.2 fields.hasExports))

theorem legacyTask_of_mem {fields : Fields} (h : task ∈ (legacyPlan ctx fields).tasks) :
    LegacyTask ctx fields task := by
  rw [tasks_legacyPlan, List.mem_append, List.mem_append] at h
  rcases h with (h | h) | h
  · split at h
    · obtain rfl := List.mem_singleton.mp h
      exact .index
    · simp at h
  · split at h
    · simp at h
    next hgiven =>
      obtain rfl := List.mem_singleton.mp h
      exact .main hgiven
  · split at h
    · simp at h
    next hgiven =>
      obtain rfl := List.mem_singleton.mp h
      exact .module hgiven

theorem LegacyTask.reports {fields : Fields} (h : LegacyTask ctx fields task) :
    task.Reports legacyTaskCodes := by
  cases h with
  | index => exact (Task.reports_single PackageChecks.reports_checkIndex _).mono (by decide)
  | main _ =>
    have hmain : (EntryChecks.checkMain ctx fields.main.1 fields.main.2 fields.hasExports).Reports
        EntryChecks.mainCodes := EntryChecks.only_checkMain (fun _ hcode _ => hcode) _ _
    exact (Task.reports_single hmain _).mono (by decide)
  | module _ => exact (Task.reports_single (EntryChecks.reports_checkModule _ _ _) _).mono (by decide)

theorem reports_legacyTasks {fields : Fields} (h : task ∈ (legacyPlan ctx fields).tasks) :
    task.Reports legacyTaskCodes := (legacyTask_of_mem h).reports

theorem reports_knownTasks (h : task ∈ (EntryChecks.knownFields ctx).tasks) :
    task.Reports EntryChecks.knownCodes := by
  simp only [EntryChecks.knownFields, Plan.tasks_concat] at h
  obtain ⟨plan, hplan, ht⟩ := List.mem_flatMap.mp h
  obtain ⟨field, -, rfl⟩ := List.mem_map.mp hplan
  exact EntryChecks.reports_knownField ht

theorem reports_binTasks {value : Json} {location : Location}
    (h : task ∈ (EntryChecks.binField ctx value location).tasks) :
    task.Reports EntryChecks.commandCodes := by
  have hcommand : ∀ {location : Location} {path : String},
      task ∈ (EntryChecks.command ctx path location).tasks →
      task.Reports EntryChecks.commandCodes := by
    intro location path h
    obtain rfl := List.mem_singleton.mp h
    exact Task.only_single (EntryChecks.only_checkCommand (fun _ hcode _ => hcode) _) _
  cases value with
  | str path => exact hcommand h
  | obj fields =>
    simp only [EntryChecks.binField, Plan.tasks_concat] at h
    obtain ⟨plan, hplan, ht⟩ := List.mem_flatMap.mp h
    obtain ⟨⟨name, value⟩, hmem, rfl⟩ := List.mem_map.mp hplan
    simp only at ht
    split at ht
    · exact hcommand ht
    · simp [Plan.finding] at ht
  | _ => simp [EntryChecks.binField] at h

/-! ### Where tasks come from -/

/-- The task of a leaf of the condition tree that a manifest gives under `exports` or `imports`. -/
inductive LeafTask (ctx : Context) : Task → Prop
  | leaf {field : String} {entry : EntryTree} {target : Crawl.Target}
      (hset : (ctx.manifest.published field).1.isSet = true)
      (htree : entry.tree = ConditionTree.ofJson (ctx.manifest.published field).1)
      (hlocation : entry.location = (ctx.manifest.published field).2)
      (htarget : target ∈ Crawl.targets entry.field entry.location entry.tree) :
      LeafTask ctx (entry.task ctx target)

/-- The check of the declarations of the root entry that a manifest gives under `exports`. -/
inductive RootTask (ctx : Context) : Task → Prop
  | root {root : Declarations.Root}
      (hset : (ctx.manifest.published "exports").1.isSet = true)
      (hroot : Declarations.root? (ConditionTree.ofJson (ctx.manifest.published "exports").1)
        (ctx.manifest.published "exports").2 = some root) :
      RootTask ctx (.single "types-exported" (Declarations.check ctx root))

theorem LeafTask.reports (h : LeafTask ctx task) :
    ∃ field, task.Reports (EntryTree.targetCodes field ++ EntryTree.fileCodes field) := by
  obtain @⟨-, entry, target, -, -, -, -⟩ := h
  exact ⟨entry.field, entry.reports_task ctx target⟩

theorem RootTask.reports (h : RootTask ctx task) : task.Reports Declarations.codes := by
  obtain ⟨-, -⟩ := h
  exact Task.reports_single (Declarations.only_check fun _ _ _ _ hcode _ => hcode) _

/-- The tasks of a pass, by where they come from. -/
inductive Planned (ctx : Context) : Task → Prop
  | files {task : Task} (h : task ∈ (PackageChecks.filesField ctx).tasks) : Planned ctx task
  | license {task : Task} (h : task ∈ (PackageChecks.licenseField ctx).tasks) : Planned ctx task
  | legacy {task : Task} (h : LegacyTask ctx (Fields.of ctx.manifest) task) : Planned ctx task
  | known {task : Task} {field : String} (h : task ∈ (EntryChecks.knownField ctx field).tasks) :
      Planned ctx task
  | browser {entry : String × Location} (hset : (ctx.manifest.published "browser").1.isSet = true)
      (hentry : entry ∈ EntryChecks.nestedStrings (ctx.manifest.published "browser").2
        (ctx.manifest.published "browser").1) :
      Planned ctx (EntryChecks.browserTask ctx entry)
  | leaf {task : Task} (h : LeafTask ctx task) : Planned ctx task
  | root {task : Task} (h : RootTask ctx task) : Planned ctx task
  | scan {task : Task}
      (h : task ∈ (AllFiles.plan ctx (checkedPaths ctx (Fields.of ctx.manifest))).tasks) :
      Planned ctx task
  | bin {task : Task} (hset : (ctx.manifest.published "bin").1.isSet = true)
      (h : task ∈ (EntryChecks.binField ctx (ctx.manifest.published "bin").1
        (ctx.manifest.published "bin").2).tasks) :
      Planned ctx task

theorem planned_of_mem_exportsPlan (h : task ∈ (exportsPlan ctx (Fields.of ctx.manifest)).tasks) :
    Planned ctx task := by
  rw [exportsPlan] at h
  split at h
  next hset =>
    rw [Plan.tasks_append, List.mem_append] at h
    rcases h with h | h
    · obtain ⟨target, htarget, rfl⟩ := List.mem_map.mp h
      exact .leaf (.leaf hset rfl rfl htarget)
    · rw [Declarations.plan] at h
      split at h
      next root hroot =>
        obtain rfl := List.mem_singleton.mp h
        exact .root (.root hset hroot)
      next => simp at h
  next => exact .scan h

theorem planned_of_mem_importsPlan (h : task ∈ (importsPlan ctx (Fields.of ctx.manifest)).tasks) :
    Planned ctx task := by
  rw [importsPlan] at h
  split at h
  next hset =>
    split at h
    · obtain ⟨target, htarget, rfl⟩ := List.mem_map.mp h
      exact .leaf (.leaf hset rfl rfl htarget)
    · simp [Plan.finding] at h
  next => simp at h

/-- The tasks of a pass come from nowhere else. -/
theorem planned_of_mem (h : task ∈ (plan ctx).tasks) : Planned ctx task := by
  rw [tasks_plan] at h
  simp only [List.mem_append] at h
  rcases h with h | h | h | h | h | h | h | h
  · exact .files h
  · exact .license h
  · exact .legacy (legacyTask_of_mem h)
  · simp only [EntryChecks.knownFields, Plan.tasks_concat] at h
    obtain ⟨plan, hplan, h⟩ := List.mem_flatMap.mp h
    obtain ⟨field, -, rfl⟩ := List.mem_map.mp hplan
    exact .known h
  · split at h
    next hset =>
      obtain ⟨entry, hentry, rfl⟩ := List.mem_map.mp h
      exact .browser hset hentry
    next => simp at h
  · exact planned_of_mem_exportsPlan h
  · split at h
    next hset => exact .bin hset h
    next => simp at h
  · exact planned_of_mem_importsPlan h

/-- A task of a pass is that of a leaf, that of a root entry, or reports plain codes only. -/
theorem task_cases (h : task ∈ (plan ctx).tasks) :
    LeafTask ctx task ∨ RootTask ctx task ∨ task.Reports plainCodes := by
  cases planned_of_mem h with
  | leaf h => exact Or.inl h
  | root h => exact Or.inr (Or.inl h)
  | files h => exact Or.inr (Or.inr ((PackageChecks.reports_filesField h).mono (by decide)))
  | license h => exact Or.inr (Or.inr ((PackageChecks.reports_licenseField h).mono (by decide)))
  | legacy h => exact Or.inr (Or.inr (h.reports.mono (by decide)))
  | known h => exact Or.inr (Or.inr ((EntryChecks.reports_knownField h).mono (by decide)))
  | browser _ _ => exact Or.inr (Or.inr ((EntryChecks.reports_browserTask _).mono (by decide)))
  | scan h => exact Or.inr (Or.inr ((AllFiles.reports_scan h).mono (by decide)))
  | bin _ h => exact Or.inr (Or.inr ((reports_binTasks h).mono (by decide)))

/-- What a pass finds and the manifest does not show by itself comes from a task. -/
theorem exists_task_of_mem {tree : FileTree} {d : Diagnostic}
    (hd : d ∈ (runPlan tree (plan ctx)).findings) (hcode : d.code ∉ planCodes) :
    ∃ task ∈ (plan ctx).tasks, d ∈ task.findings tree := by
  rw [findings_runPlan, List.mem_append] at hd
  rcases hd with hd | hd
  · exact absurd (code_of_mem_planFindings hd) hcode
  · exact List.mem_flatMap.mp hd

end Pass

end PackageLint
