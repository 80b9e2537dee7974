import PackageLint.Proofs.TaskCodes

/-!
# Which files findings about formats are about

A finding about a format says that some file has one format where its path expects another. Nearly
every check that reports one reads the file from the path it judges, so that the file bears the
finding out. The exceptions are `main` and the commands: legacy resolution may complete their value
by an extension, and then the text comes from the completed path while the format is still expected of
the path that the value names.

## Main definitions

* `Diagnostic.JudgesFormat` — the findings about formats
* `FileTree.Bears` — some file has the format, and expects the format, that a finding tells
* `Manifest.Judges` — the values whose files are compared after legacy resolution

## Main results

* `Pass.bears_or_judged` — a finding is borne out by a file, or comes from such a value
* `Pass.format_findings_borne_iff` — when all findings of a pass are borne out
-/

namespace PackageLint

/-- The codes of findings that compare the format of a file with an expected one. -/
def judgingCodes : List Code :=
  [.fileInvalidFormat, .fileInvalidExplicitFormat, .implicitIndexJsInvalidFormat]

/-- Whether a finding compares the format of a file with an expected one. -/
def Diagnostic.JudgesFormat (d : Diagnostic) : Prop := d.code ∈ judgingCodes

/-- Some file has the format that a finding tells, at a path that expects what the finding tells. -/
def FileTree.Bears (tree : FileTree) (d : Diagnostic) : Prop :=
  ∃ path text, tree.contents path = .ok text
    ∧ Assoc.get? "actual_format" d.args = some (.format (Source.classify text))
    ∧ Assoc.get? "expect_format" d.args = some (.format (tree.expectedFormat path))

/-- A value resolves to the first file that can be read among the path it names and those that legacy
resolution completes it to. -/
def FileTree.Resolves (tree : FileTree) (path file text : String) : Prop :=
  tree.firstText? (Context.candidates path Context.legacyExtensions) = some (file, text)

/-- A path that cannot be read is judged by the text of another file, whose format contradicts the one
expected of the path, while no file has the one format where the other is expected. -/
structure FileTree.Misjudges (tree : FileTree) (path file text : String) : Prop where
  unreadable : ¬ tree.Readable path
  resolves : tree.Resolves path file text
  mismatch : (Source.classify text).mismatch (tree.expectedFormat path) = true
  unborne : ∀ other content, tree.contents other = .ok content →
    ¬ (Source.classify content = Source.classify text
      ∧ tree.expectedFormat other = tree.expectedFormat path)

/-- The commands of a manifest: `bin`, or what it holds. -/
inductive Manifest.Commands (manifest : Manifest) : Location → String → Prop
  | single {p : Location} {v : String} (hset : v ≠ "")
      (h : manifest.published "bin" = (.str v, p)) : manifest.Commands p v
  | named {fields : Json.Fields} {name v : String}
      (hobj : (manifest.published "bin").1 = .obj fields) (h : (name, .str v) ∈ fields) :
      manifest.Commands ((manifest.published "bin").2 ++ [name]) v

/-- The values of a manifest whose files are compared after legacy resolution: `main`, and the
commands. -/
def Manifest.Judges (manifest : Manifest) (p : Location) (v : String) : Prop :=
  manifest.published "main" = (.str v, p) ∨ manifest.Commands p v

variable {tree : FileTree} {ctx : Context} {d : Diagnostic}

/-! ### Findings that are borne out -/

theorem Check.Reports.not_judges {α : Type} {codes : List Code} {c : Check α}
    (h : c.Reports codes) (hcodes : ∀ code ∈ codes, code ∉ judgingCodes)
    (hd : d ∈ c.findings tree) : ¬ d.JudgesFormat :=
  hcodes _ (h.of_mem hd)

theorem Task.Reports.not_judges {codes : List Code} {task : Task} (h : task.Reports codes)
    (hcodes : ∀ code ∈ codes, code ∉ judgingCodes) (hd : d ∈ task.findings tree) :
    ¬ d.JudgesFormat :=
  hcodes _ (h.code_mem hd)

namespace FileFormat

theorem bears_mismatch_iff {path : String} {location : Location} {actual expected : Format}
    {shown : Option String} :
    tree.Bears (mismatch path location actual expected shown)
      ↔ ∃ other text, tree.contents other = .ok text ∧ Source.classify text = actual
          ∧ tree.expectedFormat other = expected := by
  have hactual : Assoc.get? "actual_format" (mismatch path location actual expected shown).args
      = some (.format actual) := by rfl
  have hexpected : Assoc.get? "expect_format" (mismatch path location actual expected shown).args
      = some (.format expected) := by rfl
  simp only [FileTree.Bears, hactual, hexpected, Option.some.injEq, Arg.format.injEq]
  exact exists_congr fun other => exists_congr fun text =>
    and_congr_right fun _ => and_congr eq_comm eq_comm

theorem mem_findings {path content : String} {location : Location} {leniency : Leniency}
    {shown : Option String} :
    d ∈ findings tree path content location leniency shown
      ↔ let actual := Source.classify content
        let expected := tree.expectedFormat path
        (actual.mismatch expected = true ∧ isExcused tree path actual leniency = false)
          ∧ d = mismatch path location actual expected shown := by
  simp [findings, List.mem_ite_nil_right]

/-- What a comparison reports is borne out by the file, when the text is that of the path. -/
theorem bears_of_mem_findings {path content : String} (hread : tree.contents path = .ok content)
    {location : Location} {leniency : Leniency} {shown : Option String}
    (hd : d ∈ findings tree path content location leniency shown) : tree.Bears d := by
  obtain ⟨-, rfl⟩ := mem_findings.mp hd
  exact bears_mismatch_iff.mpr ⟨path, content, hread, rfl, rfl⟩

theorem severity_mismatch (path : String) (location : Location) (actual expected : Format)
    (shown : Option String) :
    (mismatch path location actual expected shown).severity = .warning := rfl

theorem judgesFormat_mismatch (path : String) (location : Location) (actual expected : Format)
    (shown : Option String) : (mismatch path location actual expected shown).JudgesFormat :=
  List.mem_append_left [Code.implicitIndexJsInvalidFormat]
    (code_mismatch path location actual expected shown)

theorem misjudges_of_unborne {path file text : String} (hresolves : tree.Resolves path file text)
    {location : Location} (hd : d ∈ findings tree path text location) (hbears : ¬ tree.Bears d) :
    tree.Misjudges path file text := by
  obtain ⟨⟨hmismatch, -⟩, rfl⟩ := mem_findings.mp hd
  have hunborne := fun other content hread hfits =>
    hbears (bears_mismatch_iff.mpr ⟨other, content, hread, hfits⟩)
  refine ⟨?_, hresolves, hmismatch, hunborne⟩
  -- what can be read resolves to itself
  rintro ⟨content, hcontent⟩
  have hself := FileTree.firstText?_cons_of_contents hcontent
    (Context.legacyExtensions.map (Context.extend path))
  obtain ⟨-, rfl⟩ := Prod.mk.inj (Option.some.inj (hself.symm.trans hresolves))
  exact hunborne path content hcontent ⟨rfl, rfl⟩

theorem unborne_of_misjudges {path file text : String} (h : tree.Misjudges path file text)
    (location : Location) :
    ∃ d ∈ findings tree path text location, d.JudgesFormat ∧ ¬ tree.Bears d
      ∧ d.severity = .warning := by
  refine ⟨_, mem_findings.mpr ⟨⟨h.mismatch, rfl⟩, rfl⟩, judgesFormat_mismatch _ _ _ _ _, ?_, rfl⟩
  intro hbears
  obtain ⟨other, content, hread, hfits⟩ := bears_mismatch_iff.mp hbears
  exact h.unborne other content hread hfits

theorem findings_check_bind {β : Type} (path content : String) (location : Location)
    (leniency : Leniency) (shown : Option String) {f : Format → Check β}
    (hf : ∀ actual, (f actual).findings tree = []) :
    ((check path content location leniency shown).bind f).findings tree
      = findings tree path content location leniency shown := by
  rw [Check.findings_bind_of_silent _ hf, Check.findings, run_check]

end FileFormat

/-- The implicit entry point bears out what is found about it. -/
theorem PackageChecks.bears_checkIndex (h : tree.TakesAnyPath)
    (hd : d ∈ (checkIndex ctx).findings tree) : tree.Bears d := by
  rw [checkIndex, Check.bind_eq, Check.findings, Check.run_isThere_bind] at hd
  split at hd
  · rw [Check.bind_eq, Check.run_bind_of_quiet (Context.run_readQuietly h _)] at hd
    cases htext : tree.text? (ctx.within indexName) with
    | none => simp [htext] at hd
    | some content =>
      simp only [htext, Check.bind_eq] at hd
      rw [Check.run_bind_of_quiet (Manifest.run_expectedFormat tree _)] at hd
      split at hd
      · obtain rfl := List.mem_singleton.mp hd
        exact ⟨_, content, FileTree.text?_eq_some.mp htext, rfl, rfl⟩
      · exact absurd hd List.not_mem_nil
  · exact absurd hd List.not_mem_nil

/-- So does every file of the scan. -/
theorem AllFiles.bears_checkFile (h : tree.TakesAnyPath) {path shown : String}
    (hd : d ∈ (checkFile path shown).findings tree) : tree.Bears d := by
  rw [checkFile, Check.bind_eq, Check.findings,
    Check.run_bind_of_quiet (Context.run_readQuietly h _)] at hd
  cases htext : tree.text? path with
  | none => simp [htext] at hd
  | some content =>
    simp only [htext, Check.bind_eq] at hd
    split at hd
    · change d ∈ Check.findings tree _ at hd
      rw [FileFormat.findings_check_bind _ _ _ _ _ fun _ => rfl] at hd
      exact FileFormat.bears_of_mem_findings (FileTree.text?_eq_some.mp htext) hd
    · exact absurd hd List.not_mem_nil

namespace EntryTree

variable {entry : EntryTree} {target : Crawl.Target} {value : String}

theorem bears_checkContent {path content : String} (hread : tree.contents path = .ok content)
    {location : Location} {afterNode : Bool} {globbed : Option String}
    (hd : d ∈ (entry.checkContent path content value location afterNode globbed).findings tree)
    (hj : d.JudgesFormat) : tree.Bears d := by
  rw [checkContent] at hd
  split at hd
  · exact absurd hd List.not_mem_nil
  · split at hd
    · split at hd
      · obtain rfl := List.mem_singleton.mp hd
        exact absurd hj (by simp [Diagnostic.JudgesFormat, judgingCodes])
      · exact absurd hd List.not_mem_nil
    · split at hd
      · exact absurd hd List.not_mem_nil
      · rw [Check.bind_eq, FileFormat.findings_check_bind _ _ _ _ _ fun _ => rfl] at hd
        exact FileFormat.bears_of_mem_findings hread hd

theorem bears_fileCheck? (h : tree.TakesAnyPath) {path : String} {check : Check Unit}
    (hcheck : entry.fileCheck? ctx value target path = some check) (hd : d ∈ check.findings tree)
    (hj : d.JudgesFormat) : tree.Bears d := by
  have hread : d ∉ (ctx.readEntry path target.location).findings tree := fun hd =>
    (EntryChecks.reports_readEntry _ _ _).not_judges (by decide) hd hj
  rw [fileCheck?] at hcheck
  split at hcheck
  · simp at hcheck
  · split at hcheck
    · obtain rfl := Option.some.inj hcheck
      rcases Check.mem_findings_bind.mp hd with hd | ⟨text, htext, hd⟩
      · exact absurd hd hread
      · rw [Check.result, Context.run_readEntry h, Context.candidates, List.map_nil,
          FileTree.firstText?_singleton, Option.map_map] at htext
        obtain rfl := Except.ok.inj htext
        cases hcontent : tree.text? path with
        | none => simp [hcontent, Check.findings] at hd
        | some content =>
          rw [hcontent] at hd
          exact bears_checkContent (FileTree.text?_eq_some.mp hcontent) hd hj
    · split at hcheck
      · obtain rfl := Option.some.inj hcheck
        rw [checkPresence, Check.bind_eq, Check.findings_bind_of_silent _ fun _ => rfl] at hd
        exact absurd hd hread
      · simp at hcheck

/-- So does every file of a target. -/
theorem bears_task (h : tree.TakesAnyPath) (hl : tree.ListsDirs)
    (hd : d ∈ (entry.task ctx target).findings tree) (hj : d.JudgesFormat) : tree.Bears d := by
  rcases Task.mem_findings.mp hd with hd | ⟨batch, hbatch, check, hcheck, hd⟩
  · have hcodes : ∀ code ∈ targetCodes entry.field, code ∉ judgingCodes := by
      cases entry.field <;> decide
    exact absurd hj ((reports_checkTarget ctx entry target).not_judges hcodes hd)
  · obtain ⟨path, -, hfile⟩ := checks_of_result hl hbatch hcheck
    exact bears_fileCheck? h hfile hd hj

end EntryTree

/-! ### Findings about resolved values -/

/-- What comparing the text that a value resolves to with the format expected of the path that the value
names reports. -/
def FileTree.resolvedFindings (tree : FileTree) (ctx : Context) (value : String)
    (location : Location) : List Diagnostic :=
  match tree.firstText? (Context.candidates (ctx.within value) Context.legacyExtensions) with
  | some (_, content) =>
    if Source.isLintableName value then
      FileFormat.findings tree (ctx.within value) content location
    else []
  | none => []

theorem FileTree.mem_resolvedFindings {value : String} {location : Location} :
    d ∈ tree.resolvedFindings ctx value location
      ↔ ∃ file text, tree.Resolves (ctx.within value) file text
          ∧ Source.isLintableName value = true
          ∧ d ∈ FileFormat.findings tree (ctx.within value) text location := by
  rw [resolvedFindings]
  simp only [Resolves]
  cases tree.firstText? (Context.candidates (ctx.within value) Context.legacyExtensions) with
  | none => simp
  | some found =>
    obtain ⟨file, text⟩ := found
    cases Source.isLintableName value <;> simp

namespace EntryChecks

variable {value : Json} {location : Location}

theorem run_readLegacy (h : tree.TakesAnyPath) (ctx : Context) (v : String) (location : Location) :
    (readLegacy ctx (.str v) location).run tree
      = let found := tree.firstText? (Context.candidates (ctx.within v) Context.legacyExtensions)
        ⟨ctx.readFindings location found
            ++ (if found.isSome then Context.jsxFindings v location none else []),
          .ok (if Source.isLintableName v then found.map fun f => (v, f.2) else none)⟩ := by
  simp only [readLegacy, Check.bind_eq]
  rw [Context.run_readEntry_bind h]
  simp only
  cases tree.firstText? (Context.candidates (ctx.within v) Context.legacyExtensions) with
  | none => cases Source.isLintableName v <;> rfl
  | some f =>
    simp only [Option.map_some, Option.isSome_some, if_true]
    rw [Check.run_bind_of_ok (Context.run_rejectsJsx tree v location none)]
    cases hname : Source.isLintableName v with
    | true => simp [Context.jsxExtension?_of_isLintableName hname]
    | false => cases (Context.jsxExtension? v).isSome <;> simp

/-- The findings about the format of `main`. -/
theorem mem_checkMain (h : tree.TakesAnyPath) (hasExports : Bool) (hj : d.JudgesFormat) :
    d ∈ (checkMain ctx value location hasExports).findings tree
      ↔ ∃ v, value = .str v ∧ d ∈ tree.resolvedFindings ctx v location := by
  have hread : d ∉ (readLegacy ctx value location).findings tree := fun hd =>
    (reports_readLegacy value location).not_judges (by decide) hd hj
  have hrest : ∀ (path content : String),
      d ∈ ((FileFormat.check (ctx.within path) content location).bind fun actual =>
          if actual = .esm && !hasExports then
            Check.add { code := .hasEsmMainButNoExports, severity := .suggestion, location }
          else pure ()).findings tree
        ↔ d ∈ FileFormat.findings tree (ctx.within path) content location := by
    intro path content
    rw [Check.mem_findings_bind, Check.findings, FileFormat.run_check]
    refine or_iff_left ?_
    rintro ⟨actual, -, hd⟩
    split at hd
    · obtain rfl := List.mem_singleton.mp hd
      exact absurd hj (by simp [Diagnostic.JudgesFormat, judgingCodes])
    · exact absurd hd List.not_mem_nil
  rw [checkMain, Check.bind_eq, Check.mem_findings_bind, or_iff_right hread]
  cases value with
  | str v =>
    simp only [Json.str.injEq, exists_eq_left', Check.result, run_readLegacy h, Except.ok.injEq,
      FileTree.resolvedFindings]
    cases tree.firstText? (Context.candidates (ctx.within v) Context.legacyExtensions) with
    | none => simp [Check.findings]
    | some found =>
      cases Source.isLintableName v with
      | false => simp [Check.findings]
      | true => exact hrest v found.2
  | _ => simp [readLegacy, Check.result, Check.findings]

/-- The findings about the format of a command. -/
theorem mem_checkCommand (h : tree.TakesAnyPath) {v : String} (hj : d.JudgesFormat) :
    d ∈ (checkCommand ctx v location).findings tree
      ↔ d ∈ tree.resolvedFindings ctx v location := by
  have hread : d ∉ (ctx.readEntry (ctx.within v) location Context.legacyExtensions).findings tree :=
    fun hd => (reports_readEntry _ _ _).not_judges (by decide) hd hj
  rw [checkCommand, Check.bind_eq, Check.mem_findings_bind, or_iff_right hread]
  simp only [Check.result, Context.run_readEntry h, Except.ok.injEq, exists_eq_left',
    FileTree.resolvedFindings]
  cases tree.firstText? (Context.candidates (ctx.within v) Context.legacyExtensions) with
  | none => simp [Check.findings]
  | some found =>
    obtain ⟨file, content⟩ := found
    simp only [Option.map_some]
    cases Source.isLintableName v with
    | false => simp [Check.findings]
    | true =>
      have hformat : (((FileFormat.check (ctx.within v) content location).bind
          fun _ => (pure () : Check Unit)).run tree).findings
            = FileFormat.findings tree (ctx.within v) content location :=
        FileFormat.findings_check_bind _ _ _ _ _ fun _ => rfl
      simp only [if_true, Check.bind_eq, Check.findings]
      split
      · rw [hformat]
      · rw [Check.run_add_bind, hformat, List.mem_cons]
        refine or_iff_right ?_
        rintro rfl
        exact absurd hj (by simp [Diagnostic.JudgesFormat, judgingCodes])

end EntryChecks

/-! ### Findings of a pass -/

namespace Pass

theorem mem_runPlan {plan : Plan} (hplan : ∀ d ∈ plan.findings, ¬ d.JudgesFormat)
    (hj : d.JudgesFormat) :
    d ∈ (runPlan tree plan).findings ↔ ∃ task ∈ plan.tasks, d ∈ task.findings tree := by
  rw [findings_runPlan, List.mem_append, List.mem_flatMap]
  exact or_iff_right fun hd => hplan d hd hj

theorem plan_not_judges : ∀ d ∈ (plan ctx).findings, ¬ d.JudgesFormat := by
  intro d hd
  have hcodes : ∀ code ∈ planCodes, code ∉ judgingCodes := by decide
  exact hcodes _ (code_of_mem_planFindings hd)

/-- The tasks of `bin` are those of the commands. -/
theorem mem_binField {manifest : Manifest} {task : Task} :
    task ∈ (if (manifest.published "bin").1.isSet then
        EntryChecks.binField ctx (manifest.published "bin").1 (manifest.published "bin").2
      else {}).tasks
      ↔ ∃ p v, manifest.Commands p v
          ∧ task = .single p.label (EntryChecks.checkCommand ctx v p) := by
  constructor
  · intro ht
    split at ht
    next hset =>
      cases hbin : (manifest.published "bin").1 with
      | str v =>
        rw [hbin] at ht hset
        obtain rfl := List.mem_singleton.mp ht
        exact ⟨_, v, .single (by simpa [Json.isSet] using hset) (Prod.ext hbin rfl), rfl⟩
      | obj fields =>
        simp only [hbin, EntryChecks.binField, Plan.tasks_concat] at ht
        obtain ⟨plan, hplan, ht⟩ := List.mem_flatMap.mp ht
        obtain ⟨⟨name, value⟩, hfield, rfl⟩ := List.mem_map.mp hplan
        cases value with
        | str v =>
          obtain rfl := List.mem_singleton.mp ht
          exact ⟨_, v, .named hbin hfield, rfl⟩
        | _ => exact absurd ht List.not_mem_nil
      | _ =>
        rw [hbin] at ht
        exact absurd ht List.not_mem_nil
    next => exact absurd ht List.not_mem_nil
  · rintro ⟨p, v, hcommand, rfl⟩
    cases hcommand with
    | single hset h =>
      rw [h, if_pos (by simpa [Json.isSet] using hset)]
      exact List.mem_singleton_self _
    | named hobj h =>
      rw [if_pos (by rw [hobj]; rfl), hobj]
      simp only [EntryChecks.binField, Plan.tasks_concat]
      exact List.mem_flatMap.mpr ⟨_, List.mem_map.mpr ⟨_, h, rfl⟩, List.mem_singleton_self _⟩

/-- A finding about a format is borne out by a file, or is about the text that a value resolves to. -/
theorem bears_or_judged (h : tree.TakesAnyPath) (hl : tree.ListsDirs)
    (hd : d ∈ (runPlan tree (plan ctx)).findings) (hj : d.JudgesFormat) :
    tree.Bears d
      ∨ ∃ p v, ctx.manifest.Judges p v ∧ d ∈ tree.resolvedFindings ctx v p := by
  obtain ⟨task, htask, hd⟩ := (mem_runPlan plan_not_judges hj).mp hd
  cases planned_of_mem htask with
  | files ht => exact absurd hj ((PackageChecks.reports_filesField ht).not_judges (by decide) hd)
  | license ht => exact absurd hj ((PackageChecks.reports_licenseField ht).not_judges (by decide) hd)
  | legacy ht =>
    cases ht with
    | index =>
      rw [Task.findings_single] at hd
      exact Or.inl (PackageChecks.bears_checkIndex h hd)
    | main _ =>
      rw [Task.findings_single, EntryChecks.mem_checkMain h _ hj] at hd
      obtain ⟨v, hv, hd⟩ := hd
      exact Or.inr ⟨_, v, Or.inl (Prod.ext hv rfl), hd⟩
    | module _ =>
      rw [Task.findings_single] at hd
      exact absurd hj ((EntryChecks.reports_checkModule _ _ _).not_judges (by decide) hd)
  | known ht => exact absurd hj ((EntryChecks.reports_knownField ht).not_judges (by decide) hd)
  | browser _ _ => exact absurd hj ((EntryChecks.reports_browserTask _).not_judges (by decide) hd)
  | leaf ht =>
    obtain ⟨-, -, -, -⟩ := ht
    exact Or.inl (EntryTree.bears_task h hl hd hj)
  | root ht => exact absurd hj (ht.reports.not_judges (by decide) hd)
  | scan ht =>
    obtain rfl := List.mem_singleton.mp ht
    rcases Task.mem_findings.mp hd with hd | ⟨batch, hbatch, check, hcheck, hd⟩
    · have hcode := (AllFiles.meets_scan (fun _ hcode _ => hcode) _).of_mem hd
      exact absurd hj (by simp [Diagnostic.JudgesFormat, judgingCodes, hcode])
    · obtain ⟨path, shown, rfl⟩ :=
        (AllFiles.meets_scan (fun _ hcode _ => hcode) _).of_result hbatch check hcheck
      exact Or.inl (AllFiles.bears_checkFile h hd)
  | bin hset ht =>
    obtain ⟨p, v, hcommand, rfl⟩ := mem_binField.mp (by rwa [if_pos hset])
    rw [Task.findings_single, EntryChecks.mem_checkCommand h hj] at hd
    exact Or.inr ⟨p, v, Or.inr hcommand, hd⟩

/-- What is found about a resolved value is among the findings. -/
theorem mem_of_judged (h : tree.TakesAnyPath) {p : Location} {v : String}
    (hv : ctx.manifest.Judges p v) (hd : d ∈ tree.resolvedFindings ctx v p)
    (hj : d.JudgesFormat) : d ∈ (runPlan tree (plan ctx)).findings := by
  refine (mem_runPlan plan_not_judges hj).mpr ?_
  rw [tasks_plan]
  simp only [tasks_legacyPlan, List.mem_append]
  rcases hv with hmain | hcommand
  · refine ⟨.single "main" (EntryChecks.checkMain ctx (.str v) p (Fields.of ctx.manifest).hasExports),
      Or.inr (Or.inr (Or.inl (Or.inl (Or.inr ?_)))), ?_⟩
    · simp only [Fields.of, hmain]
      exact List.mem_singleton_self _
    · rw [Task.findings_single, EntryChecks.mem_checkMain h _ hj]
      exact ⟨v, rfl, hd⟩
  · refine ⟨_, Or.inr (Or.inr (Or.inr (Or.inr (Or.inr (Or.inr (Or.inl
      (mem_binField.mpr ⟨p, v, hcommand, rfl⟩))))))), ?_⟩
    rw [Task.findings_single, EntryChecks.mem_checkCommand h hj]
    exact hd

/-- A finding that no file bears out is about a path that is judged by the text of another file. -/
theorem misjudged_of_unborne (h : tree.TakesAnyPath) (hl : tree.ListsDirs)
    (hd : d ∈ (runPlan tree (plan ctx)).findings) (hj : d.JudgesFormat) (hbears : ¬ tree.Bears d) :
    d.severity = .warning ∧ ∃ p v file text, ctx.manifest.Judges p v
      ∧ Source.isLintableName v = true ∧ tree.Misjudges (ctx.within v) file text := by
  obtain ⟨p, v, hv, hd⟩ := (bears_or_judged h hl hd hj).resolve_left hbears
  obtain ⟨file, text, hresolves, hname, hd⟩ := FileTree.mem_resolvedFindings.mp hd
  refine ⟨?_, p, v, file, text, hv, hname, FileFormat.misjudges_of_unborne hresolves hd hbears⟩
  rw [(FileFormat.mem_findings.mp hd).2, FileFormat.severity_mismatch]

/-- A path that is judged so is reported, by a finding that no file bears out. -/
theorem unborne_of_misjudged (h : tree.TakesAnyPath) {p : Location} {v file text : String}
    (hv : ctx.manifest.Judges p v) (hname : Source.isLintableName v = true)
    (hm : tree.Misjudges (ctx.within v) file text) :
    ∃ d ∈ (runPlan tree (plan ctx)).findings, d.JudgesFormat ∧ ¬ tree.Bears d
      ∧ d.severity = .warning := by
  obtain ⟨d, hd, hj, hbears, hwarning⟩ := FileFormat.unborne_of_misjudges hm p
  have hresolved := FileTree.mem_resolvedFindings.mpr ⟨file, text, hm.resolves, hname, hd⟩
  exact ⟨d, mem_of_judged h hv hresolved hj, hj, hbears, hwarning⟩

/-! ### Results -/

/-- A finding as a result shows it. -/
def Options.shown (options : Options) (d : Diagnostic) : Diagnostic :=
  if options.strict then Log.escalateOne d else d

/-- Whether warnings are among what is shown. -/
def Options.showsWarnings (options : Options) : Prop :=
  options.strict = true ∨ options.level ≠ .error

theorem code_shown (options : Options) (d : Diagnostic) : (options.shown d).code = d.code := by
  rw [Options.shown]
  split <;> rfl

@[simp] theorem judgesFormat_shown (options : Options) :
    (options.shown d).JudgesFormat ↔ d.JudgesFormat := by
  rw [Options.shown]
  split <;> rfl

@[simp] theorem bears_shown (options : Options) : tree.Bears (options.shown d) ↔ tree.Bears d := by
  rw [Options.shown]
  split <;> rfl

theorem shown_warning_iff {options : Options} (hd : d.severity = .warning) :
    options.level.atLeast (options.shown d).severity = true ↔ options.showsWarnings := by
  rw [Options.showsWarnings, Options.shown]
  cases options.strict <;> cases options.level <;>
    simp [Log.escalateOne, hd, Severity.escalated, Severity.atLeast, Severity.weight]

/-- The findings of a result are those of the report, as its options show them. -/
theorem mem_diagnostics_resultOf {options : Options} {manifest : Manifest} {report : Report} :
    d ∈ (resultOf options manifest report).diagnostics
      ↔ (∃ found ∈ report.findings, options.shown found = d)
        ∧ options.level.atLeast d.severity = true := by
  rw [resultOf, logOf, Log.atLevel, List.mem_filter]
  refine and_congr_left fun _ => ?_
  simp only [Options.shown]
  cases options.strict <;> simp [Log.escalate, Log.addAll, Log.empty]

/-- A pass reports a finding about a format that no file bears out exactly where warnings are shown and
`main` or a command names a path that cannot be read and is judged by the text of another file. -/
theorem format_findings_borne_iff (tree : MemoryTree) {pkgDir : String} {manifest : Manifest}
    (hload : (Manifest.load pkgDir).result tree.toFileTree = .ok (.ok manifest))
    (options : Options) (workDir : String) :
    ∃ result, run tree.toFileTree pkgDir options workDir = .ok result
      ∧ ((∃ d ∈ result.diagnostics, d.JudgesFormat ∧ ¬ tree.toFileTree.Bears d)
        ↔ options.showsWarnings
          ∧ ∃ p v file text, manifest.Judges p v ∧ Source.isLintableName v = true
            ∧ tree.toFileTree.Misjudges (Path.join pkgDir v) file text) := by
  let ctx := contextOf tree.toFileTree.depth workDir pkgDir manifest options
  have h := tree.takesAnyPath
  refine ⟨_, run_of_load hload _ _, ?_⟩
  constructor
  · rintro ⟨d, hd, hj, hbears⟩
    obtain ⟨⟨found, hfound, rfl⟩, hlevel⟩ := mem_diagnostics_resultOf.mp hd
    rw [judgesFormat_shown] at hj
    rw [bears_shown] at hbears
    obtain ⟨hwarning, hmisjudged⟩ := misjudged_of_unborne h tree.listsDirs hfound hj hbears
    exact ⟨(shown_warning_iff hwarning).mp hlevel, hmisjudged⟩
  · rintro ⟨hshown, p, v, file, text, hv, hname, hm⟩
    obtain ⟨found, hfound, hj, hbears, hwarning⟩ :
        ∃ d ∈ (runPlan tree.toFileTree (plan ctx)).findings, d.JudgesFormat
          ∧ ¬ tree.toFileTree.Bears d ∧ d.severity = .warning := unborne_of_misjudged h hv hname hm
    refine ⟨options.shown found, mem_diagnostics_resultOf.mpr
      ⟨⟨found, hfound, rfl⟩, (shown_warning_iff hwarning).mpr hshown⟩, ?_, ?_⟩
    · rwa [judgesFormat_shown]
    · rwa [bears_shown]

/-- `main` resolves to a file with one more extension, and is judged by what it names itself. -/
theorem completed_main_misjudged :
    ∃ tree result,
      MemoryTree.ofFiles
          [("/p/package.json", "\x7b\"main\":\"./a.mjs\"\x7d"), ("/p/a.mjs.js", "module.exports = 1")]
        = .ok tree
      ∧ run tree.toFileTree "/p" {} "/" = .ok result
      ∧ ∃ d ∈ result.diagnostics, d.JudgesFormat ∧ ¬ tree.toFileTree.Bears d := by
  let files :=
    [("/p/package.json", "\x7b\"main\":\"./a.mjs\"\x7d"), ("/p/a.mjs.js", "module.exports = 1")]
  let tree : MemoryTree :=
    { files, dirs := [("/", ["p"]), ("/p", ["package.json", "a.mjs.js"])] }
  have hload : (Manifest.load "/p").result tree.toFileTree
      = .ok (.ok [("main", .str "./a.mjs")]) := by
    cbv
  obtain ⟨result, hrun, hiff⟩ := format_findings_borne_iff tree hload {} "/"
  have hpath : Path.join "/p" "./a.mjs" = "/p/a.mjs" := by decide +kernel
  have hactual : Source.classify "module.exports = 1" = .cjs := by decide +kernel
  have hexpected : tree.toFileTree.expectedFormat "/p/a.mjs" = .esm := by decide +kernel
  have hread : ∀ (path text : String), tree.toFileTree.contents path = .ok text →
      Path.normalize path = "/p/package.json" ∧ text = "\x7b\"main\":\"./a.mjs\"\x7d"
        ∨ Path.normalize path = "/p/a.mjs.js" ∧ text = "module.exports = 1" := by
    intro path text h
    have hmem := Assoc.mem_of_get? (MemoryTree.contents_eq_ok_iff.mp h).1
    simpa [tree, files] using hmem
  have htree : MemoryTree.ofFiles files = .ok tree := by cbv
  have hmain : Manifest.published [("main", .str "./a.mjs")] "main" = (.str "./a.mjs", ["main"]) := by
    rfl
  have hunreadable : tree.toFileTree.text? "/p/a.mjs" = none := by decide +kernel
  have hresolves : tree.toFileTree.Resolves "/p/a.mjs" "/p/a.mjs.js" "module.exports = 1" := by
    rw [FileTree.Resolves]
    decide +kernel
  have hname : Source.isLintableName "./a.mjs" = true := by decide
  suffices hm : tree.toFileTree.Misjudges "/p/a.mjs" "/p/a.mjs.js" "module.exports = 1" by
    rw [← hpath] at hm
    exact ⟨tree, result, htree, hrun,
      hiff.mpr ⟨Or.inr (by decide), _, _, _, _, Or.inl hmain, hname, hm⟩⟩
  refine ⟨FileTree.text?_eq_none.mp hunreadable, hresolves, ?_, ?_⟩
  · rw [hactual, hexpected]
    rfl
  rw [hactual, hexpected]
  rintro other content hcontent ⟨hcjs, hesm⟩
  rcases FileTree.expectedFormat_eq_esm hesm with hend | ⟨dir, manifest, hdir, hdeclares⟩
  · have hnormal : Path.normalize other = "/p/a.mjs.js" := by
      rcases hread other content hcontent with ⟨-, rfl⟩ | ⟨hnormal, -⟩
      · exact absurd hcjs (by decide +kernel)
      · exact hnormal
    -- the normal form of a path has the same ending
    have hmjs : Path.IsName ".mjs".toList := ⟨by decide, by decide, by decide, by decide⟩
    have hplatform : Path.IsName Manifest.platformEnding.toList :=
      ⟨by decide, by decide, by decide, by decide⟩
    rw [Text.dropEnd] at hend
    split at hend
    next hnative =>
      have hnative := Path.hasEnd_normalize hplatform hnative
      rw [hnormal] at hnative
      exact absurd hnative (by decide)
    next =>
      have hend := Path.hasEnd_normalize hmjs hend
      rw [hnormal] at hend
      exact absurd hend (by decide)
  · obtain ⟨text, htext, hmanifest⟩ := FileTree.manifestIn?_eq_some hdir
    have hdeclared : ((Manifest.ofText? text).map Manifest.declaresEsm).getD false = true := by
      simp [hmanifest, hdeclares]
    rcases hread _ text htext with ⟨-, rfl⟩ | ⟨-, rfl⟩ <;> exact absurd hdeclared (by decide +kernel)

end Pass

end PackageLint
