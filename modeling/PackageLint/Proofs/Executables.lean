import PackageLint.Proofs.FlowFiles
import PackageLint.Proofs.Levels
import PackageLint.Proofs.ModuleStatements
import PackageLint.Proofs.RepeatedFindings
import PackageLint.Proofs.TaskCodes

/-!
# Which commands are reported as not executable

A shell can run the file of a command when the file starts with a shebang. The check of commands looks
for the shebang in the whole text, so a file that mentions one further down is taken for executable. Apart
from that the check is exact: it reports the commands whose file can be read and is code, each once,
whatever the level of the pass.

No other check of a pass reports this, which is read off the codes that each of them may report.

## Main definitions

* `Source.Shebang`, `Source.HoldsShebang` — a text starts with a shebang, or has one somewhere
* `FileTree.CommandText` — the text of a command whose file is code

## Main results

* `Source.hasShebang_iff` — which texts pass for executable
* `Pass.ofCodes_executable` — what the check of commands adds to a pass
* `Pass.not_executable_exact` — the commands that a pass reports, and when these are the right ones
-/

namespace PackageLint

/-! ### Shebangs -/

namespace Source

open Text

variable {cs : List Char}

/-- The shebang of a command starts the text. -/
inductive Shebang : List Char → Prop
  | mk {blanks rest : List Char} (hblanks : ∀ b ∈ blanks, isBlank b = true) :
    Shebang ("#!".toList ++ (blanks ++ ("/usr/bin/env".toList ++ rest)))

/-- The shebang of a command stands somewhere in the text. -/
def HoldsShebang (cs : List Char) : Prop := ∃ before rest, cs = before ++ rest ∧ Shebang rest

theorem Shebang.holds (h : Shebang cs) : HoldsShebang cs := ⟨[], cs, rfl, h⟩

theorem shebangNext_iff : shebangNext cs = true ↔ Shebang cs := by
  have hnext : shebangNext cs
      = thenMatches "#!" (fun rest => "/usr/bin/env".toList.isPrefixOf (skipBlanks rest)) cs := rfl
  have hpath : ∃ x, "/usr/bin/env".toList.head? = some x ∧ isBlank x = false :=
    ⟨'/', rfl, by decide⟩
  rw [hnext, thenMatches_iff]
  simp only [List.isPrefixOf_iff_prefix, prefix_skipBlanks_iff hpath]
  constructor
  · rintro ⟨_, rfl, blanks, rest, hblanks, rfl⟩
    exact .mk hblanks
  · rintro @⟨blanks, rest, hblanks⟩
    exact ⟨_, rfl, blanks, rest, hblanks, rfl⟩

/-- A text passes for executable when the shebang stands anywhere in it. -/
theorem hasShebangChars_iff : hasShebangChars cs = true ↔ HoldsShebang cs := by
  induction cs with
  | nil =>
    constructor
    · simp [hasShebangChars]
    · rintro ⟨before, rest, heq, h⟩
      obtain ⟨-, rfl⟩ := List.append_eq_nil_iff.mp heq.symm
      cases h
  | cons c cs ih =>
    rw [hasShebangChars, Bool.or_eq_true, shebangNext_iff, ih]
    constructor
    · rintro (h | ⟨before, rest, rfl, h⟩)
      · exact h.holds
      · exact ⟨c :: before, rest, rfl, h⟩
    · rintro ⟨before, rest, heq, h⟩
      cases before with
      | nil => exact Or.inl (heq ▸ h)
      | cons b before =>
        obtain ⟨rfl, rfl⟩ := List.cons_eq_cons.mp heq
        exact Or.inr ⟨before, rest, rfl, h⟩

theorem hasShebang_iff {content : String} :
    hasShebang content = true ↔ HoldsShebang content.toList := hasShebangChars_iff

theorem isLintableName_iff {value : String} :
    isLintableName value = true
      ↔ hasEnd value ".js" = true ∨ hasEnd value ".mjs" = true ∨ hasEnd value ".cjs" = true := by
  simp [isLintableName, endsInOneOf]

end Source

/-! ### One command -/

variable {tree : FileTree} {ctx : Context}

namespace EntryChecks

/-- The finding that the file of a command has no shebang. -/
def notExecutable (location : Location) : Diagnostic :=
  { code := .binFileNotExecutable, severity := .error, location }

/-- Whether a command with a value is reported as not executable. -/
def lacksShebang (tree : FileTree) (ctx : Context) (value : String) : Bool :=
  match tree.firstText? (Context.candidates (ctx.within value) Context.legacyExtensions) with
  | some (_, text) => Source.isLintableName value && !Source.hasShebang text
  | none => false

/-- The check of a command reports it as not executable when its file can be read, is code, and has no
shebang. -/
theorem ofCodes_checkCommand (h : tree.TakesAnyPath) (value : String) (location : Location) :
    ofCodes [.binFileNotExecutable] ((checkCommand ctx value location).findings tree)
      = if lacksShebang tree ctx value then [notExecutable location] else [] := by
  have hread : ofCodes [.binFileNotExecutable] ((ctx.readEntry (ctx.within value) location
      Context.legacyExtensions).findings tree) = [] :=
    ofCodes_eq_nil fun d hd => by
      have hcodes : ∀ code ∈ readCodes, code ∉ [Code.binFileNotExecutable] := by decide
      exact hcodes _ ((reports_readEntry _ _ _).of_mem hd)
  have hformat : ∀ text, ofCodes [.binFileNotExecutable]
      (((FileFormat.check (ctx.within value) text location).bind fun _ =>
        (pure () : Check Unit)).findings tree) = [] := by
    intro text
    rw [Check.findings_bind_of_silent _ fun _ => rfl]
    refine ofCodes_eq_nil fun d hd => ?_
    have hcodes : ∀ code ∈ FileFormat.codes, code ∉ [Code.binFileNotExecutable] := by decide
    exact hcodes _ ((FileFormat.reports_check _ _ _ _ _).of_mem hd)
  rw [checkCommand, Check.bind_eq, Check.findings_bind, ofCodes_append, hread, List.nil_append,
    Check.result, Context.run_readEntry h, lacksShebang]
  cases tree.firstText? (Context.candidates (ctx.within value) Context.legacyExtensions) with
  | none => rfl
  | some found =>
    obtain ⟨file, text⟩ := found
    simp only [Option.map_some]
    split
    next hname =>
      split
      next hmark => simpa [hname, hmark] using hformat text
      next hmark =>
        have hreported : (Source.isLintableName value && !Source.hasShebang text) = true := by
          simp [hname, hmark]
        rw [if_pos hreported, Check.bind_eq, Check.findings, Check.run_add_bind]
        exact congrArg (notExecutable location :: ·) (hformat text)
    next hname =>
      simp only [hname, Bool.false_and, Bool.false_eq_true, if_false]
      rfl

end EntryChecks

/-- The text of a command: that of the file which its value resolves to, when the value has the ending of
code. -/
def FileTree.CommandText (tree : FileTree) (pkgDir : String) (manifest : Manifest) (p : Location)
    (text : String) : Prop :=
  ∃ v file, manifest.Commands p v
    ∧ (Text.hasEnd v ".js" = true ∨ Text.hasEnd v ".mjs" = true ∨ Text.hasEnd v ".cjs" = true)
    ∧ tree.Resolves (Path.join pkgDir v) file text

/-! ### Whole passes -/

theorem flatMap_findings_eq_nil {tasks : List Task} {reported codes : List Code}
    (h : ∀ task ∈ tasks, task.Reports reported) (hcodes : ∀ code ∈ reported, code ∉ codes) :
    ofCodes codes (tasks.flatMap (Task.findings tree)) = [] := by
  rw [ofCodes_flatMap]
  exact List.flatMap_eq_nil_iff.mpr fun task htask =>
    ofCodes_eq_nil fun _ hd => hcodes _ ((h task htask).code_mem hd)

namespace Pass

/-- Leaves of condition trees do not tell of commands. -/
theorem ofCodes_leaves (entry : EntryTree) :
    ofCodes [.binFileNotExecutable] ((entry.plan ctx).tasks.flatMap (Task.findings tree)) = [] := by
  have htasks : ∀ task ∈ (entry.plan ctx).tasks,
      task.Reports (EntryTree.targetCodes entry.field ++ EntryTree.fileCodes entry.field) := by
    intro task htask
    obtain ⟨target, -, rfl⟩ := List.mem_map.mp htask
    exact entry.reports_task ctx target
  exact flatMap_findings_eq_nil htasks (by cases entry.field <;> decide)

theorem ofCodes_exportsPlan (fields : Fields) :
    ofCodes [.binFileNotExecutable]
      ((exportsPlan ctx fields).tasks.flatMap (Task.findings tree)) = [] := by
  rw [exportsPlan]
  split
  · rw [Plan.tasks_append, List.flatMap_append, ofCodes_append, ofCodes_leaves,
      flatMap_findings_eq_nil (fun _ => Declarations.reports_plan) (by decide), List.append_nil]
  · exact flatMap_findings_eq_nil (fun _ => AllFiles.reports_scan) (by decide)

theorem ofCodes_importsPlan (fields : Fields) :
    ofCodes [.binFileNotExecutable]
      ((importsPlan ctx fields).tasks.flatMap (Task.findings tree)) = [] := by
  rw [importsPlan]
  split
  · split
    · exact ofCodes_leaves _
    · rfl
  · rfl

theorem ofCodes_browserPlan (fields : Fields) :
    ofCodes [.binFileNotExecutable]
      ((if fields.browser.1.isSet then
          EntryChecks.browserField ctx fields.browser.1 fields.browser.2 fields.hasExports
        else {}).tasks.flatMap (Task.findings tree)) = [] := by
  split
  · have htasks : ∀ task ∈ (EntryChecks.browserField ctx fields.browser.1 fields.browser.2
        fields.hasExports).tasks, task.Reports EntryChecks.readCodes := by
      intro task htask
      obtain ⟨entry, -, rfl⟩ := List.mem_map.mp htask
      exact EntryChecks.reports_browserTask entry
    exact flatMap_findings_eq_nil htasks (by decide)
  · rfl

/-- The commands that are not executable, in their order. -/
theorem ofCodes_binPlan (h : tree.TakesAnyPath) :
    ofCodes [.binFileNotExecutable]
      ((if (Fields.of ctx.manifest).bin.1.isSet then
          EntryChecks.binField ctx (Fields.of ctx.manifest).bin.1 (Fields.of ctx.manifest).bin.2
        else {}).tasks.flatMap (Task.findings tree))
      = (ctx.manifest.commands.filter fun command =>
          EntryChecks.lacksShebang tree ctx command.2).map fun command =>
            EntryChecks.notExecutable command.1 := by
  have hbin : (Fields.of ctx.manifest).bin = ctx.manifest.published "bin" := rfl
  rw [hbin, tasks_bin, List.flatMap_map, ofCodes_flatMap]
  simp only [Task.findings_single, EntryChecks.ofCodes_checkCommand h]
  induction ctx.manifest.commands with
  | nil => rfl
  | cons command rest ih =>
    rw [List.flatMap_cons, ih, List.filter_cons]
    split <;> rfl

/-- The commands that are not executable are reported by their own checks and by no other. -/
theorem ofCodes_executable (h : tree.TakesAnyPath) (ctx : Context) :
    ofCodes [.binFileNotExecutable] (runPlan tree (plan ctx)).findings
      = (ctx.manifest.commands.filter fun command =>
          EntryChecks.lacksShebang tree ctx command.2).map fun command =>
            EntryChecks.notExecutable command.1 := by
  have hplan : ofCodes [.binFileNotExecutable] (plan ctx).findings = [] :=
    ofCodes_eq_nil fun d hd hcode => by
      have hcodes : ∀ code ∈ [Code.binFileNotExecutable], code ∉ planCodes := by decide
      exact hcodes _ hcode (code_of_mem_planFindings hd)
  have hfiles : ofCodes [.binFileNotExecutable]
      ((PackageChecks.filesField ctx).tasks.flatMap (Task.findings tree)) = [] :=
    flatMap_findings_eq_nil (fun _ => PackageChecks.reports_filesField) (by decide)
  have hlicense : ofCodes [.binFileNotExecutable]
      ((PackageChecks.licenseField ctx).tasks.flatMap (Task.findings tree)) = [] :=
    flatMap_findings_eq_nil (fun _ => PackageChecks.reports_licenseField) (by decide)
  have hlegacy : ofCodes [.binFileNotExecutable]
      ((legacyPlan ctx (Fields.of ctx.manifest)).tasks.flatMap (Task.findings tree)) = [] :=
    flatMap_findings_eq_nil (fun _ => reports_legacyTasks) (by decide)
  have hknown : ofCodes [.binFileNotExecutable]
      ((EntryChecks.knownFields ctx).tasks.flatMap (Task.findings tree)) = [] :=
    flatMap_findings_eq_nil (fun _ => reports_knownTasks) (by decide)
  rw [findings_runPlan, ofCodes_append, hplan, List.nil_append, tasks_plan]
  simp only [List.flatMap_append, ofCodes_append, hfiles, hlicense, hlegacy, hknown,
    ofCodes_browserPlan, ofCodes_binPlan h, ofCodes_exportsPlan, ofCodes_importsPlan,
    List.nil_append, List.append_nil]

/-! ### Levels -/

theorem ofCodes_shown (codes : List Code) (level : Severity) (strict : Bool)
    (ds : List Diagnostic) :
    ofCodes codes (shown level strict ds) = shown level strict (ofCodes codes ds) := by
  have hcode : ∀ d : Diagnostic, (if strict then Log.escalateOne d else d).code = d.code := by
    intro d
    split <;> rfl
  rw [ofCodes, shown, List.filter_comm, List.filter_map]
  refine congrArg (List.filter _) (congrArg (List.map _) (List.filter_congr fun d _ => ?_))
  rw [Function.comp_apply, hcode]

/-- Findings that are errors are reported as they are found, at every level. -/
theorem ofCodes_resultOf {codes : List Code} {report : Report}
    (h : ∀ d ∈ ofCodes codes report.findings, d.severity = .error) (options : Options)
    (manifest : Manifest) :
    ofCodes codes (resultOf options manifest report).diagnostics = ofCodes codes report.findings := by
  have hnone : (logOf options []).atLevel options.level = [] := by
    rw [atLevel_logOf]
    rfl
  have herrors := @atLevel_logOf_append options _ h []
  rw [hnone, List.append_nil] at herrors
  change ofCodes codes ((logOf options report.findings).atLevel options.level) = _
  rw [atLevel_logOf, ofCodes_shown, ← atLevel_logOf, herrors]

/-! ### The commands that are reported -/

/-- The commands that are reported, by their texts. -/
theorem lacksShebang_iff {p : Location} :
    (∃ v, (p, v) ∈ ctx.manifest.commands ∧ EntryChecks.lacksShebang tree ctx v = true)
      ↔ ∃ text, tree.CommandText ctx.pkgDir ctx.manifest p text
          ∧ ¬Source.HoldsShebang text.toList := by
  have hlacks : ∀ v, EntryChecks.lacksShebang tree ctx v = true
      ↔ ∃ file text, tree.Resolves (ctx.within v) file text ∧ Source.isLintableName v = true
          ∧ ¬Source.HoldsShebang text.toList := by
    intro v
    rw [EntryChecks.lacksShebang]
    simp only [FileTree.Resolves]
    cases tree.firstText? (Context.candidates (ctx.within v) Context.legacyExtensions) with
    | none => simp
    | some found =>
      obtain ⟨file, text⟩ := found
      simp [← Source.hasShebang_iff]
  simp only [hlacks, Manifest.mem_commands, Source.isLintableName_iff]
  constructor
  · rintro ⟨v, hv, file, text, hresolves, hname, hmark⟩
    exact ⟨text, ⟨v, file, hv, hname, hresolves⟩, hmark⟩
  · rintro ⟨text, ⟨v, file, hv, hname, hresolves⟩, hmark⟩
    exact ⟨v, hv, file, text, hresolves, hname, hmark⟩

/-- A command has one text. -/
theorem commandText_unique {pkgDir : String} {manifest : Manifest}
    (hd : (Json.obj manifest).DistinctKeys) {p : Location} {text other : String}
    (h : tree.CommandText pkgDir manifest p text) (h' : tree.CommandText pkgDir manifest p other) :
    text = other := by
  obtain ⟨v, file, hv, -, hresolves⟩ := h
  obtain ⟨w, file', hw, -, hresolves'⟩ := h'
  have hsame : (p, v) = (p, w) := List.inj_on_of_nodup_map (Manifest.nodup_commands hd)
    (Manifest.mem_commands.mpr hv) (Manifest.mem_commands.mpr hw) rfl
  obtain ⟨-, rfl⟩ := Prod.mk.inj hsame
  obtain ⟨-, rfl⟩ := Prod.mk.inj (Option.some.inj (hresolves.symm.trans hresolves'))
  rfl

/-- Looking for a shebang anywhere finds the commands that do not start with one, just if no text of a
command holds one further down only. -/
theorem lacking_iff_notStarting {pkgDir : String} {manifest : Manifest}
    (hd : (Json.obj manifest).DistinctKeys) :
    (∀ p, (∃ text, tree.CommandText pkgDir manifest p text ∧ ¬Source.HoldsShebang text.toList)
        ↔ ∃ text, tree.CommandText pkgDir manifest p text ∧ ¬Source.Shebang text.toList)
      ↔ ∀ p text, tree.CommandText pkgDir manifest p text →
          Source.HoldsShebang text.toList → Source.Shebang text.toList := by
  constructor
  · intro hsame p text htext hholds
    by_contra hstarts
    obtain ⟨other, hother, hnone⟩ := (hsame p).mpr ⟨text, htext, hstarts⟩
    exact hnone (commandText_unique hd htext hother ▸ hholds)
  · intro hfirst p
    constructor
    · rintro ⟨text, htext, hnone⟩
      exact ⟨text, htext, fun hstarts => hnone hstarts.holds⟩
    · rintro ⟨text, htext, hstarts⟩
      exact ⟨text, htext, fun hholds => hstarts (hfirst p text htext hholds)⟩

/-- A pass reports as not executable exactly the commands whose file can be read, is code, and holds no
shebang anywhere, each once and at its place. These are the commands whose file does not start with a
shebang just if no file of a command holds a shebang further down only. -/
theorem not_executable_exact {tree : MemoryTree} {pkgDir : String} {manifest : Manifest}
    (hload : (Manifest.load pkgDir).result tree.toFileTree = .ok (.ok manifest))
    (options : Options) (workDir : String) :
    ∃ result, run tree.toFileTree pkgDir options workDir = .ok result
      ∧ let found := ofCodes [.binFileNotExecutable] result.diagnostics
        let places := found.map (·.location)
        places.Nodup
          ∧ (∀ d, d ∈ found ↔ ∃ p text, d = EntryChecks.notExecutable p
              ∧ tree.toFileTree.CommandText pkgDir manifest p text
              ∧ ¬Source.HoldsShebang text.toList)
          ∧ ((∀ p, p ∈ places ↔ ∃ text, tree.toFileTree.CommandText pkgDir manifest p text
                ∧ ¬Source.Shebang text.toList)
            ↔ ∀ p text, tree.toFileTree.CommandText pkgDir manifest p text →
                Source.HoldsShebang text.toList → Source.Shebang text.toList) := by
  let ctx := contextOf tree.toFileTree.depth workDir pkgDir manifest options
  have hd : (Json.obj manifest).DistinctKeys := Manifest.distinctKeys_load hload
  have hplan := ofCodes_executable tree.takesAnyPath ctx
  have herrors : ∀ d ∈ ofCodes [.binFileNotExecutable] (runPlan tree.toFileTree (plan ctx)).findings,
      d.severity = .error := by
    intro d hd
    rw [hplan] at hd
    obtain ⟨command, -, rfl⟩ := List.mem_map.mp hd
    rfl
  refine ⟨_, run_of_load hload _ _, ?_⟩
  rw [ofCodes_resultOf herrors, hplan]
  intro found places
  have hplaces : places = (manifest.commands.filter fun command =>
      EntryChecks.lacksShebang tree.toFileTree ctx command.2).map Prod.fst := List.map_map
  have hmem : ∀ p, p ∈ places ↔ ∃ text, tree.toFileTree.CommandText pkgDir manifest p text
      ∧ ¬Source.HoldsShebang text.toList := by
    intro p
    refine Iff.trans ?_ (@lacksShebang_iff tree.toFileTree ctx p)
    rw [hplaces]
    simp [ctx, contextOf]
  have hfound : ∀ d, d ∈ found ↔ ∃ p text, d = EntryChecks.notExecutable p
      ∧ tree.toFileTree.CommandText pkgDir manifest p text
      ∧ ¬Source.HoldsShebang text.toList := by
    intro d
    simp only [exists_and_left, ← hmem, hplaces, List.mem_map, found]
    constructor
    · rintro ⟨command, hcommand, rfl⟩
      exact ⟨command.1, rfl, command, hcommand, rfl⟩
    · rintro ⟨-, rfl, command, hcommand, rfl⟩
      exact ⟨command, hcommand, rfl⟩
  refine ⟨?_, hfound, ?_⟩
  · rw [hplaces]
    exact (Manifest.nodup_commands hd).sublist (List.filter_sublist.map _)
  · simp only [hmem]
    exact lacking_iff_notStarting hd

/-- A command that mentions a shebang in a comment is not reported. -/
theorem mentioned_shebang_passes :
    let text := "console.log(1)\n// #!/usr/bin/env node\n"
    ∃ tree result,
      MemoryTree.ofFiles [("/p/package.json", "\x7b\"bin\":\"./cli.js\"\x7d"), ("/p/cli.js", text)]
        = .ok tree
      ∧ run tree.toFileTree "/p" {} "/" = .ok result
      ∧ tree.toFileTree.CommandText "/p" [("bin", .str "./cli.js")] ["bin"] text
      ∧ ¬Source.Shebang text.toList
      ∧ ["bin"] ∉ (ofCodes [.binFileNotExecutable] result.diagnostics).map (·.location) := by
  intro text
  let files := [("/p/package.json", "\x7b\"bin\":\"./cli.js\"\x7d"), ("/p/cli.js", text)]
  let tree : MemoryTree := { files, dirs := [("/", ["p"]), ("/p", ["package.json", "cli.js"])] }
  let manifest : Manifest := [("bin", .str "./cli.js")]
  have htree : MemoryTree.ofFiles files = .ok tree := by cbv
  have hload : (Manifest.load "/p").result tree.toFileTree = .ok (.ok manifest) := by cbv
  obtain ⟨result, hrun, -, hfound, -⟩ := not_executable_exact hload {} "/"
  have hread : tree.toFileTree.contents "/p/cli.js" = .ok text := by cbv
  have hjoin : Path.join "/p" "./cli.js" = "/p/cli.js" := by decide +kernel
  have htext : tree.toFileTree.CommandText "/p" manifest ["bin"] text := by
    refine ⟨"./cli.js", "/p/cli.js", .single (by decide) rfl, Or.inl (by decide), ?_⟩
    rw [hjoin]
    exact FileTree.firstText?_cons_of_contents hread _
  have hmention : Source.HoldsShebang text.toList := Source.hasShebang_iff.mp (by decide +kernel)
  have hstart : ¬Source.Shebang text.toList := by
    rw [← Source.shebangNext_iff]
    decide +kernel
  refine ⟨tree, result, htree, hrun, htext, hstart, fun hp => ?_⟩
  obtain ⟨d, hd, hplace⟩ := List.mem_map.mp hp
  obtain ⟨p, other, rfl, hother, hnone⟩ := (hfound d).mp hd
  obtain rfl : p = ["bin"] := hplace
  exact hnone (commandText_unique (Manifest.distinctKeys_load hload) htext hother ▸ hmention)

end Pass

end PackageLint
