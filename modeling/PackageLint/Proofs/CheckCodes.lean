import PackageLint.Pass.Plan
import PackageLint.Proofs.ImportKeys
import PackageLint.Proofs.TargetFindings

/-!
# The codes and places that checks may report

Every check reports findings of a few codes only, all at the place it is handed, whatever the files
are. A theorem about the findings of one code can so pass over all checks that never report it, and
one about places needs no code.

## Main definitions

* `Check.Reports`, `Task.Reports` — the codes that a check, or a task, may report
* `Task.Only` — every finding of a task and of the checks it leaves has a property
* `RepositoryField.IsFound` — what may be found about a repository
* `Pass.Apparent` — what a manifest shows by itself, by where it comes from

## Main results

* `EntryChecks.only_checkMain`, `Declarations.only_check` and the others — a property of findings
  with the codes of a check, at its place, is one of everything that the check reports
* `EntryTree.reports_checkTarget` — the codes of a leaf before its files are looked at
* `Pass.findings_plan`, `Pass.tasks_plan` — what a manifest shows by itself, and the tasks it leaves
* `Pass.apparent_of_mem`, `Pass.code_of_mem_planFindings` — what the manifest shows by itself, and its
  codes
-/

namespace PackageLint

/-- Whether a check may report the given codes only. -/
abbrev Check.Reports {α : Type} (codes : List Code) (c : Check α) : Prop :=
  c.Only fun d => d.code ∈ codes

/-- Whether every finding that a task, or a check it leaves, may report has a property. -/
def Task.Only (P : Diagnostic → Prop) (task : Task) : Prop :=
  task.check.Meets P fun batch => ∀ check ∈ batch.checks, check.Only P

/-- Whether a task, with the checks it leaves, may report the given codes only. -/
def Task.Reports (codes : List Code) (task : Task) : Prop :=
  task.check.Meets (fun d => d.code ∈ codes) fun batch =>
    ∀ check ∈ batch.checks, check.Reports codes

variable {P : Diagnostic → Prop} {ctx : Context} {location : Location}

theorem Task.only_single {check : Check Unit} (h : check.Only P) (label : String) :
    (Task.single label check).Only P :=
  h.bind fun _ _ => .done fun _ hcheck => absurd hcheck List.not_mem_nil

/-- What a task reports on a tree is among what it may report. -/
theorem Task.Reports.code_mem {codes : List Code} {task : Task} (h : task.Reports codes)
    {tree : FileTree} {d : Diagnostic} (hd : d ∈ task.findings tree) : d.code ∈ codes :=
  Task.of_mem_findings h hd

/-! ### The package as a whole -/

namespace PackageChecks

theorem only_somePublished (paths : List String) : (somePublished ctx paths).Only P := by
  induction paths with
  | nil => exact .done trivial
  | cons path rest ih =>
    rw [somePublished]
    split
    · refine (Check.only_isThere _).bind fun there _ => ?_
      split
      · exact .done trivial
      · exact ih
    · exact ih

theorem only_filesField
    (h : ∀ d : Diagnostic, d.code ∈ [Code.useFiles] → d.location = wholePackage → P d)
    {task : Task} (ht : task ∈ (filesField ctx).tasks) : task.Only P := by
  rw [filesField] at ht
  split at ht
  · obtain rfl := List.mem_singleton.mp ht
    refine Task.only_single ((only_somePublished _).bind fun found _ => ?_) _
    split
    · exact Check.only_add (h _ (by simp) rfl)
    · exact .done trivial
  · simp at ht

theorem reports_filesField {task : Task} (h : task ∈ (filesField ctx).tasks) :
    task.Reports [.useFiles] :=
  only_filesField (fun _ hcode _ => hcode) h

theorem only_firstLicense (names : List String) : (firstLicense ctx names).Only P := by
  induction names with
  | nil => exact .done trivial
  | cons name rest ih =>
    refine (Check.only_isDir _).bind fun isDir _ => ?_
    split
    · exact ih
    · split
      · exact .done trivial
      · exact ih

theorem only_licenseField
    (h : ∀ d : Diagnostic, d.code ∈ [Code.useLicense] → d.location = wholePackage → P d)
    {task : Task} (ht : task ∈ (licenseField ctx).tasks) : task.Only P := by
  rw [licenseField] at ht
  split at ht
  · obtain rfl := List.mem_singleton.mp ht
    refine Task.only_single ((Check.only_readDir _).bind fun names _ =>
      (only_firstLicense names).bind fun found _ => ?_) _
    cases found with
    | none => exact .done trivial
    | some name => exact Check.only_add (h _ (by simp) rfl)
  · simp at ht

theorem reports_licenseField {task : Task} (h : task ∈ (licenseField ctx).tasks) :
    task.Reports [.useLicense] :=
  only_licenseField (fun _ hcode _ => hcode) h

theorem only_checkIndex
    (h : ∀ d : Diagnostic, d.code ∈ [Code.implicitIndexJsInvalidFormat] →
      d.location = wholePackage → P d) : (checkIndex ctx).Only P := by
  refine (Check.only_isThere _).bind fun there _ => ?_
  split
  · refine (Context.only_readQuietly _).bind fun text _ => ?_
    cases text with
    | none => exact .done trivial
    | some content =>
      simp only [Check.bind_eq]
      refine (Manifest.only_expectedFormat _).bind fun expected _ => ?_
      split
      · exact Check.only_add (h _ (by simp) rfl)
      · exact .done trivial
  · exact .done trivial

theorem reports_checkIndex : (checkIndex ctx).Reports [.implicitIndexJsInvalidFormat] :=
  only_checkIndex fun _ hcode _ => hcode

end PackageChecks

/-! ### Declarations and the scan of all files -/

namespace Declarations

variable {root : Root}

/-- The codes of findings about declarations. -/
def codes : List Code := [.exportsTypesInvalidFormat, .typesNotExported]

theorem only_codeFormat (code : Option ConditionTree.Resolved) : (codeFormat ctx code).Only P := by
  cases code with
  | none => exact .done trivial
  | some code =>
    rw [codeFormat, Check.bind_eq]
    refine (Check.only_isThere _).bind fun there _ => ?_
    split
    · rw [Check.bind_eq]
      exact (Manifest.only_expectedFormat _).bind fun _ _ => .done trivial
    · exact .done trivial

theorem only_checkFormat (condition : Condition) {found : ConditionTree.Resolved}
    (code : Option ConditionTree.Resolved)
    (h : ∀ d : Diagnostic, d.code ∈ codes → d.location = found.location → P d) :
    (checkFormat ctx condition found code).Only P := by
  simp only [checkFormat, Check.bind_eq]
  refine (Manifest.only_expectedDeclarationFormat _).bind fun actual _ =>
    (only_codeFormat code).bind fun ofCode _ => ?_
  split
  · exact .done trivial
  · exact Check.only_add (h _ (by simp [wrongFormat, codes]) rfl)

theorem only_checkAdjacent (condition : Condition) {found : ConditionTree.Resolved}
    (shipped : String)
    (h : ∀ d : Diagnostic, d.code ∈ codes → d.location = found.location → P d) :
    (checkAdjacent ctx condition found shipped).Only P := by
  refine (Check.only_isThere _).bind fun there _ => ?_
  split
  · exact .done trivial
  · rw [Check.bind_eq]
    exact (Manifest.only_expectedDeclarationFormat _).bind fun _ _ =>
      Check.only_add (h _ (by simp [notExported, codes]) rfl)

theorem only_examine (shipped : String) (request : Request) {found : ConditionTree.Resolved}
    (h : ∀ d : Diagnostic, d.code ∈ codes → d.location = found.location → P d) :
    (examine ctx root shipped request found).Only P := by
  refine (Check.only_isThere _).bind fun there _ => ?_
  split
  · split
    · exact only_checkFormat _ _ h
    · exact only_checkAdjacent _ _ h
  · exact .done trivial

/-- The findings about declarations are where the declarations are resolved. -/
theorem only_checkRequests (shipped : String)
    (h : ∀ conditions found, root.resolve conditions = some found →
      ∀ d : Diagnostic, d.code ∈ codes → d.location = found.location → P d)
    (seen : List String) (requests : List Request) :
    (checkRequests ctx root shipped seen requests).Only P := by
  induction requests generalizing seen with
  | nil => exact .done trivial
  | cons request rest ih =>
    rw [checkRequests]
    split
    · exact ih seen
    next found hfound =>
      simp only
      split
      · exact ih seen
      · exact (only_examine shipped request (h _ found hfound)).bind fun _ _ => ih _

theorem only_shippedDeclaration : (shippedDeclaration ctx).Only P := by
  rw [shippedDeclaration]
  split
  · exact .done trivial
  · exact .done trivial
  · refine (Context.only_readQuietly _).bind fun text _ => ?_
    cases text <;> exact .done trivial

theorem only_check
    (h : ∀ conditions found, root.resolve conditions = some found →
      ∀ d : Diagnostic, d.code ∈ codes → d.location = found.location → P d) :
    (check ctx root).Only P := by
  refine only_shippedDeclaration.bind fun shipped _ => ?_
  cases shipped with
  | none => exact .done trivial
  | some shipped => exact only_checkRequests shipped h [] requests

theorem reports_plan {tree : ConditionTree} {task : Task}
    (h : task ∈ (plan ctx tree location).tasks) : task.Reports codes := by
  rw [plan] at h
  split at h
  · obtain rfl := List.mem_singleton.mp h
    exact Task.only_single (only_check fun _ _ _ _ hcode _ => hcode) _
  · simp at h

end Declarations

/-- The codes of findings about formats, except that about the implicit entry point. -/
def FileFormat.codes : List Code := [.fileInvalidFormat, .fileInvalidExplicitFormat]

theorem FileFormat.code_mismatch (path : String) (location : Location) (actual expected : Format)
    (shown : Option String) : (mismatch path location actual expected shown).code ∈ codes := by
  simp only [mismatch, mismatchCode]
  split <;> simp [codes]

theorem FileFormat.reports_check (path content : String) (location : Location)
    (leniency : Leniency) (shown : Option String) :
    (check path content location leniency shown).Reports codes :=
  only_check path content location leniency shown fun actual expected =>
    code_mismatch path location actual expected shown

namespace AllFiles

/-- The codes of findings of the scan. -/
def codes : List Code := .fileInvalidJsxExtension :: FileFormat.codes

theorem only_checkFile
    (h : ∀ d : Diagnostic, d.code ∈ codes → d.location = PackageChecks.wholePackage → P d)
    (path shown : String) : (checkFile path shown).Only P := by
  refine (Context.only_readQuietly _).bind fun text _ => ?_
  cases text with
  | none => exact .done trivial
  | some content =>
    simp only [Check.bind_eq]
    split
    · exact (FileFormat.only_check _ _ _ _ _ fun _ _ =>
        h _ (List.mem_cons_of_mem _ (FileFormat.code_mismatch _ _ _ _ _)) rfl).bind
          fun _ _ => .done trivial
    · exact .done trivial

theorem meets_fileChecks
    (h : ∀ d : Diagnostic, d.code = .fileInvalidJsxExtension →
      d.location = PackageChecks.wholePackage → P d) (checked paths : List String) :
    (fileChecks ctx checked paths).Meets P fun checks =>
      ∀ check ∈ checks, ∃ path shown, check = checkFile path shown := by
  induction paths with
  | nil => exact .done fun _ hcheck => absurd hcheck List.not_mem_nil
  | cons path rest ih =>
    rw [fileChecks]
    split
    · exact ih
    · refine (Context.only_rejectsJsx _ _ _ h).bind fun rejected _ => ?_
      split
      · exact ih
      · refine ih.bind fun others hothers => ?_
        split
        · exact .done (List.forall_mem_cons.mpr ⟨⟨_, _, rfl⟩, hothers⟩)
        · exact .done hothers

/-- The scan itself reports bad extensions only, and leaves checks of single files. -/
theorem meets_scan
    (h : ∀ d : Diagnostic, d.code = .fileInvalidJsxExtension →
      d.location = PackageChecks.wholePackage → P d) (checked : List String) :
    (scan ctx checked).Meets P fun batch =>
      ∀ check ∈ batch.checks, ∃ path shown, check = checkFile path shown := by
  simp only [scan, Check.bind_eq]
  exact (Subpath.only_expand _ _).bind fun files _ =>
    (meets_fileChecks h checked files).bind fun checks hchecks => .done hchecks

theorem only_plan
    (h : ∀ d : Diagnostic, d.code ∈ codes → d.location = PackageChecks.wholePackage → P d)
    {checked : List String} {task : Task} (ht : task ∈ (plan ctx checked).tasks) :
    task.Only P := by
  obtain rfl := List.mem_singleton.mp ht
  have hjsx : ∀ d : Diagnostic, d.code = .fileInvalidJsxExtension →
      d.location = PackageChecks.wholePackage → P d :=
    fun d hcode => h d (hcode ▸ List.mem_cons_self)
  refine (meets_scan hjsx checked).imp (fun _ hd => hd) fun batch hbatch check hcheck => ?_
  obtain ⟨path, shown, rfl⟩ := hbatch check hcheck
  exact only_checkFile h path shown

theorem reports_scan {checked : List String} {task : Task}
    (h : task ∈ (plan ctx checked).tasks) : task.Reports codes :=
  only_plan (fun _ hcode _ => hcode) h

end AllFiles

/-- The codes of a leaf by itself. The checks that it leaves report more. -/
theorem EntryTree.reports_checkTarget (ctx : Context) (entry : EntryTree) (target : Crawl.Target) :
    (checkTarget ctx entry target).Reports (targetCodes entry.field) :=
  (meets_checkTarget fun _ hcode _ => hcode).only

/-! ### Entry fields -/

namespace EntryChecks

/-- The codes of findings of reading a file. -/
def readCodes : List Code := [.fileDoesNotExist, .fileNotPublished]

theorem only_readEntry (h : ∀ d : Diagnostic, d.code ∈ readCodes → d.location = location → P d)
    (path : String) (extensions : List String) :
    (ctx.readEntry path location extensions).Only P :=
  Context.only_readEntry ctx path location extensions
    (h _ (by simp [Context.missing, readCodes]) rfl)
    (h _ (by simp [Context.unpublished, readCodes]) rfl)

theorem reports_readEntry (path : String) (location : Location) (extensions : List String) :
    (ctx.readEntry path location extensions).Reports readCodes :=
  only_readEntry (fun _ hcode _ => hcode) path extensions

/-- The codes of findings of reading an entry point whose format can be judged. -/
def legacyCodes : List Code := readCodes ++ [.fileInvalidJsxExtension, .fieldInvalidValueType]

theorem only_readLegacy (h : ∀ d : Diagnostic, d.code ∈ legacyCodes → d.location = location → P d)
    (value : Json) : (readLegacy ctx value location).Only P := by
  cases value with
  | str path =>
    have hread : ∀ d : Diagnostic, d.code ∈ readCodes → d.location = location → P d :=
      fun d hcode => h d (List.mem_append_left _ hcode)
    refine (only_readEntry hread _ _).bind fun text _ => ?_
    cases text with
    | none => exact .done trivial
    | some content =>
      refine (Context.only_rejectsJsx path location none fun d hcode => h d ?_).bind
        fun rejected _ => ?_
      · simp [hcode, legacyCodes]
      · split
        · exact .done trivial
        · split <;> exact .done trivial
  | _ => exact .report (h _ (by simp [Context.wrongType, legacyCodes]) rfl) (.done trivial)

theorem reports_readLegacy (value : Json) (location : Location) :
    (readLegacy ctx value location).Reports legacyCodes :=
  only_readLegacy (fun _ hcode _ => hcode) value

/-- The codes of findings about `main`. -/
def mainCodes : List Code := legacyCodes ++ .hasEsmMainButNoExports :: FileFormat.codes

theorem only_checkMain (h : ∀ d : Diagnostic, d.code ∈ mainCodes → d.location = location → P d)
    (value : Json) (hasExports : Bool) : (checkMain ctx value location hasExports).Only P := by
  have hlegacy : ∀ d : Diagnostic, d.code ∈ legacyCodes → d.location = location → P d :=
    fun d hcode => h d (List.mem_append_left _ hcode)
  refine (only_readLegacy hlegacy value).bind fun found _ => ?_
  cases found with
  | none => exact .done trivial
  | some found =>
    obtain ⟨path, content⟩ := found
    refine (FileFormat.only_check _ _ _ _ _ fun _ _ => h _ ?_ rfl).bind fun actual _ => ?_
    · exact List.mem_append_right _ (List.mem_cons_of_mem _ (FileFormat.code_mismatch _ _ _ _ _))
    · split
      · exact Check.only_add (h _ (by simp [mainCodes]) rfl)
      · exact .done trivial

/-- The codes of findings about `module`. -/
def moduleCodes : List Code := legacyCodes ++ [.moduleShouldBeEsm, .hasModuleButNoExports]

theorem only_checkModule (h : ∀ d : Diagnostic, d.code ∈ moduleCodes → d.location = location → P d)
    (value : Json) (hasExports : Bool) : (checkModule ctx value location hasExports).Only P := by
  have hlegacy : ∀ d : Diagnostic, d.code ∈ legacyCodes → d.location = location → P d :=
    fun d hcode => h d (List.mem_append_left _ hcode)
  have hexports : (if hasExports = true then (pure () : Check Unit)
      else Check.add { code := .hasModuleButNoExports, severity := .suggestion, location }).Only
        P := by
    split
    · exact .done trivial
    · exact Check.only_add (h _ (by simp [moduleCodes]) rfl)
  refine (only_readLegacy hlegacy value).bind fun found _ => ?_
  cases found with
  | none => exact .done trivial
  | some found =>
    obtain ⟨path, content⟩ := found
    simp only
    split
    · exact (Check.only_add (h _ (by simp [moduleCodes]) rfl)).bind fun _ _ => hexports
    · exact hexports

theorem reports_checkModule (value : Json) (location : Location) (hasExports : Bool) :
    (checkModule ctx value location hasExports).Reports moduleCodes :=
  only_checkModule (fun _ hcode _ => hcode) value hasExports

/-- The codes of findings about fields that bundlers read. -/
def knownCodes : List Code := .deprecatedFieldJsnext :: readCodes

theorem only_checkKnownField
    (h : ∀ d : Diagnostic, d.code ∈ knownCodes → d.location = location → P d)
    (field value : String) : (checkKnownField ctx field value location).Only P := by
  have hread : ∀ d : Diagnostic, d.code ∈ readCodes → d.location = location → P d :=
    fun d hcode => h d (List.mem_cons_of_mem _ hcode)
  refine (only_readEntry hread _ _).bind fun text _ => ?_
  cases text with
  | none => exact .done trivial
  | some content =>
    simp only
    split
    · exact Check.only_add (h _ (by simp [knownCodes]) rfl)
    · exact .done trivial

theorem reports_knownField {field : String} {task : Task}
    (h : task ∈ (knownField ctx field).tasks) : task.Reports knownCodes := by
  rw [knownField] at h
  split at h
  · simp at h
  · obtain rfl := List.mem_singleton.mp h
    exact Task.only_single (only_checkKnownField (fun _ hcode _ => hcode) _ _) _
  · simp [Plan.finding] at h

theorem only_browserTask {entry : String × Location}
    (h : ∀ d : Diagnostic, d.code ∈ readCodes → d.location = entry.2 → P d) :
    (browserTask ctx entry).Only P :=
  Task.only_single ((only_readEntry h _ _).bind fun _ _ => .done trivial) _

theorem reports_browserTask (entry : String × Location) :
    (browserTask ctx entry).Reports readCodes :=
  only_browserTask fun _ hcode _ => hcode

/-- The codes of findings about commands. -/
def commandCodes : List Code := readCodes ++ .binFileNotExecutable :: FileFormat.codes

theorem only_checkCommand
    (h : ∀ d : Diagnostic, d.code ∈ commandCodes → d.location = location → P d) (value : String) :
    (checkCommand ctx value location).Only P := by
  have hread : ∀ d : Diagnostic, d.code ∈ readCodes → d.location = location → P d :=
    fun d hcode => h d (List.mem_append_left _ hcode)
  refine (only_readEntry hread _ _).bind fun text _ => ?_
  cases text with
  | none => exact .done trivial
  | some content =>
    have hformat : (FileFormat.check (ctx.within value) content location).Only P :=
      FileFormat.only_check _ _ _ _ _ fun _ _ => h _ (List.mem_append_right _
        (List.mem_cons_of_mem _ (FileFormat.code_mismatch _ _ _ _ _))) rfl
    simp only
    split
    · split
      · exact hformat.bind fun _ _ => .done trivial
      · exact (Check.only_add (h _ (by simp [commandCodes]) rfl)).bind fun _ _ =>
          hformat.bind fun _ _ => .done trivial
    · exact .done trivial

end EntryChecks

/-! ### What the manifest shows by itself -/

namespace Crawl

variable {field : EntryField} {d : Diagnostic}

/-- The codes of what a crawl finds by itself. -/
def codes (field : EntryField) : List Code :=
  [.exportsTypesShouldBeFirst, .entry field .moduleShouldPrecedeRequire,
   .entry field .defaultShouldBeLast, .importsKeyInvalid, .entry field .fallbackArrayUse,
   .fieldInvalidValueType]

theorem code_of_mem_orderFindings {location : Location} {entries : List (String × ConditionTree)}
    (h : d ∈ orderFindings field location entries) : d.code ∈ codes field := by
  simp only [orderFindings, List.mem_append] at h
  rcases h with (h | h) | h <;> split at h <;> simp_all [codes]

theorem code_of_mem_nodeFindings {location : Location} {node : ConditionTree}
    (h : d ∈ nodeFindings field location node) : d.code ∈ codes field := by
  cases node with
  | leaf _ | exclusion => exact absurd h List.not_mem_nil
  | array _ =>
    obtain rfl := List.mem_singleton.mp h
    simp [arrayUse, codes]
  | map _ => exact code_of_mem_orderFindings h
  | invalid _ =>
    obtain rfl := List.mem_singleton.mp h
    simp [invalidNode, codes]

/-- The codes of what a crawl finds by itself. -/
theorem code_of_mem_findings {location : Location} {tree : ConditionTree}
    (h : d ∈ findings field location tree) : d.code ∈ codes field := by
  obtain ⟨n, -, hd | hd⟩ := exists_node_of_mem_findings h
  · exact code_of_mem_nodeFindings hd
  · obtain ⟨-, _, _, -, -, -, rfl⟩ := mem_keysDue.mp hd
    simp [badImportKey, codes]

end Crawl

namespace RepositoryField

variable {manifest : Manifest} {d : Diagnostic}

/-- What is found about a repository is about a shorthand, about the address of an object, or about a value
that is neither. -/
inductive IsFound (manifest : Manifest) : Diagnostic → Prop
  | shorthand {value severity args} (hget : Assoc.get? "repository" manifest = some (.str value))
      (hargs : args.map Prod.fst ⊆ ["type", "suggest_value"]) :
      IsFound manifest (invalid severity ["repository"] args)
  | address {fields url severity args} (hget : Assoc.get? "repository" manifest = some (.obj fields))
      (hurl : Json.field fields "url" = .str url)
      (hargs : args.map Prod.fst ⊆ ["type", "suggest_value"]) :
      IsFound manifest (invalid severity ["repository", "url"] args)
  | wrongType {value} (hget : Assoc.get? "repository" manifest = some value) :
      IsFound manifest (Context.wrongType value ["string", "object"] ["repository"])

theorem eq_invalid_of_mem_ofAddress {url : String} (h : d ∈ ofAddress url) :
    ∃ severity args, d = invalid severity ["repository", "url"] args
      ∧ args.map Prod.fst ⊆ ["type", "suggest_value"] := by
  simp only [ofAddress] at h
  split at h
  · exact ⟨_, _, List.mem_singleton.mp h, by simp⟩
  · split at h
    · exact ⟨_, _, List.mem_singleton.mp h, by simp⟩
    · split at h
      · exact ⟨_, _, List.mem_singleton.mp h, by simp⟩
      · simp at h

theorem isFound_of_mem (h : d ∈ findings manifest) : IsFound manifest d := by
  rw [findings] at h
  split at h
  · simp at h
  next value hget =>
    rw [ofShorthand] at h
    split at h
    · simp at h
    · obtain rfl := List.mem_singleton.mp h
      exact .shorthand hget (by simp)
  next fields hget =>
    split at h
    next url hurl =>
      split at h
      · simp at h
      · obtain ⟨severity, args, rfl, hargs⟩ := eq_invalid_of_mem_ofAddress h
        exact .address hget hurl hargs
    next => simp at h
  next value _ _ hget =>
    obtain rfl := List.mem_singleton.mp h
    exact .wrongType hget

end RepositoryField

namespace Plan

@[simp] theorem tasks_append (a b : Plan) : (a ++ b).tasks = a.tasks ++ b.tasks := rfl

@[simp] theorem findings_append (a b : Plan) : (a ++ b).findings = a.findings ++ b.findings := rfl

theorem tasks_concat (plans : List Plan) : (concat plans).tasks = plans.flatMap (·.tasks) := by
  induction plans with
  | nil => rfl
  | cons plan rest ih => rw [concat, tasks_append, ih, List.flatMap_cons]

theorem findings_concat (plans : List Plan) :
    (concat plans).findings = plans.flatMap (·.findings) := by
  induction plans with
  | nil => rfl
  | cons plan rest ih => rw [concat, findings_append, ih, List.flatMap_cons]

end Plan

namespace Pass

variable {d : Diagnostic}

/-- Of the entry points of legacy resolution, only a root entry that is not there shows by itself. -/
theorem findings_legacyPlan (ctx : Context) (fields : Fields) :
    (legacyPlan ctx fields).findings
      = (if fields.exports.1.isNull || (fields.main.1.isNull && fields.module.1.isNull) then {}
          else missingRoot fields : Plan).findings := by
  have hindex : (if fields.areImplicit then PackageChecks.implicitIndex ctx else {} : Plan).findings
      = [] := by
    split <;> rfl
  have hmain : (if fields.main.1.isNull then {}
      else EntryChecks.mainField ctx fields.main.1 fields.main.2 fields.hasExports : Plan).findings
      = [] := by
    split <;> rfl
  have hmodule : (if fields.module.1.isNull then {}
      else EntryChecks.moduleField ctx fields.module.1 fields.module.2
        fields.hasExports : Plan).findings = [] := by
    split <;> rfl
  rw [legacyPlan, Plan.findings_append, Plan.findings_append, Plan.findings_append, hindex, hmain,
    hmodule, List.nil_append, List.nil_append, List.nil_append]

/-- Where `exports` is set, its tree shows what is wrong with it, and nothing shows by itself where all
files are scanned. -/
theorem findings_exportsPlan (ctx : Context) (fields : Fields) :
    (exportsPlan ctx fields).findings
      = (if fields.hasExports then (exportsEntry fields).plan ctx else {} : Plan).findings := by
  have hdeclarations :
      (Declarations.plan ctx (ConditionTree.ofJson fields.exports.1) fields.exports.2).findings
        = [] := by
    rw [Declarations.plan]
    split <;> rfl
  rw [exportsPlan]
  split
  · rw [Plan.findings_append, hdeclarations, List.append_nil]
  · rfl

/-- What a manifest shows by itself: the lists of files and the licenses show nothing. -/
theorem findings_plan (ctx : Context) :
    (plan ctx).findings
      = (PackageChecks.localDependencies ctx).findings
        ++ ((PackageChecks.typeField ctx).findings
        ++ ((legacyPlan ctx (Fields.of ctx.manifest)).findings
        ++ (RepositoryField.findings ctx.manifest
        ++ ((EntryChecks.knownFields ctx).findings
        ++ ((if (Fields.of ctx.manifest).browser.1.isSet then
              EntryChecks.browserField ctx (Fields.of ctx.manifest).browser.1
                (Fields.of ctx.manifest).browser.2 (Fields.of ctx.manifest).hasExports
            else {}).findings
        ++ ((exportsPlan ctx (Fields.of ctx.manifest)).findings
        ++ ((if (Fields.of ctx.manifest).bin.1.isSet then
              EntryChecks.binField ctx (Fields.of ctx.manifest).bin.1 (Fields.of ctx.manifest).bin.2
            else {}).findings
        ++ (importsPlan ctx (Fields.of ctx.manifest)).findings))))))) := by
  have hfiles : (PackageChecks.filesField ctx).findings = [] := by
    rw [PackageChecks.filesField]
    split <;> rfl
  have hlicense : (PackageChecks.licenseField ctx).findings = [] := by
    rw [PackageChecks.licenseField]
    split <;> rfl
  simp only [plan, Plan.findings_concat, List.flatMap_cons, List.flatMap_nil, List.append_nil,
    hfiles, hlicense, List.nil_append]

/-- What a manifest shows by itself, by where it comes from. -/
inductive Apparent (ctx : Context) : Diagnostic → Prop
  | dependency {fields : Json.Fields} {name : String} {version : Json}
      (hfields : Json.field ctx.manifest "dependencies" = .obj fields)
      (hmem : (name, version) ∈ fields) :
      Apparent ctx
        { code := .localDependency, severity := .error, location := ["dependencies", name] }
  | type :
      Apparent ctx
        { code := .useType, severity := .suggestion, location := PackageChecks.wholePackage }
  | missingRoot {args : Args} (hnull : (ctx.manifest.published "exports").1 ≠ .null) :
      Apparent ctx
        { code := .exportsMissingRootEntrypoint, severity := .warning
          location := (ctx.manifest.published "exports").2, args }
  | repository {d : Diagnostic} (h : d ∈ RepositoryField.findings ctx.manifest) : Apparent ctx d
  | known {field : String} {value : Json} {location : Location} (hnull : value ≠ .null)
      (hpublished : ctx.manifest.published field = (value, location)) :
      Apparent ctx (Context.wrongType value ["string"] location)
  | browser (hset : (ctx.manifest.published "browser").1.isSet = true) :
      Apparent ctx (EntryChecks.preferConditions (ctx.manifest.published "browser").1
        (ctx.manifest.published "browser").2)
  | command {fields : Json.Fields} {name : String} {value : Json}
      (hbin : (ctx.manifest.published "bin").1 = .obj fields) (hmem : (name, value) ∈ fields) :
      Apparent ctx
        (Context.wrongType value ["string"] ((ctx.manifest.published "bin").2 ++ [name]))
  | imports (hset : (ctx.manifest.published "imports").1.isSet = true) :
      Apparent ctx (Context.wrongType (ctx.manifest.published "imports").1 ["object"]
        (ctx.manifest.published "imports").2)
  | tree {field : String} {entry : EntryTree} {d : Diagnostic}
      (hset : (ctx.manifest.published field).1.isSet = true)
      (htree : entry.tree = ConditionTree.ofJson (ctx.manifest.published field).1)
      (hlocation : entry.location = (ctx.manifest.published field).2)
      (h : d ∈ Crawl.findings entry.field entry.location entry.tree) :
      Apparent ctx d

theorem apparent_of_localDependencies (h : d ∈ (PackageChecks.localDependencies ctx).findings) :
    Apparent ctx d := by
  rw [PackageChecks.localDependencies] at h
  split at h
  next fields hfields =>
    obtain ⟨⟨name, version⟩, hmem, rfl⟩ := List.mem_map.mp h
    exact .dependency hfields (List.mem_of_mem_filter hmem)
  next => simp at h

theorem apparent_of_typeField (h : d ∈ (PackageChecks.typeField ctx).findings) :
    Apparent ctx d := by
  rw [PackageChecks.typeField] at h
  split at h
  · obtain rfl := List.mem_singleton.mp h
    exact .type
  · simp at h

theorem apparent_of_missingRoot (h : d ∈ (missingRoot (Fields.of ctx.manifest)).findings) :
    Apparent ctx d := by
  have hnull : (ctx.manifest.published "exports").1 ≠ .null := by
    intro hnull
    simp [missingRoot, Fields.of, hnull, ConditionTree.ofJson] at h
  rw [missingRoot] at h
  split at h
  · split at h
    · simp at h
    · split at h
      · obtain rfl := List.mem_singleton.mp h
        exact .missingRoot hnull
      · simp at h
  · simp at h

theorem apparent_of_legacyPlan (h : d ∈ (legacyPlan ctx (Fields.of ctx.manifest)).findings) :
    Apparent ctx d := by
  rw [findings_legacyPlan] at h
  split at h
  · simp at h
  · exact apparent_of_missingRoot h

theorem apparent_of_knownFields (h : d ∈ (EntryChecks.knownFields ctx).findings) :
    Apparent ctx d := by
  simp only [EntryChecks.knownFields, Plan.findings_concat] at h
  obtain ⟨plan, hplan, h⟩ := List.mem_flatMap.mp h
  obtain ⟨field, -, rfl⟩ := List.mem_map.mp hplan
  rw [EntryChecks.knownField] at h
  split at h
  · simp at h
  · simp [Plan.task] at h
  next value location hnull _ hpublished =>
    obtain rfl := List.mem_singleton.mp h
    refine .known ?_ hpublished
    rintro rfl
    exact hnull rfl

theorem apparent_of_browserField {hasExports : Bool}
    (hset : (ctx.manifest.published "browser").1.isSet = true)
    (h : d ∈ (EntryChecks.browserField ctx (ctx.manifest.published "browser").1
      (ctx.manifest.published "browser").2 hasExports).findings) : Apparent ctx d := by
  simp only [EntryChecks.browserField] at h
  split at h
  · obtain rfl := List.mem_singleton.mp h
    exact .browser hset
  · simp at h

theorem apparent_of_exportsPlan (h : d ∈ (exportsPlan ctx (Fields.of ctx.manifest)).findings) :
    Apparent ctx d := by
  rw [findings_exportsPlan] at h
  split at h
  next hset => exact .tree hset rfl rfl h
  next => simp at h

theorem apparent_of_binField
    (h : d ∈ (EntryChecks.binField ctx (ctx.manifest.published "bin").1
      (ctx.manifest.published "bin").2).findings) : Apparent ctx d := by
  cases hbin : (ctx.manifest.published "bin").1 with
  | obj fields =>
    simp only [hbin, EntryChecks.binField, Plan.findings_concat] at h
    obtain ⟨plan, hplan, h⟩ := List.mem_flatMap.mp h
    obtain ⟨⟨name, value⟩, hmem, rfl⟩ := List.mem_map.mp hplan
    simp only at h
    split at h
    · simp [EntryChecks.command, Plan.task] at h
    · obtain rfl := List.mem_singleton.mp h
      exact .command hbin hmem
  | _ => simp [hbin, EntryChecks.binField, EntryChecks.command, Plan.task] at h

theorem apparent_of_importsPlan (h : d ∈ (importsPlan ctx (Fields.of ctx.manifest)).findings) :
    Apparent ctx d := by
  rw [importsPlan] at h
  split at h
  next hset =>
    split at h
    · exact .tree hset rfl rfl h
    · obtain rfl := List.mem_singleton.mp h
      exact .imports hset
  next => simp at h

/-- What a manifest shows by itself comes from nowhere else. -/
theorem apparent_of_mem (h : d ∈ (plan ctx).findings) : Apparent ctx d := by
  rw [findings_plan] at h
  simp only [List.mem_append] at h
  rcases h with h | h | h | h | h | h | h | h | h
  · exact apparent_of_localDependencies h
  · exact apparent_of_typeField h
  · exact apparent_of_legacyPlan h
  · exact .repository h
  · exact apparent_of_knownFields h
  · split at h
    next hset => exact apparent_of_browserField hset h
    next => simp at h
  · exact apparent_of_exportsPlan h
  · split at h
    · exact apparent_of_binField h
    · simp at h
  · exact apparent_of_importsPlan h

/-- The codes of what a manifest shows by itself. -/
def planCodes : List Code :=
  [.localDependency, .useType, .exportsMissingRootEntrypoint, .invalidRepositoryValue,
   .useExportsBrowser, .useExportsOrImportsBrowser]
  ++ Crawl.codes .exports ++ Crawl.codes .imports

/-- The codes of what a manifest shows by itself and not about its repository. -/
def otherPlanCodes : List Code :=
  [.localDependency, .useType, .exportsMissingRootEntrypoint, .useExportsBrowser,
   .useExportsOrImportsBrowser]
  ++ Crawl.codes .exports ++ Crawl.codes .imports

theorem code_of_mem_repository {manifest : Manifest}
    (h : d ∈ RepositoryField.findings manifest) : d.code ∈ planCodes := by
  cases RepositoryField.isFound_of_mem h with
  | shorthand _ _ | address _ _ _ => exact (by decide : Code.invalidRepositoryValue ∈ planCodes)
  | wrongType _ => exact (by decide : Code.fieldInvalidValueType ∈ planCodes)

/-- What a manifest shows by itself is about its repository, or has one of the other codes. -/
theorem repository_or_code_of_mem (h : d ∈ (plan ctx).findings) :
    d ∈ RepositoryField.findings ctx.manifest ∨ d.code ∈ otherPlanCodes := by
  have hwrong : Code.fieldInvalidValueType ∈ otherPlanCodes := by decide
  cases apparent_of_mem h with
  | repository h => exact Or.inl h
  | dependency _ _ => exact Or.inr (by decide : Code.localDependency ∈ otherPlanCodes)
  | type => exact Or.inr (by decide : Code.useType ∈ otherPlanCodes)
  | missingRoot _ => exact Or.inr (by decide : Code.exportsMissingRootEntrypoint ∈ otherPlanCodes)
  | known _ _ | command _ _ | imports _ => exact Or.inr hwrong
  | browser _ =>
    cases (ctx.manifest.published "browser").1 with
    | str _ => exact Or.inr (by decide : Code.useExportsBrowser ∈ otherPlanCodes)
    | _ => exact Or.inr (by decide : Code.useExportsOrImportsBrowser ∈ otherPlanCodes)
  | @tree _ entry _ _ _ _ h =>
    have hcode : d.code ∈ Crawl.codes entry.field := Crawl.code_of_mem_findings h
    rw [otherPlanCodes, List.mem_append, List.mem_append]
    cases hfield : entry.field with
    | exports => exact Or.inr (Or.inl (Or.inr (hfield ▸ hcode)))
    | imports => exact Or.inr (Or.inr (hfield ▸ hcode))

/-- The codes of what a manifest shows by itself. -/
theorem code_of_mem_planFindings (h : d ∈ (plan ctx).findings) : d.code ∈ planCodes := by
  rcases repository_or_code_of_mem h with h | h
  · exact code_of_mem_repository h
  · have hcodes : ∀ code ∈ otherPlanCodes, code ∈ planCodes := by decide
    exact hcodes _ h

/-- The tasks of a pass: what the manifest shows by itself leaves none. -/
theorem tasks_plan (ctx : Context) :
    (plan ctx).tasks
      = (PackageChecks.filesField ctx).tasks
        ++ ((PackageChecks.licenseField ctx).tasks
        ++ ((legacyPlan ctx (Fields.of ctx.manifest)).tasks
        ++ ((EntryChecks.knownFields ctx).tasks
        ++ ((if (Fields.of ctx.manifest).browser.1.isSet then
              EntryChecks.browserField ctx (Fields.of ctx.manifest).browser.1
                (Fields.of ctx.manifest).browser.2 (Fields.of ctx.manifest).hasExports
            else {}).tasks
        ++ ((exportsPlan ctx (Fields.of ctx.manifest)).tasks
        ++ ((if (Fields.of ctx.manifest).bin.1.isSet then
              EntryChecks.binField ctx (Fields.of ctx.manifest).bin.1 (Fields.of ctx.manifest).bin.2
            else {}).tasks
        ++ (importsPlan ctx (Fields.of ctx.manifest)).tasks)))))) := by
  have hlocal : (PackageChecks.localDependencies ctx).tasks = [] := by
    rw [PackageChecks.localDependencies]
    split <;> rfl
  have htype : (PackageChecks.typeField ctx).tasks = [] := by
    rw [PackageChecks.typeField]
    split <;> rfl
  simp only [plan, Plan.tasks_concat, List.flatMap_cons, List.flatMap_nil, List.append_nil, hlocal,
    htype, List.nil_append]

theorem tasks_legacyPlan (ctx : Context) (fields : Fields) :
    (legacyPlan ctx fields).tasks
      = (if fields.areImplicit then PackageChecks.implicitIndex ctx else {}).tasks
        ++ (if fields.main.1.isNull then {}
            else EntryChecks.mainField ctx fields.main.1 fields.main.2 fields.hasExports).tasks
        ++ (if fields.module.1.isNull then {}
            else EntryChecks.moduleField ctx fields.module.1 fields.module.2
              fields.hasExports).tasks := by
  have hroot : (if fields.exports.1.isNull || (fields.main.1.isNull && fields.module.1.isNull)
      then {} else missingRoot fields : Plan).tasks = [] := by
    split
    · rfl
    · rw [missingRoot]
      split
      · split
        · rfl
        · split <;> rfl
      · rfl
  rw [legacyPlan, Plan.tasks_append, Plan.tasks_append, Plan.tasks_append, hroot, List.append_nil]

end Pass

end PackageLint
