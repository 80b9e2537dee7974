import PackageLint.Check.Target
import PackageLint.Proofs.CrawlLeaves
import PackageLint.Proofs.ExpectedFormats
import PackageLint.Proofs.Searches

/-!
# What the targets of a tree report

The task of a leaf reports at the place of the leaf and nowhere else, whatever the files are. Which
checks it leaves is a matter of names only: a file with an extension that nothing understands is
reported and left alone, code is looked at, anything else only has to be there.

## Main definitions

* `EntryTree.starred` — the value that a leaf's files are looked for by
* `EntryTree.fileCheck?` — the check of one file of a leaf

## Main results

* `EntryTree.location_of_mem_task` — a leaf's findings are at its place
* `EntryTree.run_fileChecks` — the checks of some files, and what is reported before them
* `EntryTree.checks_of_result` — the checks that a leaf leaves
* `EntryTree.run_checkTarget_plain` — a leaf whose target is one file
-/

namespace PackageLint

namespace Check

variable {α β : Type}

theorem result_bind_eq_ok {tree : FileTree} {c : Check α} {f : α → Check β} {b : β} :
    (c.bind f).result tree = .ok b ↔ ∃ a, c.result tree = .ok a ∧ (f a).result tree = .ok b := by
  simp only [result, run_bind]
  cases (c.run tree).result with
  | ok a => simp
  | error e => simp

end Check

namespace Context

/-- The finding about an extension that nothing understands, when a path has one. -/
def jsxFindings (path : String) (location : Location) (globbed : Option String) :
    List Diagnostic :=
  match jsxExtension? path with
  | none => []
  | some extension =>
    [{ code := .fileInvalidJsxExtension, severity := .error, location
       args :=
        [("actual_extension", .str extension),
         ("globbed_file_path", (globbed.map Arg.str).getD .null)] }]

theorem run_rejectsJsx (tree : FileTree) (path : String) (location : Location)
    (globbed : Option String) :
    (rejectsJsx path location globbed).run tree
      = ⟨jsxFindings path location globbed, .ok (jsxExtension? path).isSome⟩ := by
  rw [rejectsJsx, jsxFindings]
  cases jsxExtension? path with
  | none => rfl
  | some extension => rfl

theorem jsxExtension?_eq_none {path : String} :
    jsxExtension? path = none
      ↔ Text.hasEnd path ".mjsx" = false ∧ Text.hasEnd path ".cjsx" = false := by
  simp [jsxExtension?, jsxExtensions]

/-- The name of a code file has no extension that nothing understands. -/
theorem jsxExtension?_of_isLintableName {path : String} (h : Source.isLintableName path = true) :
    jsxExtension? path = none := by
  have hlast : ∀ {ending : String}, Text.hasEnd path ending = true → ending.toList ≠ [] →
      path.toList.getLast? = ending.toList.getLast? := by
    intro ending hend hne
    obtain ⟨front, hfront⟩ := List.isSuffixOf_iff_suffix.mp hend
    rw [← hfront, List.getLast?_append_of_ne_nil _ hne]
  have hcode : path.toList.getLast? = some 's' := by
    obtain ⟨ending, hmem, hend⟩ := List.any_eq_true.mp h
    simp only [List.mem_cons, List.not_mem_nil, or_false] at hmem
    rcases hmem with rfl | rfl | rfl <;> exact hlast hend (by decide)
  refine jsxExtension?_eq_none.mpr ⟨?_, ?_⟩ <;>
    · refine Bool.eq_false_iff.mpr fun hend => ?_
      have hx := hlast hend (by decide)
      rw [hcode] at hx
      exact absurd hx (by decide)

end Context

/-! ### Texts of targets -/

theorem Text.hasStart_append {s start : String} (h : hasStart s start = true) (ending : String) :
    hasStart (s ++ ending) start = true := by
  have hstart := List.isPrefixOf_iff_prefix.mp h
  refine List.isPrefixOf_iff_prefix.mpr (hstart.trans ?_)
  rw [String.toList_append]
  exact List.prefix_append _ _

theorem Text.hasStart_trans {s start front : String} (h : hasStart s start = true)
    (hfront : hasStart start front = true) : hasStart s front = true :=
  List.isPrefixOf_iff_prefix.mpr
    ((List.isPrefixOf_iff_prefix.mp hfront).trans (List.isPrefixOf_iff_prefix.mp h))

/-- A target starts as a relative path does. -/
theorem Path.looksRelative_of_hasStart {value : String} (h : Text.hasStart value "./" = true) :
    looksRelative value = true := by
  obtain ⟨rest, hrest⟩ := List.isPrefixOf_iff_prefix.mp h
  rw [looksRelative, ← hrest]
  rfl

namespace EntryTree

variable {tree : FileTree} {ctx : Context} {entry : EntryTree} {target : Crawl.Target}
  {value : String}

/-- The value that a leaf's files are looked for by: a folder stands for the files in it. -/
def starred (value : String) : String := if Text.hasEnd value "/" then value ++ "*" else value

/-- The path to show for a file of a leaf, when its value is a pattern. -/
def globbed (ctx : Context) (value path : String) : Option String :=
  if Pattern.hasWildcard value then some ("./" ++ ctx.relative path) else none

/-- The check of one file of a leaf: none for an extension that nothing understands, for a typed
source, and for a name that is no path. -/
def fileCheck? (ctx : Context) (entry : EntryTree) (value : String) (target : Crawl.Target)
    (path : String) : Option (Check Unit) :=
  if (Context.jsxExtension? path).isSome then none
  else if Source.isLintableName path then
    some (entry.checkFile ctx path value target.location target.afterNode (globbed ctx value path))
  else if Path.looksAbsolute path && !Source.isTypedSource path then
    some (checkPresence ctx path target.location)
  else none

/-! ### The checks of files -/

/-- The checks of files are those of each, and only bad extensions are reported before them. -/
theorem run_fileChecks (tree : FileTree) (ctx : Context) (entry : EntryTree) (value : String)
    (target : Crawl.Target) (paths : List String) :
    (fileChecks ctx entry value target paths).run tree
      = ⟨paths.flatMap fun path =>
            Context.jsxFindings path target.location (globbed ctx value path),
          .ok (paths.filterMap (entry.fileCheck? ctx value target))⟩ := by
  induction paths with
  | nil => rfl
  | cons path rest ih =>
    rw [fileChecks, Check.bind_eq]
    change ((Context.rejectsJsx path target.location (globbed ctx value path)).bind _).run tree = _
    rw [Check.run_bind_of_ok (Context.run_rejectsJsx _ _ _ _), List.flatMap_cons,
      List.filterMap_cons, fileCheck?]
    split
    next => simp only [ih]
    next =>
      rw [Check.bind_eq, Check.run_bind_of_ok ih]
      split
      · simp [globbed]
      · split <;> simp

/-- The checks that a leaf may leave: of the text of a file, or of its presence. -/
inductive LeavesCheck (ctx : Context) (entry : EntryTree) (target : Crawl.Target) (value : String) :
    Check Unit → Prop
  | file (path : String) (globbed : Option String) :
    LeavesCheck ctx entry target value
      (entry.checkFile ctx path value target.location target.afterNode globbed)
  | presence (path : String) :
    LeavesCheck ctx entry target value (checkPresence ctx path target.location)

variable {P : Diagnostic → Prop}

theorem only_checkContent (path content value : String) {location : Location} (afterNode : Bool)
    (globbed : Option String) (h : ∀ d : Diagnostic, d.location = location → P d) :
    (entry.checkContent path content value location afterNode globbed).Only P := by
  rw [checkContent]
  split
  · exact .done trivial
  · split
    · split
      · exact .report (h _ rfl) (.done trivial)
      · exact .done trivial
    · split
      · exact .done trivial
      · exact (FileFormat.only_check _ _ _ _ _ fun _ _ => h _ rfl).bind fun _ _ => .done trivial

theorem only_checkFile (path value : String) {location : Location} (afterNode : Bool)
    (globbed : Option String) (h : ∀ d : Diagnostic, d.location = location → P d) :
    (entry.checkFile ctx path value location afterNode globbed).Only P := by
  refine (Context.only_readEntry ctx path location [] (h _ rfl) (h _ rfl)).bind ?_
  intro text _
  cases text with
  | none => exact .done trivial
  | some content => exact only_checkContent path content value afterNode globbed h

theorem only_checkPresence (path : String) {location : Location}
    (h : ∀ d : Diagnostic, d.location = location → P d) : (checkPresence ctx path location).Only P :=
  (Context.only_readEntry ctx path location [] (h _ rfl) (h _ rfl)).bind fun _ _ => .done trivial

theorem meets_fileChecks (paths : List String)
    (h : ∀ d : Diagnostic, d.code = .fileInvalidJsxExtension → d.location = target.location → P d) :
    (fileChecks ctx entry value target paths).Meets P fun checks =>
      ∀ check ∈ checks, LeavesCheck ctx entry target value check := by
  induction paths with
  | nil => exact .done fun _ hcheck => absurd hcheck List.not_mem_nil
  | cons path rest ih =>
    refine (Context.only_rejectsJsx _ _ _ h).bind fun rejected _ => ?_
    split
    · exact ih
    · refine ih.bind fun others hothers => ?_
      split
      · exact .done (List.forall_mem_cons.mpr ⟨.file _ _, hothers⟩)
      · split
        · exact .done (List.forall_mem_cons.mpr ⟨.presence _, hothers⟩)
        · exact .done hothers

/-! ### The check of a leaf -/

/-- The codes of what is found about a leaf before its files are looked at. -/
def targetCodes (field : EntryField) : List Code :=
  [.entry field .globNoDeprecatedSubpathMapping, .entry field .valueInvalid,
   .entry field .globNoMatchedFiles, .exportsValueConflictsWithBrowser, .fileInvalidJsxExtension]

theorem only_starFolder
    (h : ∀ d : Diagnostic, d.code ∈ targetCodes entry.field → d.location = target.location → P d) :
    (starFolder ctx entry target).Only P := by
  rw [starFolder]
  split
  · cases (Json.obj ctx.manifest).follow (starredLocation target.location) with
    | error e => exact .fail e
    | ok starred => exact .report (h _ (by simp [folderMapping, targetCodes]) rfl) (.done trivial)
  · exact .done trivial

/-- Reports a target that does not start with `./`. -/
def reportStart (entry : EntryTree) (value : String) (location : Location) : Check Unit :=
  if Text.hasStart value "./" then .done () else Check.add (entry.badTarget value location)

/-- Reports a target that `browser` replaces. -/
def reportConflict (entry : EntryTree) (value : String) (location : Location) : Check Unit :=
  match entry.browserConflict? value location with
  | some d => Check.add d
  | none => .done ()

/-- What is done with the files of a leaf. -/
def finish (ctx : Context) (entry : EntryTree) (target : Crawl.Target) (value : String)
    (files : List String) : Check Batch :=
  if Pattern.hasWildcard value && files.isEmpty then
    (Check.add
      { code := .entry entry.field .globNoMatchedFiles, severity := .warning
        location := target.location }).bind fun _ => .done {}
  else
    (entry.reportConflict value target.location).bind fun _ =>
      (entry.fileChecks ctx value target files).bind fun checks =>
        .done { name := "exports-files", checks }

/-- The check of a leaf in its stages. -/
theorem checkTarget_eq (ctx : Context) (entry : EntryTree) (target : Crawl.Target) :
    checkTarget ctx entry target
      = if entry.field = .imports && !Text.hasStart target.value "." then .done {}
        else
          (starFolder ctx entry target).bind fun value =>
            (entry.reportStart value target.location).bind fun _ =>
              (entry.targetFiles ctx value target.location).bind fun files =>
                entry.finish ctx target value files := by
  rw [checkTarget]
  split
  · rfl
  · refine congrArg ((starFolder ctx entry target).bind ·) (funext fun value => ?_)
    have hfinish : ∀ files, (if (Pattern.hasWildcard value && files.isEmpty) = true then do
          Check.add
            { code := .entry entry.field .globNoMatchedFiles, severity := .warning
              location := target.location }
          pure {}
        else do
          match entry.browserConflict? value target.location with
          | some d => Check.add d
          | none => pure ()
          let checks ← entry.fileChecks ctx value target files
          pure { name := "exports-files", checks }) = entry.finish ctx target value files := by
      intro files
      rw [finish, reportConflict]
      split
      · rfl
      · cases entry.browserConflict? value target.location <;> rfl
    have hfiles := congrArg ((entry.targetFiles ctx value target.location).bind ·) (funext hfinish)
    by_cases hstart : Text.hasStart value "./" = true
    · rw [reportStart, if_pos hstart, if_pos hstart]
      exact hfiles
    · rw [reportStart, if_neg hstart, if_neg hstart]
      exact congrArg ((Check.add (entry.badTarget value target.location)).bind ·)
        (funext fun _ => hfiles)

theorem only_reportStart {location : Location}
    (h : ∀ d : Diagnostic, d.code ∈ targetCodes entry.field → d.location = location → P d) :
    (entry.reportStart value location).Only P := by
  rw [reportStart]
  split
  · exact .done trivial
  · exact Check.only_add (h _ (by simp [badTarget, targetCodes]) rfl)

theorem only_reportConflict {location : Location}
    (h : ∀ d : Diagnostic, d.code ∈ targetCodes entry.field → d.location = location → P d) :
    (entry.reportConflict value location).Only P := by
  rw [reportConflict, browserConflict?]
  cases entry.isRemapped value with
  | false => exact .done trivial
  | true =>
    cases browserishConditions.find? location.contains with
    | none => exact .done trivial
    | some condition => exact Check.only_add (h _ (by simp [targetCodes]) rfl)

theorem only_targetFiles (location : Location) :
    (entry.targetFiles ctx value location).Only P := by
  rw [targetFiles]
  split
  · exact Subpath.only_expand _ _
  · exact .done trivial

/-- What the check of a leaf may report, and what it leaves. -/
theorem meets_checkTarget
    (h : ∀ d : Diagnostic, d.code ∈ targetCodes entry.field → d.location = target.location → P d) :
    (checkTarget ctx entry target).Meets P fun batch =>
      ∀ check ∈ batch.checks, ∃ value, LeavesCheck ctx entry target value check := by
  have hjsx : ∀ d : Diagnostic, d.code = .fileInvalidJsxExtension →
      d.location = target.location → P d := fun d hcode => h d (by simp [hcode, targetCodes])
  rw [checkTarget_eq]
  split
  · exact .done fun _ hcheck => absurd hcheck List.not_mem_nil
  · refine (only_starFolder h).bind fun value _ => (only_reportStart h).bind fun _ _ =>
      (only_targetFiles target.location).bind fun files _ => ?_
    rw [finish]
    split
    · exact .report (h _ (by simp [targetCodes]) rfl)
        (.done fun _ hcheck => absurd hcheck List.not_mem_nil)
    · exact (only_reportConflict h).bind fun _ _ => (meets_fileChecks files hjsx).bind
        fun checks hchecks => .done fun check hcheck => ⟨value, hchecks check hcheck⟩

/-- A property of what is at the place of a leaf is one of all that its task may report. -/
theorem only_task (h : ∀ d : Diagnostic, d.location = target.location → P d) :
    (entry.task ctx target).check.Meets P fun batch => ∀ check ∈ batch.checks, check.Only P := by
  refine (meets_checkTarget fun d _ => h d).imp (fun _ hd => hd) fun batch hbatch check hcheck => ?_
  obtain ⟨value, hleft⟩ := hbatch check hcheck
  cases hleft with
  | file path globbed => exact only_checkFile path value target.afterNode globbed h
  | presence path => exact only_checkPresence path h

/-- A leaf's findings are at its place. -/
theorem location_of_mem_task {d : Diagnostic}
    (h : d ∈ (entry.task ctx target).findings tree) : d.location = target.location :=
  Task.of_mem_findings (only_task fun _ hd => hd) h

/-! ### The checks that a leaf leaves -/

theorem starred_of_result (h : (starFolder ctx entry target).result tree = .ok value) :
    value = starred target.value := by
  rw [starFolder] at h
  rw [starred]
  split at h
  next hslash =>
    rw [if_pos hslash]
    cases hfollow : (Json.obj ctx.manifest).follow (starredLocation target.location) with
    | error e => simp [hfollow, Check.ofExcept, Check.result] at h
    | ok found =>
      rw [hfollow] at h
      exact (Except.ok.inj h).symm
  next hslash =>
    rw [if_neg hslash]
    exact (Except.ok.inj h).symm

/-- The files of a leaf on a tree. -/
def files (tree : FileTree) (ctx : Context) (entry : EntryTree) (value : String)
    (location : Location) : List String :=
  if Pattern.hasWildcard value then tree.expanded ctx.depth (entry.search ctx value location)
  else [targetPath ctx value]

theorem run_targetFiles (h : tree.ListsDirs) (ctx : Context) (entry : EntryTree) (value : String)
    (location : Location) :
    (entry.targetFiles ctx value location).run tree
      = ⟨[], .ok (entry.files tree ctx value location)⟩ := by
  rw [targetFiles, files]
  split
  · exact Subpath.run_expand h _ _
  · rfl

/-- The checks that a leaf leaves are those of its files. -/
theorem checks_of_result (h : tree.ListsDirs) {batch : Batch}
    (hbatch : (checkTarget ctx entry target).result tree = .ok batch) {check : Check Unit}
    (hcheck : check ∈ batch.checks) :
    ∃ path ∈ entry.files tree ctx (starred target.value) target.location,
      entry.fileCheck? ctx (starred target.value) target path = some check := by
  rw [checkTarget_eq] at hbatch
  split at hbatch
  · obtain rfl := Except.ok.inj hbatch
    exact absurd hcheck List.not_mem_nil
  · obtain ⟨value, hvalue, hbatch⟩ := Check.result_bind_eq_ok.mp hbatch
    obtain rfl := starred_of_result hvalue
    obtain ⟨-, -, hbatch⟩ := Check.result_bind_eq_ok.mp hbatch
    obtain ⟨files, hfiles, hbatch⟩ := Check.result_bind_eq_ok.mp hbatch
    rw [Check.result, run_targetFiles h] at hfiles
    obtain rfl := Except.ok.inj hfiles
    rw [finish] at hbatch
    split at hbatch
    · obtain rfl := Except.ok.inj hbatch
      exact absurd hcheck List.not_mem_nil
    · obtain ⟨-, -, hbatch⟩ := Check.result_bind_eq_ok.mp hbatch
      obtain ⟨checks, hchecks, hbatch⟩ := Check.result_bind_eq_ok.mp hbatch
      rw [Check.result, run_fileChecks] at hchecks
      obtain rfl := Except.ok.inj hchecks
      obtain rfl := Except.ok.inj hbatch
      exact List.mem_filterMap.mp hcheck

/-- The findings of a plain target before its file is looked at. -/
def plainFindings (ctx : Context) (entry : EntryTree) (target : Crawl.Target) : List Diagnostic :=
  (if Text.hasStart target.value "./" then [] else [entry.badTarget target.value target.location])
    ++ (entry.browserConflict? target.value target.location).toList
    ++ Context.jsxFindings (targetPath ctx target.value) target.location none

/-- A leaf whose target is one file leaves the check of that file. -/
theorem run_checkTarget_plain (tree : FileTree) (ctx : Context) (entry : EntryTree)
    (target : Crawl.Target)
    (hcrawled : (entry.field = .imports && !Text.hasStart target.value ".") = false)
    (hslash : Text.hasEnd target.value "/" = false)
    (hstar : Pattern.hasWildcard target.value = false) :
    (checkTarget ctx entry target).run tree
      = ⟨plainFindings ctx entry target,
          .ok
            { name := "exports-files"
              checks := (entry.fileCheck? ctx target.value target
                (targetPath ctx target.value)).toList }⟩ := by
  have hfolder : (starFolder ctx entry target).run tree = ⟨[], .ok target.value⟩ := by
    simp [starFolder, hslash]
  have hstart : (entry.reportStart target.value target.location).run tree
      = ⟨if Text.hasStart target.value "./" then []
          else [entry.badTarget target.value target.location], .ok ()⟩ := by
    rw [reportStart]
    split <;> rfl
  have hfiles : (entry.targetFiles ctx target.value target.location).run tree
      = ⟨[], .ok [targetPath ctx target.value]⟩ := by
    simp [targetFiles, hstar]
  have hconflict : (entry.reportConflict target.value target.location).run tree
      = ⟨(entry.browserConflict? target.value target.location).toList, .ok ()⟩ := by
    rw [reportConflict]
    cases entry.browserConflict? target.value target.location <;> rfl
  have hchecks := run_fileChecks tree ctx entry target.value target [targetPath ctx target.value]
  have hfinish : (entry.finish ctx target target.value [targetPath ctx target.value]).run tree
      = ⟨(entry.browserConflict? target.value target.location).toList
            ++ Context.jsxFindings (targetPath ctx target.value) target.location none,
          .ok
            { name := "exports-files"
              checks := (entry.fileCheck? ctx target.value target
                (targetPath ctx target.value)).toList }⟩ := by
    rw [finish, if_neg (by simp), Check.run_bind_of_ok hconflict, Check.run_bind_of_ok hchecks]
    cases hcheck : entry.fileCheck? ctx target.value target (targetPath ctx target.value) <;>
      simp [globbed, hstar, hcheck]
  rw [checkTarget_eq, if_neg (by simp [hcrawled]), Check.run_bind_of_quiet hfolder,
    Check.run_bind_of_ok hstart, Check.run_bind_of_quiet hfiles, hfinish, plainFindings,
    List.append_assoc]

end EntryTree

end PackageLint
