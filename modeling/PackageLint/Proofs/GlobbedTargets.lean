import PackageLint.Proofs.FileRoutes
import PackageLint.Proofs.RelativePaths

/-!
# A pattern stands for the targets that name its files

A leaf whose target is a pattern looks at the files that the pattern finds. What it says about the
format of each is compared here with what a leaf would say whose target names the file by its way from
the package. The file is the same, as the way leads back to it, and so is the path that findings show.
One relaxation is left to tell the two apart: a file that a pattern finds may come in both formats.

What a leaf says about the format of a file is put together in two steps: the checks that it leaves are
those of its files, and each is a judgement of a text.

## Main definitions

* `EntryTree.pathFindings` — what a leaf says about the format of one of its files
* `EntryTree.isExcusedBySibling` — the findings that a pattern does not report

## Main results

* `EntryTree.result_checkTarget` — the checks that a leaf leaves are those of its files, in order
* `EntryTree.textual_about_task`, `EntryTree.textual_findings_task` — what a leaf says
* `EntryTree.textFindings_globbed` — the relaxation, for one text
* `EntryTree.pattern_formats_as_plain` — a pattern says what plain targets say
-/

namespace PackageLint

/-- The findings of a task with codes that only the checks that it leaves report. -/
theorem Task.ofCodes_findings {task : Task} {reported codes : List Code}
    (h : task.check.Reports reported) (hcodes : ∀ code ∈ reported, code ∉ codes) (tree : FileTree) :
    ofCodes codes (task.findings tree)
      = match task.check.result tree with
        | .ok batch => batch.checks.flatMap fun check => ofCodes codes (check.findings tree)
        | .error _ => [] := by
  have hself : ofCodes codes (task.check.findings tree) = [] :=
    ofCodes_eq_nil fun d hd => hcodes _ (h.of_mem hd)
  rw [findings, ofCodes_append, hself, List.nil_append]
  cases task.check.result tree with
  | ok batch => exact ofCodes_flatMap _ _ _
  | error e => rfl

namespace EntryTree

variable {tree : FileTree} {ctx : Context} {entry : EntryTree} {target : Crawl.Target}
  {value file path : String}

/-! ### The checks that a leaf leaves -/

/-- The checks that a leaf leaves are those of its files, in order. -/
theorem result_checkTarget (h : tree.ListsDirs)
    (hcrawled : (entry.field = .imports && !Text.hasStart target.value ".") = false)
    (hvalue : (entry.starFolder ctx target).result tree = .ok value) :
    ∃ name, (entry.checkTarget ctx target).result tree
      = .ok
          { name
            checks := (entry.files tree ctx value target.location).filterMap
              (entry.fileCheck? ctx value target) } := by
  have hstart : (entry.reportStart value target.location).result tree = .ok () := by
    rw [reportStart]
    split <;> rfl
  have hconflict : (entry.reportConflict value target.location).result tree = .ok () := by
    rw [reportConflict]
    cases entry.browserConflict? value target.location <;> rfl
  have hfiles : (entry.targetFiles ctx value target.location).result tree
      = .ok (entry.files tree ctx value target.location) := by
    rw [Check.result, run_targetFiles h]
  have hfinish : ∃ name,
      (entry.finish ctx target value (entry.files tree ctx value target.location)).result tree
        = .ok
            { name
              checks := (entry.files tree ctx value target.location).filterMap
                (entry.fileCheck? ctx value target) } := by
    rw [finish]
    split
    next hnone =>
      rw [List.isEmpty_iff.mp (Bool.and_eq_true_iff.mp hnone).2]
      exact ⟨_, rfl⟩
    next =>
      refine ⟨"exports-files", Check.result_bind_eq_ok.mpr ⟨_, hconflict, ?_⟩⟩
      refine Check.result_bind_eq_ok.mpr ⟨_, ?_, rfl⟩
      rw [Check.result, run_fileChecks]
  obtain ⟨name, hfinish⟩ := hfinish
  refine ⟨name, ?_⟩
  rw [checkTarget_eq, if_neg (by simp [hcrawled])]
  exact Check.result_bind_eq_ok.mpr ⟨_, hvalue, Check.result_bind_eq_ok.mpr ⟨_, hstart,
    Check.result_bind_eq_ok.mpr ⟨_, hfiles, hfinish⟩⟩⟩

/-! ### What a leaf says -/

/-- What a leaf says about the format of one of its files, given the text. -/
def pathFindings (tree : FileTree) (ctx : Context) (entry : EntryTree) (value : String)
    (target : Crawl.Target) (path content : String) : List Diagnostic :=
  if Source.isLintableName path then
    textFindings tree entry.field path value target.location target.afterNode
      (globbed ctx value path) content
  else []

/-- The check of a file, when there is one, examines the text of the file. -/
theorem fileCheck?_cases (h : tree.TakesAnyPath) (ctx : Context) (entry : EntryTree)
    (value : String) (target : Crawl.Target) (path : String) :
    (∃ check, entry.fileCheck? ctx value target path = some check
        ∧ check.Examines tree [path] (entry.pathFindings tree ctx value target path))
      ∨ entry.fileCheck? ctx value target path = none
        ∧ entry.pathFindings tree ctx value target path = fun _ => [] := by
  cases hname : Source.isLintableName path with
  | true =>
    have hjsx := Context.jsxExtension?_of_isLintableName hname
    have hjudged : entry.pathFindings tree ctx value target path
        = textFindings tree entry.field path value target.location target.afterNode
            (globbed ctx value path) := funext fun content => if_pos hname
    refine Or.inl ⟨_, by rw [fileCheck?, if_neg (by simp [hjsx]), if_pos hname], ?_⟩
    rw [hjudged]
    exact examines_checkFile h _ _ _ _
  | false =>
    have hjudged : entry.pathFindings tree ctx value target path = fun _ => [] :=
      funext fun content => if_neg (by simp [hname])
    rw [hjudged]
    cases hcheck : entry.fileCheck? ctx value target path with
    | none => exact Or.inr ⟨rfl, rfl⟩
    | some check =>
      refine Or.inl ⟨check, rfl, ?_⟩
      rw [fileCheck?, if_neg (by simp [hname] : ¬ Source.isLintableName path = true)] at hcheck
      split at hcheck
      · simp at hcheck
      · split at hcheck
        · obtain rfl := Option.some.inj hcheck
          exact examines_checkPresence h path
        · simp at hcheck

/-- What the checks of a leaf say is what is said of its files, one by one. -/
theorem flatMap_fileChecks {tell : Check Unit → List Diagnostic} {told : String → List Diagnostic}
    (h : tree.TakesAnyPath)
    (htell : ∀ path check,
      check.Examines tree [path] (entry.pathFindings tree ctx value target path) →
        tell check = told path)
    (hsilent : ∀ path, (entry.pathFindings tree ctx value target path = fun _ => []) →
      told path = []) (paths : List String) :
    (paths.filterMap (entry.fileCheck? ctx value target)).flatMap tell = paths.flatMap told := by
  rw [List.filterMap_eq_flatMap_toList, List.flatMap_assoc]
  refine List.flatMap_congr fun path _ => ?_
  rcases fileCheck?_cases h ctx entry value target path with
    ⟨check, hcheck, hexamines⟩ | ⟨hcheck, hnone⟩
  · rw [hcheck, Option.toList_some, List.flatMap_singleton, htell path check hexamines]
  · rw [hcheck, hsilent path hnone]
    rfl

section

variable (h : tree.TakesAnyPath) (hl : tree.ListsDirs)
  (hcrawled : (entry.field = .imports && !Text.hasStart target.value ".") = false)
  (hvalue : (entry.starFolder ctx target).result tree = .ok value)

include h hl hcrawled hvalue

/-- What a leaf says about the format of a file is what it says of those of its paths that lead to the
file. -/
theorem textual_about_task (file : String) :
    ofCodes textualCodes ((entry.task ctx target).about tree file)
      = (entry.files tree ctx value target.location).flatMap fun path =>
          tree.saidOf file [path] (entry.pathFindings tree ctx value target path) := by
  obtain ⟨name, hresult⟩ := result_checkTarget hl hcrawled hvalue
  have hbatch : (entry.task ctx target).check.result tree = _ := hresult
  rw [Task.textual_about (reports_checkTarget ctx entry target) (not_textual_of_target _), hbatch]
  refine flatMap_fileChecks h (fun path check hexamines => hexamines.about file)
    (fun path hnone => ?_) _
  exact FileTree.saidOf_eq_nil fun _ text _ _ => congrFun hnone text

/-- What a leaf says about formats is what it says of the files that can be read. -/
theorem textual_findings_task :
    ofCodes textualCodes ((entry.task ctx target).findings tree)
      = (entry.files tree ctx value target.location).flatMap fun path =>
          match tree.firstText? [path] with
          | some found => entry.pathFindings tree ctx value target path found.2
          | none => [] := by
  obtain ⟨name, hresult⟩ := result_checkTarget hl hcrawled hvalue
  have hbatch : (entry.task ctx target).check.result tree = _ := hresult
  rw [Task.ofCodes_findings (reports_checkTarget ctx entry target) (not_textual_of_target _), hbatch]
  refine flatMap_fileChecks h (fun path check hexamines => hexamines.findings)
    (fun path hnone => ?_) _
  rw [hnone]
  cases tree.firstText? [path] <;> rfl

end

/-! ### Patterns and plain targets -/

/-- Whether a finding is one that a pattern does not report: a comparison, where the file is there with
the extension of a format. -/
def isExcusedBySibling (tree : FileTree) (path : String) (format : Format) (d : Diagnostic) : Bool :=
  FileFormat.codes.contains d.code && tree.isThere (FileFormat.sibling path format)

/-- A comparison with the relaxation for siblings is one without, less what the sibling excuses. -/
theorem findings_rightSibling (path content : String) (location : Location) (shown : Option String) :
    FileFormat.findings tree path content location { bundlerEsm := true, rightSibling := true } shown
      = (FileFormat.findings tree path content location { bundlerEsm := true } shown).filter
          fun d => !isExcusedBySibling tree path (Source.classify content) d := by
  let found :=
    FileFormat.mismatch path location (Source.classify content) (tree.expectedFormat path) shown
  have hcode : FileFormat.codes.contains found.code = true :=
    List.contains_iff_mem.mpr (FileFormat.code_mismatch _ _ _ _ _)
  have hexcused : isExcusedBySibling tree path (Source.classify content) found
      = tree.isThere (FileFormat.sibling path (Source.classify content)) := by
    rw [isExcusedBySibling, hcode, Bool.true_and]
  simp only [FileFormat.findings, FileFormat.isExcused, Bool.true_and, Bool.false_and, Bool.or_false,
    Bool.not_or, ← Bool.and_assoc]
  cases (Source.classify content).mismatch (tree.expectedFormat path)
      && !(decide (Source.classify content = .esm) && FileFormat.forBundlers path) with
  | false => rfl
  | true =>
    rw [Bool.true_and, if_pos rfl, List.filter_singleton, hexcused]
    cases tree.isThere (FileFormat.sibling path (Source.classify content)) <;> rfl

/-- What the text of a file shows under a pattern is what it shows under a plain target whose value is
the path to show, less what a sibling excuses. -/
theorem textFindings_globbed (field : EntryField) (path value shown : String) (location : Location)
    (afterNode : Bool) (content : String) :
    textFindings tree field path value location afterNode (some shown) content
      = (textFindings tree field path shown location afterNode none content).filter
          fun d => !isExcusedBySibling tree path (Source.classify content) d := by
  have hmodule : isExcusedBySibling tree path (Source.classify content) (wrongModule field location)
      = false := by
    have hcode : FileFormat.codes.contains (wrongModule field location).code = false := by
      cases field <;> rfl
    rw [isExcusedBySibling, hcode, Bool.false_and]
  simp only [textFindings]
  split
  · split
    · split
      · rw [List.filter_singleton, hmodule]
        rfl
      · rfl
    · split
      · rfl
      · exact findings_rightSibling path content location (some shown)
  · rfl

/-- What a leaf with a pattern says of a file is what the leaf that names the file says of it, less
what a sibling excuses. -/
theorem pathFindings_globbed (p : Location) (afterNode : Bool) {v value plain : String}
    (hglob : Pattern.hasWildcard value = true) (hplain : Pattern.hasWildcard plain = false)
    (hshown : "./" ++ ctx.relative path = plain) (content : String) :
    entry.pathFindings tree ctx value ⟨v, p, afterNode⟩ path content
      = (entry.pathFindings tree ctx plain ⟨plain, p, afterNode⟩ path content).filter
          fun d => !isExcusedBySibling tree path (Source.classify content) d := by
  have hmatched : globbed ctx value path = some plain := by rw [globbed, if_pos hglob, hshown]
  have hnamed : globbed ctx plain path = none := if_neg (by simp [hplain])
  rw [pathFindings, pathFindings]
  split
  · rw [hmatched, hnamed, textFindings_globbed]
  · rfl

/-- A target that starts like one is crawled. -/
theorem crawled_of_hasStart (field : EntryField) (h : Text.hasStart value "./" = true) :
    (field = .imports && !Text.hasStart value ".") = false := by
  rw [Text.hasStart_trans h (by decide), Bool.not_true, Bool.and_false]

/-- What a leaf says about formats, when its target names a file that can be read. -/
theorem textual_findings_plain (h : tree.TakesAnyPath) (hl : tree.ListsDirs) (entry : EntryTree)
    (target : Crawl.Target) (hstart : Text.hasStart target.value "./" = true)
    (hslash : Text.hasEnd target.value "/" = false)
    (hstar : Pattern.hasWildcard target.value = false) (hpath : ctx.within target.value = path)
    {content : String} (hread : tree.contents path = .ok content) :
    ofCodes textualCodes ((entry.task ctx target).findings tree)
      = entry.pathFindings tree ctx target.value target path content := by
  have hvalue : (entry.starFolder ctx target).result tree = .ok target.value := by
    rw [starFolder, if_neg (by simp [hslash])]
    rfl
  have hfiles : entry.files tree ctx target.value target.location = [path] := by
    rw [files, if_neg (by simp [hstar]), targetPath, if_pos (Path.looksRelative_of_hasStart hstart),
      hpath]
  rw [textual_findings_task h hl (crawled_of_hasStart _ hstart) hvalue, hfiles,
    List.flatMap_singleton, FileTree.firstText?_cons_of_contents hread]

end EntryTree

/-! ### Trees in memory -/

/-- The way from the package to a path below the same root leads back to the path. -/
theorem Context.within_relative {k : Nat} {names : List Path.Segment} (ctx : Context)
    (hk : Path.IsRoot k) (hnames : Path.Names names)
    (hroot : Path.rootSlashes (Path.ofNames k names).toList = Path.rootSlashes ctx.pkgDir.toList) :
    ctx.within ("./" ++ ctx.relative (Path.ofNames k names)) = Path.ofNames k names
      ∧ Text.hasEnd ("./" ++ ctx.relative (Path.ofNames k names)) "/" = false := by
  rw [Path.toList_ofNames, Path.rootSlashes_ofNames hk.le hnames] at hroot
  have hrooted : Path.rootSlashes ctx.pkgDir.toList ≠ 0 := hroot ▸ hk.ne_zero
  obtain ⟨j, start, hj, hstart, hnormal⟩ := Path.normalize_eq_ofNames hrooted
  have hsame : j = k := (Path.rootSlashes_of_normalize hj hstart hnormal).symm.trans hroot.symm
  subst hsame
  exact ⟨Path.join_relative ctx.workDir hj hstart hnames hnormal,
    Path.hasEnd_relative ctx.workDir hj hstart hnames hnormal⟩

namespace EntryTree

open PackageLint.MemoryTree

variable {tree : MemoryTree} {ctx : Context} {entry : EntryTree} {target : Crawl.Target}
  {value file : String}

/-- What a leaf with a pattern says about the format of a file that the pattern finds. -/
theorem textual_about_pattern (h : tree.Sound)
    (hcrawled : (entry.field = .imports && !Text.hasStart target.value ".") = false)
    (hvalue : (entry.starFolder ctx target).result tree.toFileTree = .ok value)
    (hglob : Pattern.hasWildcard value = true)
    (hfile : file ∈ tree.toFileTree.expanded ctx.depth (entry.search ctx value target.location))
    {content : String} (hread : tree.toFileTree.contents file = .ok content) :
    ofCodes textualCodes ((entry.task ctx target).about tree.toFileTree file)
      = (List.replicate
          ((tree.toFileTree.expanded ctx.depth (entry.search ctx value target.location)).count file)
          (entry.pathFindings tree.toFileTree ctx value target file content)).flatten := by
  have hfiles : entry.files tree.toFileTree ctx value target.location
      = tree.toFileTree.expanded ctx.depth (entry.search ctx value target.location) := if_pos hglob
  have hnormal := h.normalize_of_hasKey (h.hasKey_of_mem_expanded hfile)
  have hself : tree.toFileTree.saidOf file [file]
        (entry.pathFindings tree.toFileTree ctx value target file)
      = entry.pathFindings tree.toFileTree ctx value target file content :=
    FileTree.saidOf_eq (FileTree.firstText?_cons_of_contents hread []) hnormal
  rw [textual_about_task tree.takesAnyPath tree.listsDirs hcrawled hvalue, hfiles, ← hself]
  exact flatMap_eq_of_count fun path hpath hne => h.saidOf_other hpath hne

/-- A leaf with a pattern makes the format findings of a file that the pattern finds which the leaf makes
that names the file by its way from the package, with all their arguments. It makes them for every time
that the search comes upon the file, which is once where every file has a name. Only a comparison is left
out, exactly where the path with the extension of the format that the text has is there. The file has
to lie below the root of the package, and the way to it must have no wildcard. -/
theorem pattern_formats_as_plain {files : List (String × String)}
    (htree : MemoryTree.ofFiles files = .ok tree) (ctx : Context) (entry : EntryTree) (p : Location)
    (afterNode : Bool) {v : String} (hstart : Text.hasStart v "./" = true)
    (hvalue : (entry.starFolder ctx ⟨v, p, afterNode⟩).result tree.toFileTree = .ok value)
    (hglob : Pattern.hasWildcard value = true)
    (hfile : file ∈ tree.toFileTree.expanded ctx.depth (entry.search ctx value p))
    (hroot : Path.rootSlashes file.toList = Path.rootSlashes ctx.pkgDir.toList)
    (hstar : Pattern.hasWildcard (ctx.relative file) = false) :
    let times := (tree.toFileTree.expanded ctx.depth (entry.search ctx value p)).count file
    let pattern := entry.task ctx ⟨v, p, afterNode⟩
    let plain := entry.task ctx ⟨"./" ++ ctx.relative file, p, afterNode⟩
    ∃ stem text, stem ++ Path.extension file = file ∧ tree.toFileTree.contents file = .ok text
      ∧ (tree.Named → times = 1)
      ∧ ofCodes (formatCodes entry.field) (pattern.about tree.toFileTree file)
        = (List.replicate times
            ((ofCodes (formatCodes entry.field) (plain.findings tree.toFileTree)).filter fun d =>
              !(FileFormat.codes.contains d.code
                && tree.isThere (stem ++ (Source.classify text).codeExtension)))).flatten := by
  intro times pattern plain
  have h := reachable_ofFiles htree
  obtain ⟨k, names, hk, hnames, hpath⟩ :=
    h.sound.file_normal file (h.sound.hasKey_of_mem_expanded hfile)
  obtain ⟨text, hread⟩ := h.sound.readable_of_mem_expanded hfile
  obtain ⟨stem, hstem⟩ := Path.exists_stem file
  refine ⟨stem, text, hstem, hread, fun hnamed => ?_, ?_⟩
  · exact List.count_eq_one_of_mem (h.nodup_expanded hnamed _ _) hfile
  · have hplain : Pattern.hasWildcard ("./" ++ ctx.relative file) = false := by
      simpa [Pattern.hasWildcard] using hstar
    have hwithin := ctx.within_relative hk hnames (hpath ▸ hroot)
    rw [← hpath] at hwithin
    have hnamed := textual_findings_plain tree.takesAnyPath tree.listsDirs entry
      ⟨"./" ++ ctx.relative file, p, afterNode⟩ (by simp [Text.hasStart]) hwithin.2 hplain hwithin.1
      hread
    have hmatched := textual_about_pattern h.sound (crawled_of_hasStart _ hstart) hvalue hglob hfile
      hread
    have hcodes : formatCodes entry.field ⊆ textualCodes := by
      cases entry.field <;> decide
    rw [← ofCodes_ofCodes hcodes, ← ofCodes_ofCodes hcodes (plain.findings _), hnamed, hmatched,
      pathFindings_globbed p afterNode hglob hplain rfl]
    simp only [isExcusedBySibling, FileFormat.sibling_eq hstem, ofCodes, List.filter_flatten,
      List.map_replicate]
    exact congrArg (fun ds => (List.replicate times ds).flatten) (List.filter_comm _ _ _)

/-- A file that a pattern finds is reported as by a plain target. -/
theorem wrong_module_matched :
    ∃ tree,
      MemoryTree.ofFiles
          [("/p/lib/a.mjs", "module.exports = 1"), ("/p/lib/b.mjs", "export default 1")]
        = .ok tree
      ∧ (let ctx : Context := { pkgDir := "/p", manifest := [], depth := 2 }
        let entry : EntryTree :=
          { field := .exports, tree := .leaf "./lib/*", location := ["exports"] }
        let pattern := entry.task ctx ⟨"./lib/*", ["exports"], false⟩
        ofCodes (formatCodes .exports) (pattern.about tree.toFileTree "/p/lib/a.mjs")
          = [FileFormat.mismatch "/p/lib/a.mjs" ["exports"] .cjs .esm (some "./lib/a.mjs")]) := by
  let files := [("/p/lib/a.mjs", "module.exports = 1"), ("/p/lib/b.mjs", "export default 1")]
  let tree : MemoryTree :=
    { files, dirs := [("/", ["p"]), ("/p/lib", ["a.mjs", "b.mjs"]), ("/p", ["lib"])] }
  have htree : MemoryTree.ofFiles files = .ok tree := by cbv
  refine ⟨tree, htree, ?_⟩
  intro ctx entry pattern
  have hstart : Text.hasStart "./lib/*" "./" = true := by decide
  have hvalue : (entry.starFolder ctx ⟨"./lib/*", ["exports"], false⟩).result tree.toFileTree
      = .ok "./lib/*" := rfl
  have hfile : "/p/lib/a.mjs"
      ∈ tree.toFileTree.expanded ctx.depth (entry.search ctx "./lib/*" ["exports"]) := by
    decide +kernel
  have hread : tree.toFileTree.contents "/p/lib/a.mjs" = .ok "module.exports = 1" := by cbv
  have hactual : Source.classify "module.exports = 1" = .cjs := by decide +kernel
  have hexpected : tree.toFileTree.expectedFormat "/p/lib/a.mjs" = .esm := by decide +kernel
  obtain ⟨stem, text, hstem, htext, honce, hfound⟩ :=
    pattern_formats_as_plain htree ctx entry ["exports"] false hstart hvalue (by decide) hfile
      (by decide +kernel) (by decide +kernel)
  obtain rfl := Except.ok.inj (hread.symm.trans htext)
  have hwithin : ctx.within "./lib/a.mjs" = "/p/lib/a.mjs" := by decide +kernel
  have hplain := textual_findings_plain tree.takesAnyPath tree.listsDirs entry
    ⟨"./lib/a.mjs", ["exports"], false⟩ (by decide) (by decide) (by decide) hwithin hread
  have hshown : entry.pathFindings tree.toFileTree ctx "./lib/a.mjs"
        ⟨"./lib/a.mjs", ["exports"], false⟩ "/p/lib/a.mjs" "module.exports = 1"
      = [FileFormat.mismatch "/p/lib/a.mjs" ["exports"] .cjs .esm (some "./lib/a.mjs")] := by
    rw [pathFindings, if_pos (by decide), textFindings, if_pos (by decide +kernel),
      if_neg (by decide), if_neg (by decide), FileFormat.findings, hactual, hexpected,
      if_pos (by decide +kernel)]
    rfl
  have hcodes : formatCodes .exports ⊆ textualCodes := by decide
  have hplainValue : "./" ++ ctx.relative "/p/lib/a.mjs" = "./lib/a.mjs" := by decide +kernel
  have hsibling : tree.isThere (stem ++ (Source.classify "module.exports = 1").codeExtension)
      = false := by
    rw [← FileFormat.sibling_eq hstem, hactual]
    decide +kernel
  rw [honce (by decide +kernel), hplainValue, ← ofCodes_ofCodes hcodes (Task.findings _ _), hplain,
    hshown] at hfound
  refine hfound.trans ?_
  simp only [hsibling, Bool.and_false]
  rfl

end EntryTree

end PackageLint
