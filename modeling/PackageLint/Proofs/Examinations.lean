import PackageLint.Proofs.EntryFormats
import PackageLint.Proofs.Subjects

/-!
# What the text of a file shows

The checks that speak of formats are all of one kind. Each has some paths to try and reads the first
that can be read; what it says about formats is then a function of the text alone, given the manifests
of the tree. The paths and the function differ: legacy resolution tries three paths and judges the text
by the path that a value names, the scan and the targets try one.

## Main definitions

* `Check.Examines` — a check is of this kind, with its paths and its judgement
* `FileTree.saidOf` — what such a check says of one file
* `AllFiles.textFindings`, `EntryTree.textFindings` and the others — the judgements

## Main results

* `Check.Examines.about` — what is found about a file is what is said of it
* `EntryChecks.examines_checkMain` and the others — the checks of each field and of the scan
-/

namespace PackageLint

variable {tree : FileTree} {ctx : Context} {location : Location} {file : String}
  {paths : List String} {judge : String → List Diagnostic}

/-! ### Examinations -/

/-- What is said of a file, when it is the first of some paths that can be read. -/
def FileTree.saidOf (tree : FileTree) (file : String) (paths : List String)
    (judge : String → List Diagnostic) : List Diagnostic :=
  match tree.firstText? paths with
  | some (found, text) => if Path.normalize found = file then judge text else []
  | none => []

theorem FileTree.mem_saidOf {d : Diagnostic} :
    d ∈ tree.saidOf file paths judge
      ↔ ∃ found text, tree.firstText? paths = some (found, text) ∧ Path.normalize found = file
          ∧ d ∈ judge text := by
  rw [saidOf]
  cases tree.firstText? paths with
  | none => simp
  | some found =>
    obtain ⟨path, text⟩ := found
    simp [List.mem_ite_nil_right]

theorem FileTree.saidOf_eq {found text : String} (h : tree.firstText? paths = some (found, text))
    (hfound : Path.normalize found = file) : tree.saidOf file paths judge = judge text := by
  simp [saidOf, h, hfound]

/-- Nothing is said of a file when the judgement of its text is empty. -/
theorem FileTree.saidOf_eq_nil (h : ∀ found text, tree.firstText? paths = some (found, text) →
    Path.normalize found = file → judge text = []) : tree.saidOf file paths judge = [] := by
  refine List.eq_nil_iff_forall_not_mem.mpr fun d hd => ?_
  obtain ⟨found, text, hfound, hsame, hd⟩ := mem_saidOf.mp hd
  rw [h found text hfound hsame] at hd
  exact absurd hd List.not_mem_nil

/-- A check looks at the first of some paths that can be read, and what it says about formats is a
judgement of the text. -/
structure Check.Examines {α : Type} (tree : FileTree) (paths : List String)
    (judge : String → List Diagnostic) (c : Check α) : Prop where
  subject : c.subject? tree = tree.firstFile? paths
  findings : ofCodes textualCodes (c.findings tree)
    = match tree.firstText? paths with
      | some found => judge found.2
      | none => []

namespace Check.Examines

variable {α : Type} {c : Check α} (h : c.Examines tree paths judge)

include h

/-- What is found about a file is what is said of it. -/
theorem about (file : String) :
    ofCodes textualCodes (c.about tree file) = tree.saidOf file paths judge := by
  have hsubject := h.subject
  have hfindings := h.findings
  rw [FileTree.firstFile?] at hsubject
  rw [Check.about, FileTree.saidOf, hsubject]
  cases hfound : tree.firstText? paths with
  | none => rfl
  | some found =>
    rw [hfound] at hfindings
    simp only [Option.map_some, Option.some.injEq]
    split
    · exact hfindings
    · rfl

/-- What is said about formats is said of a file. -/
theorem exists_about {d : Diagnostic} (hd : d ∈ c.findings tree) (hcode : d.code ∈ textualCodes) :
    ∃ file, d ∈ c.about tree file := by
  have hmem : d ∈ ofCodes textualCodes (c.findings tree) := mem_ofCodes.mpr ⟨hd, hcode⟩
  rw [h.findings] at hmem
  cases hfound : tree.firstText? paths with
  | none => simp [hfound] at hmem
  | some found =>
    refine ⟨Path.normalize found.1, Check.mem_about.mpr ⟨?_, hd⟩⟩
    rw [h.subject, FileTree.firstFile?, hfound, Option.map_some]

end Check.Examines

/-! ### Comparisons -/

namespace FileFormat

/-- Comparisons come from the text of a file. -/
theorem textual_findings (path content : String) (location : Location) (leniency : Leniency)
    (shown : Option String) :
    ofCodes textualCodes (findings tree path content location leniency shown)
      = findings tree path content location leniency shown := by
  refine ofCodes_eq_self fun d hd => ?_
  obtain ⟨-, rfl⟩ := mem_findings.mp hd
  exact List.mem_append_left _ (judgesFormat_mismatch path location _ _ shown)

/-- A comparison is all that is said about formats, when what follows says nothing of them. -/
theorem textual_check_bind {β : Type} (path content : String) (location : Location)
    (leniency : Leniency) (shown : Option String) {f : Format → Check β}
    (hf : ∀ actual, ofCodes textualCodes ((f actual).findings tree) = []) :
    ofCodes textualCodes
        (((check path content location leniency shown).bind f).findings tree)
      = findings tree path content location leniency shown := by
  have hcheck : (check path content location leniency shown).findings tree
      = findings tree path content location leniency shown :=
    congrArg Outcome.findings (run_check tree path content location leniency shown)
  have hresult : (check path content location leniency shown).result tree
      = .ok (Source.classify content) :=
    congrArg Outcome.result (run_check tree path content location leniency shown)
  rw [Check.findings_bind, ofCodes_append, hcheck, textual_findings, hresult]
  simp only [hf, List.append_nil]

end FileFormat

/-! ### The implicit entry point -/

namespace PackageChecks

/-- The finding that the implicit entry point has another format than expected. -/
def wrongIndex (actual expected : Format) : Diagnostic :=
  { code := .implicitIndexJsInvalidFormat, severity := .warning, location := wholePackage
    args := [("actual_format", .format actual), ("expect_format", .format expected)] }

/-- What the text of the implicit entry point shows. -/
def textFindings (tree : FileTree) (path content : String) : List Diagnostic :=
  if (Source.classify content).mismatch (tree.expectedFormat path) then
    [wrongIndex (Source.classify content) (tree.expectedFormat path)]
  else []

/-- The implicit entry point is examined, on trees where what can be read is there. -/
theorem examines_checkIndex (h : tree.TakesAnyPath)
    (hthere : tree.Readable (ctx.within indexName) → tree.isThere (ctx.within indexName) = true) :
    (checkIndex ctx).Examines tree [ctx.within indexName]
      (textFindings tree (ctx.within indexName)) := by
  have hblind : tree.isThere (ctx.within indexName) = false →
      tree.text? (ctx.within indexName) = none := fun hno =>
    FileTree.text?_eq_none.mpr fun hread => by simp [hthere hread] at hno
  constructor
  · rw [subject?_checkIndex h]
    split
    next => rfl
    next hno =>
      rw [FileTree.firstFile?, FileTree.firstText?_singleton, hblind (by simpa using hno)]
      rfl
  · rw [FileTree.firstText?_singleton, checkIndex, Check.bind_eq, Check.findings,
      Check.run_isThere_bind]
    split
    next =>
      rw [Check.bind_eq, Check.run_bind_of_quiet (Context.run_readQuietly h _)]
      cases tree.text? (ctx.within indexName) with
      | none => rfl
      | some content =>
        simp only [Check.bind_eq, Option.map_some]
        rw [Check.run_bind_of_quiet (Manifest.run_expectedFormat tree _), textFindings]
        split <;> rfl
    next hno =>
      rw [hblind (by simpa using hno)]
      rfl

end PackageChecks

/-! ### Entry fields -/

namespace EntryChecks

/-- What the text that a value of `main`, or a command, resolves to shows. -/
def textFindings (tree : FileTree) (ctx : Context) (v : String) (location : Location)
    (content : String) : List Diagnostic :=
  if Source.isLintableName v then FileFormat.findings tree (ctx.within v) content location else []

/-- The finding that `module` has the wrong format. -/
def wrongModule (location : Location) : Diagnostic :=
  { code := .moduleShouldBeEsm, severity := .error, location }

/-- What the text that a value of `module` resolves to shows. -/
def moduleFindings (v : String) (location : Location) (content : String) : List Diagnostic :=
  if Source.isLintableName v ∧ Source.classify content = .cjs then [wrongModule location] else []

/-- A finding that does not come from the text of a file says nothing about formats. -/
theorem textual_cons (code : Code) (hcode : code ∉ textualCodes) {d : Diagnostic}
    (hd : d.code = code) (ds : List Diagnostic) :
    ofCodes textualCodes (d :: ds) = ofCodes textualCodes ds :=
  List.filter_cons_of_neg (by simpa [hd] using hcode)

/-- What is said about formats when an entry point has been read. -/
theorem textual_readLegacy_bind (h : tree.TakesAnyPath) (v : String)
    {f : Option (String × String) → Check Unit} (hf : (f none).findings tree = []) :
    ofCodes textualCodes (((readLegacy ctx (.str v) location).bind f).findings tree)
      = match tree.firstText? (Context.candidates (ctx.within v) Context.legacyExtensions) with
        | some found =>
          if Source.isLintableName v then
            ofCodes textualCodes ((f (some (v, found.2))).findings tree)
          else []
        | none => [] := by
  have hread : ofCodes textualCodes ((readLegacy ctx (.str v) location).findings tree) = [] :=
    ofCodes_eq_nil fun d hd => by
      have hcodes : ∀ code ∈ legacyCodes, code ∉ textualCodes := by decide
      exact hcodes _ ((reports_readLegacy (.str v) location).of_mem hd)
  rw [Check.findings_bind, ofCodes_append, hread, List.nil_append, Check.result, run_readLegacy h]
  cases tree.firstText? (Context.candidates (ctx.within v) Context.legacyExtensions) with
  | none => cases Source.isLintableName v <;> simp [hf]
  | some found => cases Source.isLintableName v <;> simp [hf]

theorem examines_checkMain (h : tree.TakesAnyPath) (v : String) (hasExports : Bool) :
    (checkMain ctx (.str v) location hasExports).Examines tree
      (Context.candidates (ctx.within v) Context.legacyExtensions)
      (textFindings tree ctx v location) where
  subject := subject?_checkMain h v hasExports
  findings := by
    rw [checkMain, Check.bind_eq, textual_readLegacy_bind h v rfl]
    cases tree.firstText? (Context.candidates (ctx.within v) Context.legacyExtensions) with
    | none => rfl
    | some found =>
      simp only [textFindings]
      split
      · refine FileFormat.textual_check_bind _ _ _ _ _ fun actual => ?_
        split
        · exact textual_cons .hasEsmMainButNoExports (by decide) rfl []
        · rfl
      · rfl

theorem examines_checkModule (h : tree.TakesAnyPath) (v : String) (hasExports : Bool) :
    (checkModule ctx (.str v) location hasExports).Examines tree
      (Context.candidates (ctx.within v) Context.legacyExtensions) (moduleFindings v location) where
  subject := subject?_checkModule h v hasExports
  findings := by
    rw [checkModule, Check.bind_eq, textual_readLegacy_bind h v rfl]
    cases tree.firstText? (Context.candidates (ctx.within v) Context.legacyExtensions) with
    | none => rfl
    | some found =>
      simp only [moduleFindings, ite_and]
      split
      · cases hasExports <;> split <;> rfl
      · rfl

theorem examines_checkCommand (h : tree.TakesAnyPath) (v : String) :
    (checkCommand ctx v location).Examines tree
      (Context.candidates (ctx.within v) Context.legacyExtensions)
      (textFindings tree ctx v location) where
  subject := subject?_checkCommand h v
  findings := by
    have hread : ofCodes textualCodes ((ctx.readEntry (ctx.within v) location
        Context.legacyExtensions).findings tree) = [] :=
      ofCodes_eq_nil fun d hd => by
        have hcodes : ∀ code ∈ readCodes, code ∉ textualCodes := by decide
        exact hcodes _ ((reports_readEntry _ _ _).of_mem hd)
    rw [checkCommand, Check.bind_eq, Check.findings_bind, ofCodes_append, hread, List.nil_append,
      Check.result, Context.run_readEntry h]
    cases tree.firstText? (Context.candidates (ctx.within v) Context.legacyExtensions) with
    | none => rfl
    | some found =>
      have hformat : ofCodes textualCodes (((FileFormat.check (ctx.within v) found.2 location).bind
          fun _ => (pure () : Check Unit)).findings tree)
            = FileFormat.findings tree (ctx.within v) found.2 location :=
        FileFormat.textual_check_bind _ _ _ _ _ fun _ => rfl
      simp only [Option.map_some, textFindings]
      split
      · split
        · exact hformat
        · rw [Check.bind_eq, Check.findings, Check.run_add_bind]
          exact (textual_cons .binFileNotExecutable (by decide) rfl _).trans hformat
      · rfl

end EntryChecks

/-! ### Files of the scan and of targets -/

/-- What the text of a file of the scan shows. -/
def AllFiles.textFindings (tree : FileTree) (path shown content : String) : List Diagnostic :=
  if Source.isLintable content then
    FileFormat.findings tree path content PackageChecks.wholePackage
      { bundlerEsm := true, rightSibling := true } (some shown)
  else []

theorem AllFiles.examines_checkFile (h : tree.TakesAnyPath) (path shown : String) :
    (checkFile path shown).Examines tree [path] (textFindings tree path shown) where
  subject := subject?_checkFile h path shown
  findings := by
    rw [FileTree.firstText?_singleton, checkFile, Check.bind_eq, Check.findings,
      Check.run_bind_of_quiet (Context.run_readQuietly h _)]
    cases tree.text? path with
    | none => rfl
    | some content =>
      simp only [Option.map_some, textFindings]
      split
      · exact FileFormat.textual_check_bind _ _ _ _ _ fun _ => rfl
      · rfl

namespace EntryTree

variable {entry : EntryTree}

/-- What the text of a target's file shows. -/
def textFindings (tree : FileTree) (field : EntryField) (path value : String) (location : Location)
    (afterNode : Bool) (globbed : Option String) (content : String) : List Diagnostic :=
  if Source.isLintable content then
    if location.contains "module" then
      if Source.classify content = .cjs then [wrongModule field location] else []
    else if afterNode || location.contains "browser" then []
    else
      FileFormat.findings tree path content location
        { bundlerEsm := true, rightSibling := globbed.isSome } (some (globbed.getD value))
  else []

theorem findings_checkContent (path content value : String) (afterNode : Bool)
    (globbed : Option String) :
    (entry.checkContent path content value location afterNode globbed).findings tree
      = textFindings tree entry.field path value location afterNode globbed content := by
  rw [checkContent, textFindings]
  cases Source.isLintable content with
  | false => rfl
  | true =>
    simp only [Bool.not_true, Bool.false_eq_true, if_false, if_true]
    split
    · split <;> rfl
    · split
      · rfl
      · exact FileFormat.findings_check_bind _ _ _ _ _ fun _ => rfl

theorem textual_textFindings (field : EntryField) (path value : String) (afterNode : Bool)
    (globbed : Option String) (content : String) :
    ofCodes textualCodes (textFindings tree field path value location afterNode globbed content)
      = textFindings tree field path value location afterNode globbed content := by
  rw [textFindings]
  split
  · split
    · split
      · cases field <;> rfl
      · rfl
    · split
      · rfl
      · exact FileFormat.textual_findings _ _ _ _ _
  · rfl

theorem examines_checkFile (h : tree.TakesAnyPath) (path value : String) (afterNode : Bool)
    (globbed : Option String) :
    (entry.checkFile ctx path value location afterNode globbed).Examines tree [path]
      (textFindings tree entry.field path value location afterNode globbed) where
  subject := subject?_checkFile h path value afterNode globbed
  findings := by
    have hread : ofCodes textualCodes ((ctx.readEntry path location).findings tree) = [] :=
      ofCodes_eq_nil fun d hd => by
        have hcodes : ∀ code ∈ EntryChecks.readCodes, code ∉ textualCodes := by decide
        exact hcodes _ ((EntryChecks.reports_readEntry _ _ _).of_mem hd)
    rw [checkFile, Check.bind_eq, Check.findings_bind, ofCodes_append, hread, List.nil_append,
      Check.result, Context.run_readEntry h, Context.candidates, List.map_nil]
    cases tree.firstText? [path] with
    | none => rfl
    | some found =>
      simp only [Option.map_some]
      rw [findings_checkContent, textual_textFindings]

theorem examines_checkPresence (h : tree.TakesAnyPath) (path : String) :
    (checkPresence ctx path location).Examines tree [path] fun _ => [] where
  subject := subject?_checkPresence h path
  findings := by
    have hcodes : ∀ code ∈ EntryChecks.readCodes, code ∉ textualCodes := by decide
    rw [checkPresence, Check.bind_eq, Check.findings_bind_of_silent _ fun _ => rfl]
    rw [ofCodes_eq_nil fun d hd => hcodes _ ((EntryChecks.reports_readEntry _ _ _).of_mem hd)]
    cases tree.firstText? [path] <;> rfl

end EntryTree

end PackageLint
