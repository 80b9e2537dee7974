import PackageLint.Proofs.FileRoutes

/-!
# Texts that are no plain code

A text with type annotations is no plain code, so what it shows about a format means nothing. The scan
and the leaves of `exports` and `imports` leave such texts alone. The legacy routes do not ask: the
implicit entry point, `main`, `module` and the commands are judged whatever their texts are.

## Main definitions

* `Pass.LegacyJudges` — what the legacy routes say of a file with a text

## Main results

* `Pass.rejected_text_judged_iff` — what a pass says about the format of such a file is exactly that
-/

namespace PackageLint.Pass

open PackageLint.MemoryTree

/-- What the legacy routes say of a file with a text: that it is not in the format which is expected of
the path that leads to it. -/
inductive LegacyJudges (tree : FileTree) (ctx : Context) (file text : String) : Diagnostic → Prop
  | index (himplicit : (Fields.of ctx.manifest).areImplicit = true)
      (hfile : ctx.within PackageChecks.indexName = file)
      (hwrong : (Source.classify text).mismatch (tree.expectedFormat file) = true) :
    LegacyJudges tree ctx file text
      (PackageChecks.wrongIndex (Source.classify text) (tree.expectedFormat file))
  | named {p : Location} {v : String} (hv : ctx.manifest.Judges p v)
      (hname : Source.isLintableName v = true) (hresolves : tree.Resolves (ctx.within v) file text)
      (hwrong : (Source.classify text).mismatch (tree.expectedFormat (ctx.within v)) = true) :
    LegacyJudges tree ctx file text
      (FileFormat.mismatch (ctx.within v) p (Source.classify text)
        (tree.expectedFormat (ctx.within v)) none)
  | bundled {p : Location} {v : String} (hv : ctx.manifest.published "module" = (.str v, p))
      (hname : Source.isLintableName v = true) (hresolves : tree.Resolves (ctx.within v) file text)
      (hcjs : Source.classify text = .cjs) :
    LegacyJudges tree ctx file text (EntryChecks.wrongModule p)

section

variable {tree : FileTree} {ctx : Context} {file : String}

/-- Leaves and the scan say nothing about the format of a file whose text is no plain code. -/
theorem textual_exportsPlan_of_rejected (h : tree.TakesAnyPath) (hl : tree.ListsDirs)
    (hrejected : ∀ path text, tree.contents path = .ok text → Path.normalize path = file →
      Source.isLintable text = false) :
    ofCodes textualCodes ((exportsPlan ctx (Fields.of ctx.manifest)).tasks.flatMap fun task =>
      task.about tree file) = [] := by
  cases hexports : (Fields.of ctx.manifest).hasExports with
  | true =>
    rw [exportsPlan, hexports, if_pos rfl, Plan.tasks_append, List.flatMap_append, ofCodes_append,
      flatMap_about_eq_nil (fun _ => Declarations.reports_plan) (by decide), List.append_nil,
      ofCodes_flatMap, EntryTree.plan, List.flatMap_map]
    exact List.flatMap_eq_nil_iff.mpr fun _ _ => EntryTree.textual_about_of_rejected h hl hrejected
  | false =>
    rw [textual_exportsPlan h hl hexports, scanSays]
    refine List.flatMap_eq_nil_iff.mpr fun path _ =>
      FileTree.saidOf_eq_nil fun found text hfound hsame => ?_
    have htext := hrejected found text (FileTree.firstText?_eq_some hfound).2 hsame
    rw [AllFiles.textFindings, if_neg (by simp [htext])]

theorem textual_importsPlan_of_rejected (h : tree.TakesAnyPath) (hl : tree.ListsDirs)
    (hrejected : ∀ path text, tree.contents path = .ok text → Path.normalize path = file →
      Source.isLintable text = false) :
    ofCodes textualCodes ((importsPlan ctx (Fields.of ctx.manifest)).tasks.flatMap fun task =>
      task.about tree file) = [] := by
  rw [importsPlan]
  split
  · split
    · rw [ofCodes_flatMap, EntryTree.plan, List.flatMap_map]
      exact List.flatMap_eq_nil_iff.mpr fun _ _ => EntryTree.textual_about_of_rejected h hl hrejected
    · rfl
  · rfl

end

variable {tree : MemoryTree} {ctx : Context} {file text : String} {d : Diagnostic}

/-- What is found about the format of a file whose text is no plain code comes by the legacy routes. -/
theorem mem_about_of_rejected (h : tree.Sound) (hread : tree.toFileTree.contents file = .ok text)
    (hrejected : Source.isLintable text = false) :
    (d ∈ about tree.toFileTree ctx file ∧ d.code ∈ textualCodes)
      ↔ d ∈ indexSays tree.toFileTree ctx file ∨ d ∈ mainSays tree.toFileTree ctx file
        ∨ d ∈ moduleSays tree.toFileTree ctx file ∨ d ∈ commandsSay tree.toFileTree ctx file := by
  have htexts : ∀ path other, tree.toFileTree.contents path = .ok other →
      Path.normalize path = file → Source.isLintable other = false := fun path other hother hsame =>
    (h.text_unique hread hother hsame) ▸ hrejected
  rw [← mem_ofCodes, textual_about tree.takesAnyPath (tree.indexThere ctx),
    textual_exportsPlan_of_rejected tree.takesAnyPath tree.listsDirs htexts,
    textual_importsPlan_of_rejected tree.takesAnyPath tree.listsDirs htexts]
  simp only [List.append_nil, List.nil_append, List.mem_append, or_assoc]

/-- The legacy routes say what they say of any text. -/
theorem legacyJudges_iff (h : tree.Sound) (hroot : Path.isRooted ctx.pkgDir = true)
    (hread : tree.toFileTree.contents file = .ok text) :
    (d ∈ indexSays tree.toFileTree ctx file ∨ d ∈ mainSays tree.toFileTree ctx file
        ∨ d ∈ moduleSays tree.toFileTree ctx file ∨ d ∈ commandsSay tree.toFileTree ctx file)
      ↔ LegacyJudges tree.toFileTree ctx file text d := by
  have hsame : ∀ {other}, tree.toFileTree.contents file = .ok other → other = text := fun hother =>
    Except.ok.inj (hother.symm.trans hread)
  have hresolved : ∀ {path other}, tree.toFileTree.Resolves path file other → other = text :=
    fun hother => hsame (FileTree.firstText?_eq_some hother).2
  rw [mem_indexSays h hroot, mem_mainSays h hroot, mem_moduleSays h hroot, mem_commandsSay h hroot]
  constructor
  · rintro (⟨himplicit, hfile, other, hother, hd⟩ | ⟨v, p, other, hv, hresolves, hd⟩
      | ⟨v, p, other, hv, hresolves, hd⟩ | ⟨v, p, other, hv, hresolves, hd⟩)
    · obtain rfl := hsame hother
      obtain ⟨hwrong, hd⟩ := List.mem_ite_nil_right.mp hd
      obtain rfl := List.mem_singleton.mp hd
      exact .index himplicit hfile hwrong
    · obtain rfl := hresolved hresolves
      obtain ⟨hname, hwrong, rfl⟩ := mem_entryFindings.mp hd
      exact .named (Or.inl hv) hname hresolves hwrong
    · obtain rfl := hresolved hresolves
      obtain ⟨⟨hname, hcjs⟩, hd⟩ := List.mem_ite_nil_right.mp hd
      obtain rfl := List.mem_singleton.mp hd
      exact .bundled hv hname hresolves hcjs
    · obtain rfl := hresolved hresolves
      obtain ⟨hname, hwrong, rfl⟩ := mem_entryFindings.mp hd
      exact .named (Or.inr hv) hname hresolves hwrong
  · intro hd
    cases hd with
    | index himplicit hfile hwrong =>
      exact Or.inl ⟨himplicit, hfile, text, hread,
        List.mem_ite_nil_right.mpr ⟨hwrong, List.mem_singleton_self _⟩⟩
    | @named p v hv hname hresolves hwrong =>
      have hd := (mem_entryFindings (p := p)).mpr ⟨hname, hwrong, rfl⟩
      rcases hv with hv | hv
      · exact Or.inr (Or.inl ⟨v, p, text, hv, hresolves, hd⟩)
      · exact Or.inr (Or.inr (Or.inr ⟨v, p, text, hv, hresolves, hd⟩))
    | @bundled p v hv hname hresolves hcjs =>
      exact Or.inr (Or.inr (Or.inl ⟨v, p, text, hv, hresolves,
        List.mem_ite_nil_right.mpr ⟨⟨hname, hcjs⟩, List.mem_singleton_self _⟩⟩))

/-- What a pass reports that depends on texts is about the files of the tree. About a file whose text is
no plain code it is what the legacy routes say, and what they say is reported: neither the scan nor
a leaf of `exports` or `imports` ever judges such a file, and the implicit entry point, `main`, `module`
and the commands always do. -/
theorem rejected_text_judged_iff {files : List (String × String)} {tree : MemoryTree}
    (htree : MemoryTree.ofFiles files = .ok tree) {pkgDir : String} {manifest : Manifest}
    (hload : (Manifest.load pkgDir).result tree.toFileTree = .ok (.ok manifest))
    (options : Options) (workDir : String) :
    let ctx := contextOf tree.toFileTree.depth workDir pkgDir manifest options
    ∃ result, run tree.toFileTree pkgDir options workDir = .ok result
      ∧ (∀ d, d ∈ result.diagnostics ∧ d.code ∈ textualCodes
          ↔ ∃ file found, Assoc.hasKey file tree.files = true
            ∧ found ∈ about tree.toFileTree ctx file ∧ found.code ∈ textualCodes
            ∧ options.shown found = d ∧ options.level.atLeast d.severity = true)
      ∧ ∀ file text, tree.contents file = .ok text → Source.isLintable text = false →
          ∀ d, d ∈ about tree.toFileTree ctx file ∧ d.code ∈ textualCodes
            ↔ LegacyJudges tree.toFileTree ctx file text d := by
  intro ctx
  have h := (reachable_ofFiles htree).sound
  refine ⟨_, run_of_load hload _ _, fun d => ?_, fun file text hread hrejected d => ?_⟩
  · rw [mem_diagnostics_resultOf]
    constructor
    · rintro ⟨⟨⟨found, hfound, rfl⟩, hlevel⟩, hcode⟩
      rw [code_shown] at hcode
      obtain ⟨file, habout⟩ :=
        exists_about tree.takesAnyPath tree.listsDirs (tree.indexThere ctx) hfound hcode
      exact ⟨file, found, hasKey_of_mem_about habout, habout, hcode, rfl, hlevel⟩
    · rintro ⟨file, found, -, habout, hcode, rfl, hlevel⟩
      have hfound := (about_sublist tree.toFileTree ctx file).subset habout
      exact ⟨⟨⟨found, hfound, rfl⟩, hlevel⟩, by rwa [code_shown]⟩
  · have hroot : Path.isRooted ctx.pkgDir = true := h.isRooted_of_load hload
    rw [mem_about_of_rejected h hread hrejected, legacyJudges_iff h hroot hread]

/-- An entry point with type annotations is judged. -/
theorem annotated_main_judged :
    ∃ tree result,
      MemoryTree.ofFiles
          [("/p/package.json", "\x7b\"main\":\"./a.mjs\"\x7d"),
           ("/p/a.mjs", "// @flow\nmodule.exports = 1")]
        = .ok tree
      ∧ run tree.toFileTree "/p" {} "/" = .ok result
      ∧ Source.isLintable "// @flow\nmodule.exports = 1" = false
      ∧ ∃ d ∈ result.diagnostics, d.code = .fileInvalidExplicitFormat ∧ d.location = ["main"] := by
  let text := "// @flow\nmodule.exports = 1"
  let files := [("/p/package.json", "\x7b\"main\":\"./a.mjs\"\x7d"), ("/p/a.mjs", text)]
  let tree : MemoryTree := { files, dirs := [("/", ["p"]), ("/p", ["package.json", "a.mjs"])] }
  have htree : MemoryTree.ofFiles files = .ok tree := by cbv
  have hload : (Manifest.load "/p").result tree.toFileTree
      = .ok (.ok [("main", .str "./a.mjs")]) := by
    cbv
  obtain ⟨result, hrun, hreported, hjudged⟩ := rejected_text_judged_iff htree hload {} "/"
  let ctx := contextOf tree.toFileTree.depth "/" "/p" [("main", .str "./a.mjs")] {}
  have hrejected : Source.isLintable text = false := by decide +kernel
  have hread : tree.contents "/p/a.mjs" = .ok text := by cbv
  have hwithin : ctx.within "./a.mjs" = "/p/a.mjs" := by decide +kernel
  have hresolves : tree.toFileTree.Resolves (ctx.within "./a.mjs") "/p/a.mjs" text := by
    rw [hwithin]
    exact FileTree.firstText?_cons_of_contents hread _
  have hwrong : (Source.classify text).mismatch
      (tree.toFileTree.expectedFormat (ctx.within "./a.mjs")) = true := by
    rw [hwithin]
    decide +kernel
  have hmain : Manifest.Judges [("main", .str "./a.mjs")] ["main"] "./a.mjs" := Or.inl rfl
  obtain ⟨habout, hcode⟩ := (hjudged "/p/a.mjs" text hread hrejected _).mpr
    (.named hmain (by decide) hresolves hwrong)
  exact ⟨tree, result, htree, hrun, hrejected, _,
    ((hreported _).mpr ⟨_, _, by decide, habout, hcode, rfl, by decide⟩).1, by decide, rfl⟩

end PackageLint.Pass
