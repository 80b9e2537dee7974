import PackageLint.Proofs.CheckCodes

/-!
# What a crawl says about formats

The file of a plain target is compared with the format that its path expects, with three ways out: a
`module` condition asks for one format only, what is for browsers or comes behind a `node` key is not
compared at all, and bundlers may read either format. The findings at the place of a leaf are
determined here to the last, for any tree.

The findings of a whole crawl are those of its leaves in turn, and each leaf reports at its own place.
Since no two leaves share a place, the findings at one place are those of one leaf.

## Main definitions

* `formatFindings` — the findings about formats at a place

## Main results

* `EntryTree.formatFindings_plan` — the findings of a crawl at the place of a leaf are the leaf's
* `EntryTree.formatFindings_task` — the findings of a leaf whose target is a readable file
* `EntryTree.crawled_formats_exact` — both together, condition by condition
-/

namespace PackageLint

/-- The codes of findings about the formats of targets. -/
def formatCodes (field : EntryField) : List Code :=
  [.entry field .moduleShouldBeEsm, .fileInvalidFormat, .fileInvalidExplicitFormat]

/-- The findings about formats at a place. -/
def formatFindings (field : EntryField) (place : Location) (ds : List Diagnostic) :
    List Diagnostic :=
  ds.filter fun d => decide (d.location = place) && (formatCodes field).contains d.code

section

variable {field : EntryField} {place : Location}

@[simp] theorem formatFindings_nil : formatFindings field place [] = [] := rfl

@[simp] theorem formatFindings_append (a b : List Diagnostic) :
    formatFindings field place (a ++ b)
      = formatFindings field place a ++ formatFindings field place b :=
  List.filter_append a b

theorem formatFindings_eq_nil_of_code {ds : List Diagnostic}
    (h : ∀ d ∈ ds, d.code ∉ formatCodes field) : formatFindings field place ds = [] := by
  refine List.filter_eq_nil_iff.mpr fun d hd => ?_
  simp [h d hd]

theorem formatFindings_eq_nil_of_place {ds : List Diagnostic} (h : ∀ d ∈ ds, d.location ≠ place) :
    formatFindings field place ds = [] := by
  refine List.filter_eq_nil_iff.mpr fun d hd => ?_
  simp [h d hd]

/-- Where every item reports at a place of its own, the findings at one place are those of one
item. -/
theorem formatFindings_flatMap {α : Type} {location : α → Location} {f : α → List Diagnostic}
    {items : List α} (hnodup : (items.map location).Nodup)
    (hf : ∀ a ∈ items, ∀ d ∈ f a, d.location = location a) {a : α} (ha : a ∈ items) :
    formatFindings field (location a) (items.flatMap f) = formatFindings field (location a) (f a) := by
  induction items with
  | nil => exact absurd ha List.not_mem_nil
  | cons first rest ih =>
    rw [List.map_cons, List.nodup_cons] at hnodup
    obtain ⟨hfirst, hrest⟩ := List.forall_mem_cons.mp hf
    have hothers : ∀ b ∈ rest, location b ≠ location first := fun b hb heq =>
      hnodup.1 (List.mem_map.mpr ⟨b, hb, heq⟩)
    rw [List.flatMap_cons, formatFindings_append]
    rcases List.mem_cons.mp ha with rfl | ha
    · have hrest : formatFindings field (location a) (rest.flatMap f) = [] := by
        refine formatFindings_eq_nil_of_place fun d hd => ?_
        obtain ⟨b, hb, hd⟩ := List.mem_flatMap.mp hd
        rw [hrest b hb d hd]
        exact hothers b hb
      rw [hrest, List.append_nil]
    · rw [ih hnodup.2 hrest ha, formatFindings_eq_nil_of_place, List.nil_append]
      intro d hd
      rw [hfirst d hd]
      exact (hothers a ha).symm

end

/-! ### Findings of one leaf -/

namespace EntryTree

variable {tree : FileTree} {ctx : Context} {entry : EntryTree} {target : Crawl.Target}

/-- The finding that the target of a `module` condition has the wrong format. -/
def wrongModule (field : EntryField) (location : Location) : Diagnostic :=
  { code := .entry field .moduleShouldBeEsm, severity := .error, location }

/-- What the text of a plain target's file shows. -/
def contentFindings (tree : FileTree) (field : EntryField) (path content value : String)
    (location : Location) (afterNode : Bool) : List Diagnostic :=
  if location.contains "module" then
    if Source.classify content = .cjs then [wrongModule field location] else []
  else if afterNode || location.contains "browser" then []
  else FileFormat.findings tree path content location { bundlerEsm := true } (some value)

theorem run_checkContent (tree : FileTree) (entry : EntryTree) {content : String}
    (hcontent : Source.isLintable content = true) (path value : String) (location : Location)
    (afterNode : Bool) :
    (entry.checkContent path content value location afterNode none).run tree
      = ⟨contentFindings tree entry.field path content value location afterNode, .ok ()⟩ := by
  rw [checkContent, if_neg (by simp [hcontent]), contentFindings]
  split
  · split <;> rfl
  · split
    · rfl
    · rw [Check.bind_eq, Check.run_bind_of_ok (FileFormat.run_check _ _ _ _ _ _)]
      exact congrArg (Outcome.mk · _) (List.append_nil _)

/-- The findings about a file that is there, where everything is published. -/
theorem findings_checkFile (h : tree.TakesAnyPath) (hpublished : ctx.published = none)
    {path content : String} (hread : tree.contents path = .ok content)
    (hcontent : Source.isLintable content = true) (value : String) (location : Location)
    (afterNode : Bool) :
    (entry.checkFile ctx path value location afterNode none).findings tree
      = contentFindings tree entry.field path content value location afterNode := by
  have hfound : tree.firstText? (Context.candidates path []) = some (path, content) :=
    FileTree.firstText?_cons_of_contents hread _
  have hquiet : ctx.readFindings location (some (path, content)) = [] := by
    simp [Context.readFindings, Context.isPublished, hpublished]
  rw [checkFile, Check.bind_eq, Check.findings, Context.run_readEntry_bind h]
  simp only [hfound, hquiet, Option.map_some, List.nil_append, run_checkContent _ _ hcontent]

theorem not_mem_formatCodes_of_target (field : EntryField) :
    ∀ code ∈ targetCodes field, code ∉ formatCodes field := by
  cases field <;> decide

theorem formatFindings_eq_self {field : EntryField} {place : Location} {ds : List Diagnostic}
    (h : ∀ d ∈ ds, d.location = place ∧ d.code ∈ formatCodes field) :
    formatFindings field place ds = ds := by
  refine List.filter_eq_self.mpr fun d hd => ?_
  simp [h d hd]

theorem mem_contentFindings {field : EntryField} {path content value : String}
    {location : Location} {afterNode : Bool} {d : Diagnostic}
    (hd : d ∈ contentFindings tree field path content value location afterNode) :
    d.location = location ∧ d.code ∈ formatCodes field := by
  rw [contentFindings] at hd
  split at hd
  · split at hd
    · obtain rfl := List.mem_singleton.mp hd
      exact ⟨rfl, List.mem_cons_self⟩
    · exact absurd hd List.not_mem_nil
  · split at hd
    · exact absurd hd List.not_mem_nil
    · rw [FileFormat.findings] at hd
      split at hd
      · obtain rfl := List.mem_singleton.mp hd
        refine ⟨rfl, ?_⟩
        simp only [FileFormat.mismatch, FileFormat.mismatchCode, formatCodes]
        split <;> simp
      · exact absurd hd List.not_mem_nil

/-- What a leaf says about formats, when its target is a file that is there. -/
theorem formatFindings_task (h : tree.TakesAnyPath) (hpublished : ctx.published = none)
    (hstart : Text.hasStart target.value "./" = true)
    (hstar : Pattern.hasWildcard target.value = false)
    (hslash : Text.hasEnd target.value "/" = false)
    (hname : Source.isLintableName (targetPath ctx target.value) = true) {content : String}
    (hread : tree.contents (targetPath ctx target.value) = .ok content)
    (hcontent : Source.isLintable content = true) :
    formatFindings entry.field target.location ((entry.task ctx target).findings tree)
      = contentFindings tree entry.field (targetPath ctx target.value) content target.value
          target.location target.afterNode := by
  have hjsx := Context.jsxExtension?_of_isLintableName hname
  have hdot : Text.hasStart target.value "." = true := Text.hasStart_trans hstart (by decide)
  have hcheck : entry.fileCheck? ctx target.value target (targetPath ctx target.value)
      = some (entry.checkFile ctx (targetPath ctx target.value) target.value target.location
          target.afterNode none) := by
    simp [fileCheck?, hjsx, hname, globbed, hstar]
  have hrun := run_checkTarget_plain tree ctx entry target (by simp [hdot]) hslash hstar
  have hfindings : (entry.task ctx target).findings tree
      = plainFindings ctx entry target
        ++ contentFindings tree entry.field (targetPath ctx target.value) content target.value
            target.location target.afterNode := by
    simp only [Task.findings, task, Check.findings, Check.result, hrun, hcheck, Option.toList_some,
      List.flatMap_cons, List.flatMap_nil, List.append_nil]
    exact congrArg (_ ++ ·) (findings_checkFile h hpublished hread hcontent _ _ _)
  have hplain : formatFindings entry.field target.location (plainFindings ctx entry target) = [] := by
    refine formatFindings_eq_nil_of_code fun d hd => not_mem_formatCodes_of_target _ _ ?_
    have hmem : d ∈ (checkTarget ctx entry target).findings tree := by rwa [Check.findings, hrun]
    exact (reports_checkTarget ctx entry target).of_mem hmem
  rw [hfindings, formatFindings_append, hplain, List.nil_append]
  exact formatFindings_eq_self fun d hd => mem_contentFindings hd

section

variable {field : EntryField} {path content value : String} {p : Location} {afterNode : Bool}

theorem contentFindings_module (h : "module" ∈ p) :
    contentFindings tree field path content value p afterNode
      = if Source.classify content = .cjs then [wrongModule field p] else [] := by
  rw [contentFindings, if_pos (List.contains_iff_mem.mpr h)]

theorem contentFindings_excused {BehindNode : Prop} (hafter : afterNode = true ↔ BehindNode)
    (h : "module" ∉ p) (hexcused : "browser" ∈ p ∨ BehindNode) :
    contentFindings tree field path content value p afterNode = [] := by
  rw [contentFindings, if_neg (mt List.contains_iff_mem.mp h), if_pos]
  rw [Bool.or_eq_true, hafter, List.contains_iff_mem]
  exact hexcused.symm

theorem contentFindings_compared {BehindNode : Prop} (hafter : afterNode = true ↔ BehindNode)
    (h : "module" ∉ p) (hbrowser : "browser" ∉ p) (hnode : ¬ BehindNode) :
    contentFindings tree field path content value p afterNode
      = let actual := Source.classify content
        let expected := tree.expectedFormat path
        if (actual = .esm ∨ actual = .cjs) ∧ actual ≠ expected
            ∧ ¬ (actual = .esm ∧ (Text.hasPart path "browser" = true
              ∨ Text.hasPart path "bundler" = true))
        then [FileFormat.mismatch path p actual expected (some value)] else [] := by
  have hflag : ¬ (afterNode || p.contains "browser") = true := by
    rw [Bool.or_eq_true, hafter, List.contains_iff_mem]
    exact not_or_intro hnode hbrowser
  rw [contentFindings, if_neg (mt List.contains_iff_mem.mp h), if_neg hflag, FileFormat.findings]
  refine if_congr ?_ rfl rfl
  have hcertain : (Source.classify content).isCertain = true
      ↔ Source.classify content = .esm ∨ Source.classify content = .cjs := by
    cases Source.classify content <;> decide
  simp only [FileFormat.isExcused, FileFormat.forBundlers, Format.mismatch, Bool.and_eq_true,
    Bool.not_eq_true', hcertain]
  simp [and_assoc]

end

/-! ### Findings of a crawl -/

theorem not_mem_formatCodes_of_crawl (field : EntryField) :
    ∀ code ∈ Crawl.codes field, code ∉ formatCodes field := by
  cases field <;> decide

/-- What a crawl says about formats at the place of a leaf is what the leaf says. -/
theorem formatFindings_plan (hd : entry.tree.DistinctKeys)
    (htarget : target ∈ Crawl.targets entry.field entry.location entry.tree) :
    formatFindings entry.field target.location (Pass.runPlan tree (entry.plan ctx)).findings
      = formatFindings entry.field target.location ((entry.task ctx target).findings tree) := by
  have hnodup : ((Crawl.targets entry.field entry.location entry.tree).map (·.location)).Nodup :=
    Crawl.nodup_targets hd entry.location
  have hcrawl : formatFindings entry.field target.location (entry.plan ctx).findings = [] :=
    formatFindings_eq_nil_of_code fun d hd =>
      not_mem_formatCodes_of_crawl _ _ (Crawl.code_of_mem_findings hd)
  rw [Pass.findings_runPlan, formatFindings_append, hcrawl, List.nil_append, plan, List.flatMap_map]
  exact formatFindings_flatMap hnodup (fun _ _ _ hd => location_of_mem_task hd) htarget

/-- A crawl visits every leaf of a tree once, at its place. What it says about formats at the place of
a plain target that is there as code is determined by the conditions on the way: under `module` that
the format is wrong, for browsers and behind `node` nothing, elsewhere that a certain format is not
the one its path expects, unless it is read by bundlers. -/
theorem crawled_formats_exact (tree : MemoryTree) (ctx : Context) (hpublished : ctx.published = none)
    (entry : EntryTree) (hd : entry.tree.DistinctKeys) :
    let targets := Crawl.targets entry.field entry.location entry.tree
    let found := (Pass.runPlan tree.toFileTree (entry.plan ctx)).findings
    (targets.map (·.location)).Nodup
      ∧ (∀ p value, (∃ t ∈ targets, t.location = p ∧ t.value = value)
          ↔ ∃ place, p = entry.location ++ place ∧ entry.tree.at? place = some (.leaf value))
      ∧ ∀ place value content, entry.tree.at? place = some (.leaf value) →
        let p := entry.location ++ place
        let path := Path.join ctx.pkgDir value
        let actual := Source.classify content
        let expected := tree.toFileTree.expectedFormat path
        Text.hasStart value "./" = true → Pattern.hasWildcard value = false →
          Text.hasEnd value "/" = false → Source.isLintableName path = true →
          tree.contents path = .ok content → Source.isLintable content = true →
        ("module" ∈ p →
            formatFindings entry.field p found
              = if actual = .cjs then [wrongModule entry.field p] else [])
          ∧ ("module" ∉ p → "browser" ∈ p ∨ entry.tree.BehindNode place →
            formatFindings entry.field p found = [])
          ∧ ("module" ∉ p → "browser" ∉ p → ¬ entry.tree.BehindNode place →
            formatFindings entry.field p found
              = if (actual = .esm ∨ actual = .cjs) ∧ actual ≠ expected
                    ∧ ¬ (actual = .esm ∧ (Text.hasPart path "browser" = true
                      ∨ Text.hasPart path "bundler" = true))
                then [FileFormat.mismatch path p actual expected (some value)] else []) := by
  intro targets found
  refine ⟨Crawl.nodup_targets hd _, fun p value => ?_, ?_⟩
  · constructor
    · rintro ⟨t, ht, rfl, rfl⟩
      obtain ⟨place, hplace, hat, -⟩ := (Crawl.mem_targets hd).mp ht
      exact ⟨place, hplace, hat⟩
    · rintro ⟨place, rfl, hat⟩
      obtain ⟨t, ht, hlocation, hvalue, -⟩ := Crawl.exists_target hd hat
      exact ⟨t, ht, hlocation, hvalue⟩
  · intro place value content hat p path actual expected hstart hstar hslash hname hread hcontent
    obtain ⟨t, ht, hlocation, hvalue, hafter⟩ :
        ∃ t ∈ targets, t.location = p ∧ t.value = value
          ∧ (t.afterNode = true ↔ entry.tree.BehindNode place) := Crawl.exists_target hd hat
    have hpath : targetPath ctx t.value = path := by
      rw [targetPath, hvalue, if_pos (Path.looksRelative_of_hasStart hstart), Context.within]
    have htask : formatFindings entry.field t.location ((entry.task ctx t).findings tree.toFileTree)
        = contentFindings tree.toFileTree entry.field (targetPath ctx t.value) content t.value
            t.location t.afterNode :=
      formatFindings_task tree.takesAnyPath hpublished (hvalue ▸ hstart) (hvalue ▸ hstar)
        (hvalue ▸ hslash) (hpath ▸ hname) (hpath ▸ hread) hcontent
    have hfound : formatFindings entry.field p found
        = contentFindings tree.toFileTree entry.field path content value p t.afterNode :=
      calc formatFindings entry.field p found
        _ = formatFindings entry.field t.location found := by rw [hlocation]
        _ = formatFindings entry.field t.location
              ((entry.task ctx t).findings tree.toFileTree) := formatFindings_plan hd ht
        _ = _ := by rw [htask, hpath, hlocation, hvalue]
    rw [hfound]
    exact ⟨contentFindings_module, contentFindings_excused hafter, contentFindings_compared hafter⟩

/-- ESM where nothing says so is reported for the target before a `node` key. -/
theorem crawled_esm_reported :
    let tree : MemoryTree :=
      { files := [("/p/a.js", "export {}")], dirs := [("/", ["p"]), ("/p", ["a.js"])] }
    let ctx : Context := { pkgDir := "/p", workDir := "/", manifest := [], depth := 2 }
    let entry : EntryTree :=
      { field := .exports, location := ["exports"]
        tree := .map [("import", .leaf "./a.js"), ("node", .leaf "./b.cjs")] }
    formatFindings .exports ["exports", "import"]
        (Pass.runPlan tree.toFileTree (entry.plan ctx)).findings
      = [FileFormat.mismatch "/p/a.js" ["exports", "import"] .esm .cjs (some "./a.js")] := by
  intro tree ctx entry
  have hd : entry.tree.DistinctKeys := ⟨by decide, trivial, trivial, trivial⟩
  obtain ⟨-, -, hleaf⟩ := crawled_formats_exact tree ctx rfl entry hd
  obtain ⟨-, -, hcompared⟩ := hleaf ["import"] "./a.js" "export {}" (by rfl) (by decide)
    (by decide) (by decide) (by decide +kernel) (by decide +kernel) (by decide +kernel)
  have hnode : ¬ entry.tree.BehindNode ["import"] := by
    rw [ConditionTree.behindNode_map]
    rintro (hbefore | ⟨found, hfound, hbehind⟩)
    · exact absurd hbefore (by decide)
    · exact ConditionTree.not_behindNode_nil found hbehind
  have hpath : Path.join ctx.pkgDir "./a.js" = "/p/a.js" := by decide +kernel
  have hactual : Source.classify "export {}" = .esm := by decide +kernel
  have hexpected : tree.toFileTree.expectedFormat "/p/a.js" = .cjs := by decide +kernel
  simp only [hpath, hactual, hexpected] at hcompared
  exact (hcompared (by decide) (by decide) hnode).trans (if_pos (by decide))

end EntryTree

end PackageLint
