import PackageLint.Proofs.SkippedFiles

/-!
# Files that are reported more than once

Where neither `exports` nor `imports` is set, a file can be reported for its format by four routes: as
the implicit entry point, as `main`, by the scan of all files, and as a command. The first three never
meet. A package with `main` has no implicit entry point, and what either of the two leads to is left out
of the scan. Commands are not left out, so that a file which is the target of a command may be
reported there and by another route as well, or at the places of several commands.

At one place a file is reported once at most.

## Main definitions

* `Pass.ReportedAt` — the places at which a file is reported for its format

## Main results

* `Pass.nodup_places_about` — a file is reported at a place once
* `Pass.reported_twice_iff_command` — it is reported twice only where a command leads to it
-/

namespace PackageLint

/-! ### At most one finding -/

section

variable {tree : FileTree} {file : String}

theorem places_findings (path content : String) (location : Location)
    (leniency : FileFormat.Leniency) (shown : Option String) :
    (FileFormat.findings tree path content location leniency shown).map (·.location) = []
      ∨ (FileFormat.findings tree path content location leniency shown).map (·.location)
        = [location] := by
  rw [FileFormat.findings]
  split
  · exact Or.inr rfl
  · exact Or.inl rfl

/-- What says at most one thing of a text, at a place, says at most one of a file. -/
theorem places_saidOf {judge : String → List Diagnostic} {place : Location}
    (h : ∀ text, (judge text).map (·.location) = [] ∨ (judge text).map (·.location) = [place])
    (paths : List String) :
    (tree.saidOf file paths judge).map (·.location) = []
      ∨ (tree.saidOf file paths judge).map (·.location) = [place] := by
  rw [FileTree.saidOf]
  split
  · split
    · exact h _
    · exact Or.inl rfl
  · exact Or.inl rfl

theorem places_entryFindings {ctx : Context} (v : String) (p : Location) (text : String) :
    (EntryChecks.textFindings tree ctx v p text).map (·.location) = []
      ∨ (EntryChecks.textFindings tree ctx v p text).map (·.location) = [p] := by
  rw [EntryChecks.textFindings]
  split
  · exact places_findings _ _ _ _ _
  · exact Or.inl rfl

end

/-! ### The places of commands -/

/-- No two commands share a place. -/
theorem Manifest.nodup_commands {manifest : Manifest} (h : (Json.obj manifest).DistinctKeys) :
    (manifest.commands.map Prod.fst).Nodup := by
  have hbin := distinctKeys_published h "bin"
  rw [commands]
  split
  next v p _ => split <;> simp
  next fields p hobj =>
    rw [hobj] at hbin
    have hkeys : (Assoc.keys fields).Nodup := hbin.1
    have hplaces : (fields.map fun field => p ++ [field.1]).Nodup := by
      have := hkeys.map fun a b (hab : p ++ [a] = p ++ [b]) => by simpa using hab
      rwa [Assoc.keys, List.map_map] at this
    refine hplaces.sublist ?_
    clear hobj hbin hkeys hplaces
    induction fields with
    | nil => exact List.Sublist.refl _
    | cons field rest ih =>
      obtain ⟨name, value⟩ := field
      cases value with
      | str v => exact ih.cons_cons _
      | _ => exact ih.cons _
  next => exact List.nodup_nil

theorem Manifest.Commands.field {manifest : Manifest} {p : Location} {v : String}
    (h : manifest.Commands p v) : Location.field p = "bin" := by
  have hplace := Location.field_published manifest (by decide : "bin" ≠ overridesKey)
  cases h with
  | single _ hbin => simpa [hbin] using hplace []
  | named => exact hplace _

namespace Pass

open PackageLint.MemoryTree

variable {tree : MemoryTree} {ctx : Context} {file : String}

/-! ### The routes besides commands -/

/-- A file that `main` or the implicit entry point says something of is left out of the scan. -/
theorem mem_checkedPaths_of_said (h : tree.Sound) (hroot : Path.isRooted ctx.pkgDir = true)
    (hsaid : indexSays tree.toFileTree ctx file ≠ [] ∨ mainSays tree.toFileTree ctx file ≠ []) :
    file ∈ checkedPaths ctx (Fields.of ctx.manifest) := by
  rw [mem_checkedPaths]
  rcases hsaid with hsaid | hsaid
  · obtain ⟨d, hd⟩ := List.exists_mem_of_ne_nil _ hsaid
    obtain ⟨himplicit, rfl, -⟩ := (mem_indexSays h hroot).mp hd
    exact Or.inl ⟨himplicit, rfl⟩
  · obtain ⟨d, hd⟩ := List.exists_mem_of_ne_nil _ hsaid
    obtain ⟨v, p, text, hmain, hresolves, -⟩ := (mem_mainSays h hroot).mp hd
    refine Or.inr (Or.inl ⟨v, p, hmain, ?_⟩)
    rw [Context.legacyCandidates_eq hroot]
    exact (FileTree.firstText?_eq_some hresolves).1

/-- With an implicit entry point there is no `main`. -/
theorem indexSays_or_mainSays (tree : MemoryTree) (ctx : Context) (file : String) :
    indexSays tree.toFileTree ctx file = [] ∨ mainSays tree.toFileTree ctx file = [] := by
  cases himplicit : (Fields.of ctx.manifest).areImplicit with
  | false => exact Or.inl (by rw [indexSays, himplicit]; rfl)
  | true => exact Or.inr (mainSays_of_implicit himplicit)

/-- The scan looks at a file once. -/
theorem scanSays_eq (h : tree.Reachable) (hnamed : tree.Named) :
    scanSays tree.toFileTree ctx file
      = if file ∈ (tree.toFileTree.expanded ctx.depth (AllFiles.search ctx)).filter
            (AllFiles.looksAt (checkedPaths ctx (Fields.of ctx.manifest))) then
          tree.toFileTree.saidOf file [file]
            (AllFiles.textFindings tree.toFileTree file ("/" ++ ctx.relative file))
        else [] := by
  exact flatMap_eq_of_nodup ((h.nodup_expanded hnamed _ _).filter _) fun path hpath hne =>
    h.sound.saidOf_other (List.mem_filter.mp hpath).1 hne

theorem mem_scanSays (h : tree.Reachable) (hnamed : tree.Named) {d : Diagnostic} :
    d ∈ scanSays tree.toFileTree ctx file
      ↔ file ∈ tree.toFileTree.expanded ctx.depth (AllFiles.search ctx)
        ∧ file ∉ checkedPaths ctx (Fields.of ctx.manifest) ∧ Source.isLintableName file = true
        ∧ ∃ text, tree.toFileTree.contents file = .ok text
          ∧ d ∈ AllFiles.textFindings tree.toFileTree file ("/" ++ ctx.relative file) text := by
  have hfirst : ∀ text, tree.toFileTree.firstText? [file] = some (file, text)
      ↔ tree.toFileTree.contents file = .ok text := by
    intro text
    rw [FileTree.firstText?_singleton, ← FileTree.text?_eq_some]
    simp
  have hlooks : AllFiles.looksAt (checkedPaths ctx (Fields.of ctx.manifest)) file = true
      ↔ file ∉ checkedPaths ctx (Fields.of ctx.manifest) ∧ Source.isLintableName file = true := by
    simp [AllFiles.looksAt]
  rw [scanSays_eq h hnamed, List.mem_ite_nil_right, List.mem_filter, hlooks, and_assoc, and_assoc]
  refine and_congr_right fun hlisted => and_congr_right fun _ => and_congr_right fun _ => ?_
  have hinner : ∀ path ∈ [file], Path.IsInner path := fun path hpath =>
    List.mem_singleton.mp hpath ▸ h.sound.isInner_of_mem_expanded hlisted
  rw [h.sound.mem_saidOf hinner]
  exact exists_congr fun text => and_congr_left fun _ => hfirst text

theorem places_indexSays :
    (indexSays tree.toFileTree ctx file).map (·.location) = []
      ∨ (indexSays tree.toFileTree ctx file).map (·.location) = [PackageChecks.wholePackage] := by
  rw [indexSays]
  split
  · refine places_saidOf (fun text => ?_) _
    rw [PackageChecks.textFindings]
    split
    · exact Or.inr rfl
    · exact Or.inl rfl
  · exact Or.inl rfl

theorem places_mainSays :
    (mainSays tree.toFileTree ctx file).map (·.location) = []
      ∨ (mainSays tree.toFileTree ctx file).map (·.location)
        = [(ctx.manifest.published "main").2] := by
  rw [mainSays]
  split
  next v p hmain =>
    rw [hmain]
    exact places_saidOf (places_entryFindings v p) _
  next => exact Or.inl rfl

theorem places_scanSays (h : tree.Reachable) (hnamed : tree.Named) :
    (scanSays tree.toFileTree ctx file).map (·.location) = []
      ∨ (scanSays tree.toFileTree ctx file).map (·.location) = [PackageChecks.wholePackage] := by
  rw [scanSays_eq h hnamed]
  split
  · refine places_saidOf (fun text => ?_) _
    rw [AllFiles.textFindings]
    split
    · exact places_findings _ _ _ _ _
    · exact Or.inl rfl
  · exact Or.inl rfl

/-- Of the routes besides commands, at most one reports a file, and only once. -/
theorem exists_place_others (h : tree.Reachable) (hnamed : tree.Named)
    (hroot : Path.isRooted ctx.pkgDir = true) (file : String) :
    ∃ place, Location.field place ≠ "bin"
      ∧ ((indexSays tree.toFileTree ctx file ++ (mainSays tree.toFileTree ctx file
            ++ scanSays tree.toFileTree ctx file)).map (·.location) = []
        ∨ (indexSays tree.toFileTree ctx file ++ (mainSays tree.toFileTree ctx file
            ++ scanSays tree.toFileTree ctx file)).map (·.location) = [place]) := by
  have hwhole : Location.field PackageChecks.wholePackage ≠ "bin" := by decide
  have hmainField : Location.field (ctx.manifest.published "main").2 = "main" := by
    simpa using Location.field_published ctx.manifest (by decide : "main" ≠ overridesKey) []
  by_cases hchecked : file ∈ checkedPaths ctx (Fields.of ctx.manifest)
  · rw [scanSays_of_mem_checkedPaths h.sound hchecked, List.append_nil]
    rcases indexSays_or_mainSays tree ctx file with hnone | hnone
    · rw [hnone, List.nil_append]
      exact ⟨_, by rw [hmainField]; decide, places_mainSays⟩
    · rw [hnone, List.append_nil]
      exact ⟨_, hwhole, places_indexSays⟩
  · have hunsaid := mt (mem_checkedPaths_of_said h.sound hroot) hchecked
    rw [not_or, not_not, not_not] at hunsaid
    rw [hunsaid.1, hunsaid.2, List.nil_append, List.nil_append]
    exact ⟨_, hwhole, places_scanSays h hnamed⟩

/-! ### All routes -/

/-- The comparisons of a file, where neither `exports` nor `imports` is set. -/
theorem judging_about (hexports : (Fields.of ctx.manifest).hasExports = false)
    (himports : (Fields.of ctx.manifest).imports.1.isSet = false) :
    ofCodes judgingCodes (about tree.toFileTree ctx file)
      = (indexSays tree.toFileTree ctx file ++ (mainSays tree.toFileTree ctx file
          ++ scanSays tree.toFileTree ctx file)) ++ commandsSay tree.toFileTree ctx file := by
  have himports : (importsPlan ctx (Fields.of ctx.manifest)).tasks = [] := by
    rw [importsPlan, himports]
    rfl
  have hmodule : ofCodes judgingCodes (moduleSays tree.toFileTree ctx file) = [] :=
    ofCodes_eq_nil fun d hd => by
      rw [code_of_mem_moduleSays d hd]
      decide
  rw [← ofCodes_ofCodes judging_subset_textual,
    textual_about tree.takesAnyPath (tree.indexThere ctx),
    textual_exportsPlan tree.takesAnyPath tree.listsDirs hexports, himports]
  simp only [List.flatMap_nil, ofCodes_nil, List.append_nil, List.nil_append, ofCodes_append, hmodule,
    ofCodes_eq_self indexSays_judges, ofCodes_eq_self mainSays_judges,
    ofCodes_eq_self scanSays_judges, ofCodes_eq_self commandsSay_judges, List.append_assoc]

/-- The places at which a file is reported for its format. -/
inductive ReportedAt (tree : FileTree) (ctx : Context) (file : String) : Location → Prop
  /-- As the implicit entry point. -/
  | index {text : String} (himplicit : (Fields.of ctx.manifest).areImplicit = true)
      (hfile : ctx.within PackageChecks.indexName = file) (hread : tree.contents file = .ok text)
      (hwrong : (Source.classify text).mismatch (tree.expectedFormat file) = true) :
    ReportedAt tree ctx file PackageChecks.wholePackage
  /-- As what `main` or a command resolves to. -/
  | named {p : Location} {v text : String} (hv : ctx.manifest.Judges p v)
      (hname : Source.isLintableName v = true) (hresolves : tree.Resolves (ctx.within v) file text)
      (hwrong : (Source.classify text).mismatch (tree.expectedFormat (ctx.within v)) = true) :
    ReportedAt tree ctx file p
  /-- By the scan of all files. -/
  | scanned {text : String}
      (hlisted : file ∈ tree.expanded ctx.depth (AllFiles.search ctx))
      (hunchecked : file ∉ checkedPaths ctx (Fields.of ctx.manifest))
      (hname : Source.isLintableName file = true) (hread : tree.contents file = .ok text)
      (hcode : Source.isLintable text = true)
      (hwrong : (Source.classify text).mismatch (tree.expectedFormat file) = true)
      (hunexcused : FileFormat.isExcused tree file (Source.classify text)
        { bundlerEsm := true, rightSibling := true } = false) :
    ReportedAt tree ctx file PackageChecks.wholePackage

/-- The places of the findings about the format of a file. -/
theorem mem_places_about (h : tree.Reachable) (hnamed : tree.Named)
    (hroot : Path.isRooted ctx.pkgDir = true)
    (hexports : (Fields.of ctx.manifest).hasExports = false)
    (himports : (Fields.of ctx.manifest).imports.1.isSet = false) (file : String) (p : Location) :
    p ∈ (ofCodes judgingCodes (about tree.toFileTree ctx file)).map (·.location)
      ↔ ReportedAt tree.toFileTree ctx file p := by
  rw [judging_about hexports himports, List.mem_map]
  simp only [List.mem_append, mem_indexSays h.sound hroot, mem_mainSays h.sound hroot,
    mem_scanSays h hnamed, mem_commandsSay h.sound hroot, mem_entryFindings]
  constructor
  · rintro ⟨d, (⟨himplicit, hfile, text, hread, hd⟩ | ⟨v, q, text, hv, hresolves, hname, hwrong, rfl⟩
      | ⟨hlisted, hunchecked, hname, text, hread, hd⟩)
      | ⟨v, q, text, hv, hresolves, hname, hwrong, rfl⟩, rfl⟩
    · obtain ⟨hwrong, hd⟩ := List.mem_ite_nil_right.mp hd
      obtain rfl := List.mem_singleton.mp hd
      exact .index himplicit hfile hread hwrong
    · exact .named (Or.inl hv) hname hresolves hwrong
    · obtain ⟨hcode, hd⟩ := List.mem_ite_nil_right.mp hd
      obtain ⟨⟨hwrong, hunexcused⟩, rfl⟩ := FileFormat.mem_findings.mp hd
      exact .scanned hlisted hunchecked hname hread hcode hwrong hunexcused
    · exact .named (Or.inr hv) hname hresolves hwrong
  · intro hp
    cases hp with
    | index himplicit hfile hread hwrong =>
      exact ⟨_, Or.inl (Or.inl ⟨himplicit, hfile, _, hread,
        List.mem_ite_nil_right.mpr ⟨hwrong, List.mem_singleton_self _⟩⟩), rfl⟩
    | named hv hname hresolves hwrong =>
      rcases hv with hv | hv
      · exact ⟨_, Or.inl (Or.inr (Or.inl ⟨_, _, _, hv, hresolves, hname, hwrong, rfl⟩)), rfl⟩
      · exact ⟨_, Or.inr ⟨_, _, _, hv, hresolves, hname, hwrong, rfl⟩, rfl⟩
    | scanned hlisted hunchecked hname hread hcode hwrong hunexcused =>
      exact ⟨_, Or.inl (Or.inr (Or.inr ⟨hlisted, hunchecked, hname, _, hread,
        List.mem_ite_nil_right.mpr ⟨hcode, FileFormat.mem_findings.mpr
          ⟨⟨hwrong, hunexcused⟩, rfl⟩⟩⟩)), rfl⟩

theorem field_of_mem_commandsSay {d : Diagnostic} (hd : d ∈ commandsSay tree.toFileTree ctx file) :
    ∃ v, ctx.manifest.Commands d.location v := by
  obtain ⟨⟨p, v⟩, hcommand, hd⟩ := List.mem_flatMap.mp hd
  obtain ⟨found, text, -, -, hd⟩ := FileTree.mem_saidOf.mp hd
  obtain ⟨-, -, rfl⟩ := mem_entryFindings.mp hd
  exact ⟨v, Manifest.mem_commands.mp hcommand⟩

/-- A file is reported at a place once. -/
theorem nodup_places_about (h : tree.Reachable) (hnamed : tree.Named)
    (hroot : Path.isRooted ctx.pkgDir = true)
    (hkeys : (Json.obj ctx.manifest).DistinctKeys)
    (hexports : (Fields.of ctx.manifest).hasExports = false)
    (himports : (Fields.of ctx.manifest).imports.1.isSet = false) (file : String) :
    ((ofCodes judgingCodes (about tree.toFileTree ctx file)).map (·.location)).Nodup := by
  obtain ⟨place, hplace, hothers⟩ := exists_place_others h hnamed hroot file
  have hcommands : ((commandsSay tree.toFileTree ctx file).map (·.location)).Nodup := by
    rw [commandsSay, List.map_flatMap]
    exact nodup_flatMap_of_places (Manifest.nodup_commands hkeys) fun command _ =>
      places_saidOf (places_entryFindings command.2 command.1) _
  rw [judging_about hexports himports, List.map_append]
  rcases hothers with hothers | hothers <;> rw [hothers]
  · rwa [List.nil_append]
  · refine List.nodup_cons.mpr ⟨fun hmem => hplace ?_, hcommands⟩
    obtain ⟨d, hd, rfl⟩ := List.mem_map.mp hmem
    obtain ⟨v, hcommand⟩ := field_of_mem_commandsSay hd
    exact hcommand.field

/-- Different places of findings are two places, where there are two findings. -/
theorem one_lt_length_iff {places : List Location} (h : places.Nodup) :
    1 < places.length ↔ ∃ p ∈ places, ∃ q ∈ places, p ≠ q := by
  rw [← List.toFinset_card_of_nodup h, Finset.one_lt_card]
  simp only [List.mem_toFinset]

/-- Two findings about one file are at two places, one of which is that of a command. -/
theorem exists_command_of_two (h : tree.Reachable) (hnamed : tree.Named)
    (hroot : Path.isRooted ctx.pkgDir = true)
    (hexports : (Fields.of ctx.manifest).hasExports = false)
    (himports : (Fields.of ctx.manifest).imports.1.isSet = false) {p q : Location} (hne : p ≠ q)
    (hp : p ∈ (ofCodes judgingCodes (about tree.toFileTree ctx file)).map (·.location))
    (hq : q ∈ (ofCodes judgingCodes (about tree.toFileTree ctx file)).map (·.location)) :
    (∃ v, ctx.manifest.Commands p v) ∨ ∃ v, ctx.manifest.Commands q v := by
  obtain ⟨place, -, hothers⟩ := exists_place_others h hnamed hroot file
  have hfrom : ∀ r ∈ (ofCodes judgingCodes (about tree.toFileTree ctx file)).map (·.location),
      r = place ∨ ∃ v, ctx.manifest.Commands r v := by
    intro r hr
    rw [judging_about hexports himports, List.map_append, List.mem_append] at hr
    rcases hr with hr | hr
    · rcases hothers with hothers | hothers <;> rw [hothers] at hr
      · exact absurd hr List.not_mem_nil
      · exact Or.inl (List.mem_singleton.mp hr)
    · obtain ⟨d, hd, rfl⟩ := List.mem_map.mp hr
      exact Or.inr (field_of_mem_commandsSay hd)
  rcases hfrom p hp with rfl | hcommand
  · exact Or.inr ((hfrom q hq).resolve_left (Ne.symm hne))
  · exact Or.inl hcommand

/-- Where neither `exports` nor `imports` is set, what a pass says about formats is about the files of
the tree, and about each file at most once at a place. A file is reported more than once exactly where it
is reported at the place of a command and at another place: as the implicit entry point, as `main`, by
the scan, or at the place of another command. -/
theorem reported_twice_iff_command {files : List (String × String)} {tree : MemoryTree}
    (htree : MemoryTree.ofFiles files = .ok tree) (hnamed : tree.Named) {pkgDir : String}
    {manifest : Manifest}
    (hload : (Manifest.load pkgDir).result tree.toFileTree = .ok (.ok manifest))
    (hexports : (Fields.of manifest).hasExports = false)
    (himports : (Fields.of manifest).imports.1.isSet = false)
    (published : Option (List String)) (workDir : String) :
    let ctx := contextOf tree.toFileTree.depth workDir pkgDir manifest { published }
    ∃ result, run tree.toFileTree pkgDir { published } workDir = .ok result
      ∧ (∀ d ∈ result.diagnostics, d.JudgesFormat →
          ∃ file, Assoc.hasKey file tree.files = true ∧ d ∈ about tree.toFileTree ctx file)
      ∧ ∀ file,
        let found := ofCodes judgingCodes (about tree.toFileTree ctx file)
        found.Sublist result.diagnostics
          ∧ (found.map (·.location)).Nodup
          ∧ (∀ p, p ∈ found.map (·.location) ↔ ReportedAt tree.toFileTree ctx file p)
          ∧ (1 < found.length ↔ ∃ p q v, p ≠ q ∧ manifest.Commands p v
              ∧ ReportedAt tree.toFileTree ctx file p ∧ ReportedAt tree.toFileTree ctx file q) := by
  intro ctx
  have h := reachable_ofFiles htree
  have hroot : Path.isRooted ctx.pkgDir = true := h.sound.isRooted_of_load hload
  have hkeys : (Json.obj ctx.manifest).DistinctKeys := Manifest.distinctKeys_load hload
  refine ⟨_, run_of_load hload _ _, fun d hd hjudges => ?_, fun file => ?_⟩
  · rw [diagnostics_resultOf] at hd
    obtain ⟨file, habout⟩ := exists_about tree.takesAnyPath tree.listsDirs (tree.indexThere ctx) hd
      (judging_subset_textual hjudges)
    exact ⟨file, hasKey_of_mem_about habout, habout⟩
  · have hmem := mem_places_about h hnamed hroot hexports himports file
    have hnodup := nodup_places_about h hnamed hroot hkeys hexports himports file
    refine ⟨?_, hnodup, hmem, ?_⟩
    · rw [diagnostics_resultOf]
      exact List.filter_sublist.trans (about_sublist tree.toFileTree ctx file)
    · rw [← List.length_map (·.location), one_lt_length_iff hnodup]
      constructor
      · rintro ⟨p, hp, q, hq, hne⟩
        rcases exists_command_of_two h hnamed hroot hexports himports hne hp hq with ⟨v, hv⟩ | ⟨v, hv⟩
        · exact ⟨p, q, v, hne, hv, (hmem p).mp hp, (hmem q).mp hq⟩
        · exact ⟨q, p, v, hne.symm, hv, (hmem q).mp hq, (hmem p).mp hp⟩
      · rintro ⟨p, q, v, hne, -, hp, hq⟩
        exact ⟨p, (hmem p).mpr hp, q, (hmem q).mpr hq, hne⟩

/-- The file of a command is reported at the place of the command, and by the scan. -/
theorem command_reported_twice :
    ∃ tree result,
      MemoryTree.ofFiles
          [("/p/package.json", "\x7b\"bin\":\"./a.mjs\"\x7d"),
           ("/p/a.mjs", "#!/usr/bin/env node\nmodule.exports = 1")]
        = .ok tree
      ∧ run tree.toFileTree "/p" {} "/" = .ok result
      ∧ (let ctx := contextOf tree.toFileTree.depth "/" "/p" [("bin", .str "./a.mjs")] {}
        let found := ofCodes judgingCodes (about tree.toFileTree ctx "/p/a.mjs")
        found.Sublist result.diagnostics ∧ 1 < found.length) := by
  let text := "#!/usr/bin/env node\nmodule.exports = 1"
  let files := [("/p/package.json", "\x7b\"bin\":\"./a.mjs\"\x7d"), ("/p/a.mjs", text)]
  let tree : MemoryTree := { files, dirs := [("/", ["p"]), ("/p", ["package.json", "a.mjs"])] }
  have htree : MemoryTree.ofFiles files = .ok tree := by cbv
  have hload : (Manifest.load "/p").result tree.toFileTree
      = .ok (.ok [("bin", .str "./a.mjs")]) := by
    cbv
  let ctx := contextOf tree.toFileTree.depth "/" "/p" [("bin", .str "./a.mjs")] {}
  obtain ⟨result, hrun, -, habout⟩ :=
    reported_twice_iff_command htree (by decide +kernel) hload (by decide) (by decide) none "/"
  obtain ⟨hamong, -, -, htwice⟩ := habout "/p/a.mjs"
  have hread : tree.toFileTree.contents "/p/a.mjs" = .ok text := by cbv
  have hwithin : ctx.within "./a.mjs" = "/p/a.mjs" := by decide +kernel
  have hcommand : Manifest.Commands [("bin", .str "./a.mjs")] ["bin"] "./a.mjs" :=
    .single (by decide) rfl
  have hwrong : (Source.classify text).mismatch
      (tree.toFileTree.expectedFormat "/p/a.mjs") = true := by
    decide +kernel
  have hnamed : ReportedAt tree.toFileTree ctx "/p/a.mjs" ["bin"] := by
    refine .named (Or.inr hcommand) (by decide) ?_ (by rwa [hwithin])
    rw [hwithin]
    exact FileTree.firstText?_cons_of_contents hread _
  have hscanned : ReportedAt tree.toFileTree ctx "/p/a.mjs" ["name"] :=
    .scanned (by decide +kernel) (by decide +kernel) (by decide) hread (by decide +kernel) hwrong
      (by decide +kernel)
  exact ⟨tree, result, htree, hrun, hamong,
    htwice.mpr ⟨_, _, _, by decide, hcommand, hnamed, hscanned⟩⟩

end Pass

end PackageLint
