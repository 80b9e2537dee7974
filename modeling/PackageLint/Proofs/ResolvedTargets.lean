import PackageLint.Proofs.MirroredDeclarations
import PackageLint.Proofs.MissingFiles

/-!
# What a type-checker is led to, and what is crawled

The check of declarations resolves the root entry of `exports` by itself, and passes over a target
that is not there, trusting the crawl to tell of it. The two share no code: one follows conditions
to a single leaf, the other visits every leaf, and a place that either builds can be looked up in the
manifest by a third recursion. This file says that the three agree, and what the trust is worth.

An array is resolved to its first item, so every index on the way of a resolution is `0`, which is
why the digits of an index never matter to the look-up of a resolved place.

## Main results

* `ConditionTree.follow_of_resolve` — a resolved target is the value at its place
* `EntryTree.unreadable_reported` — a plain target that cannot be read is reported at its place
* `Pass.resolved_targets_crawled` — a resolved target is crawled, and reported when its file
  is not there
-/

namespace PackageLint

/-! ### The look-up of a resolved place -/

namespace Json

theorem follow_field {fields : Fields} {key : String} {value : Json} (hkeys : (Assoc.keys fields).Nodup)
    (hmem : (key, value) ∈ fields) (place : Location) :
    (Json.obj fields).follow (key :: place) = value.follow place := by
  have hvalue : field fields key = value := by
    rw [field, Assoc.get?_of_mem hkeys hmem, Option.getD_some]
  rw [follow, hvalue]

theorem follow_first (first : Json) (rest : List Json) (place : Location) :
    (Json.arr (first :: rest)).follow ("0" :: place) = first.follow place := by
  have hdigits : Text.allDigits "0".toList = true := by decide
  have hindex : indexOfKey "0" = .ok 0 := by rfl
  rw [follow, if_pos hdigits, hindex]
  rfl

end Json

namespace ConditionTree

/-- A target that is selected in the tree of a value is what the value has at that place. The recursion
is on the place. -/
theorem follow_of_selects {conditions : List String} {value : Json} {place : Location}
    {target : String} (hd : value.DistinctKeys)
    (h : (ofJson value).Selects conditions place target) : value.follow place = .ok (.str target) := by
  cases value with
  | str s =>
    obtain ⟨rfl, rfl⟩ := selects_leaf.mp h
    rfl
  | arr items =>
    cases items with
    | nil => exact absurd h not_selects_nil
    | cons first rest =>
      obtain ⟨below, rfl, hselects⟩ := selects_array.mp h
      rw [Json.follow_first, follow_of_selects hd.1 hselects]
  | obj fields =>
    obtain ⟨front, key, tree, back, hsplit, -, ⟨below, rfl, hselects⟩, -⟩ := selects_map.mp h
    obtain ⟨⟨_, inner⟩, hmem, heq⟩ : ∃ e ∈ fields, (e.1, ofJson e.2) = (key, tree) := by
      rw [← List.mem_map, ← ofFields_eq_map, hsplit]
      simp
    obtain ⟨rfl, rfl⟩ := Prod.mk.inj heq
    have hinner : inner.DistinctKeys := Json.fieldsDistinct_iff.mp hd.2 _ hmem
    rw [Json.follow_field hd.1 hmem, follow_of_selects hinner hselects]
  | null => exact absurd h not_selects_exclusion
  | bool _ | int _ | float _ => exact absurd h not_selects_invalid
termination_by place

/-- A resolved target is the value at its place. -/
theorem follow_of_resolve {conditions : List String} {location : Location} {value : Json}
    {found : Resolved} (hd : value.DistinctKeys)
    (h : resolve conditions location (ofJson value) = some found) :
    ∃ place, found.location = location ++ place ∧ value.follow place = .ok (.str found.target) := by
  obtain ⟨place, hplace, hselects⟩ := resolve_eq_some_iff.mp h
  exact ⟨place, hplace, follow_of_selects hd hselects⟩

end ConditionTree

/-! ### Targets that cannot be read -/

namespace Path

theorem looksAbsolute_of_isRooted {path : String} (h : isRooted path = true) :
    looksAbsolute path = true := by
  obtain ⟨rest, hrest⟩ := List.isPrefixOf_iff_prefix.mp h
  rw [looksAbsolute, ← hrest]
  rfl

end Path

namespace MemoryTree

/-- What can be read lies below a root. -/
theorem Sound.isRooted_of_readable {tree : MemoryTree} (h : tree.Sound) {path : String}
    (hread : tree.toFileTree.Readable path) : Path.isRooted path = true := by
  obtain ⟨text, htext⟩ := hread
  obtain ⟨hget, -⟩ := contents_eq_ok_iff.mp htext
  obtain ⟨k, names, hk, hnames, hpath⟩ := h.file_normal _ (Assoc.hasKey_iff_get?.mpr ⟨text, hget⟩)
  rw [← Path.isRooted_normalize, hpath]
  exact Path.isRooted_ofNames hk hnames

/-- A package whose manifest loads lies below a root. -/
theorem Sound.isRooted_of_load {tree : MemoryTree} (h : tree.Sound) {pkgDir : String}
    {manifest : Manifest}
    (hload : (Manifest.load pkgDir).result tree.toFileTree = .ok (.ok manifest)) :
    Path.isRooted pkgDir = true := by
  obtain ⟨text, hcontents, -⟩ := Manifest.load_eq_ok_iff.mp hload
  rw [← Path.isRooted_join pkgDir manifestName]
  exact h.isRooted_of_readable ⟨text, hcontents⟩

end MemoryTree

namespace EntryTree

variable {tree : FileTree} {ctx : Context} {entry : EntryTree} {target : Crawl.Target}
  {value : String}

/-- The check of a file tells that the file cannot be read. -/
theorem missing_mem_fileCheck (h : tree.TakesAnyPath) {path : String} {check : Check Unit}
    (hcheck : entry.fileCheck? ctx value target path = some check) (hpath : ¬ tree.Readable path) :
    Context.missing target.location ∈ check.findings tree := by
  have hread : Context.missing target.location
      ∈ (ctx.readEntry path target.location).findings tree := by
    have hnone : tree.firstText? (Context.candidates path []) = none := by
      refine FileTree.firstText?_eq_none.mpr ?_
      intro candidate hcandidate
      obtain rfl := List.mem_singleton.mp hcandidate
      exact hpath
    rw [Check.findings, Context.run_readEntry h, hnone]
    exact List.mem_singleton_self _
  rw [fileCheck?] at hcheck
  split at hcheck
  · simp at hcheck
  · split at hcheck
    · obtain rfl := Option.some.inj hcheck
      exact Check.mem_findings_bind.mpr (Or.inl hread)
    · split at hcheck
      · obtain rfl := Option.some.inj hcheck
        exact Check.mem_findings_bind.mpr (Or.inl hread)
      · simp at hcheck

/-- A target that names one file, which cannot be read though it is not a typed source, is reported
at its place. -/
theorem unreadable_reported (h : tree.TakesAnyPath) (hfield : entry.field = .exports)
    (hstart : Text.hasStart target.value "./" = true)
    (hstar : Pattern.hasWildcard target.value = false)
    (hslash : Text.hasEnd target.value "/" = false)
    (habsolute : Path.looksAbsolute (ctx.within target.value) = true)
    (htyped : Source.isTypedSource (ctx.within target.value) = false)
    (hpath : ¬ tree.Readable (ctx.within target.value)) :
    ∃ d ∈ (entry.task ctx target).findings tree, d.severity = .error
      ∧ d.location = target.location
      ∧ (d.code = .fileDoesNotExist ∨ d.code = .fileInvalidJsxExtension) := by
  have htarget : targetPath ctx target.value = ctx.within target.value := by
    rw [targetPath, if_pos (Path.looksRelative_of_hasStart hstart)]
  have hrun := run_checkTarget_plain tree ctx entry target (by simp [hfield]) hslash hstar
  rw [htarget] at hrun
  cases hjsx : Context.jsxExtension? (ctx.within target.value) with
  | some extension =>
    -- the extension is reported before the file is looked for
    obtain ⟨d, hd, hseverity, hlocation, hcode⟩ : ∃ d ∈ plainFindings ctx entry target,
        d.severity = .error ∧ d.location = target.location ∧ d.code = .fileInvalidJsxExtension := by
      rw [plainFindings, htarget, Context.jsxFindings, hjsx]
      exact ⟨_, List.mem_append_right _ (List.mem_singleton_self _), rfl, rfl, rfl⟩
    refine ⟨d, Task.mem_findings.mpr (Or.inl ?_), hseverity, hlocation, Or.inr hcode⟩
    rw [task, Check.findings, hrun]
    exact hd
  | none =>
    have hsome : (entry.fileCheck? ctx target.value target (ctx.within target.value)).isSome = true :=
      (fileCheck?_isSome _).mpr ⟨hjsx, Or.inr ⟨habsolute, htyped⟩⟩
    obtain ⟨check, hcheck⟩ := Option.isSome_iff_exists.mp hsome
    refine ⟨Context.missing target.location, Task.mem_findings.mpr (Or.inr ?_), rfl, rfl,
      Or.inl rfl⟩
    refine ⟨_, by rw [task, Check.result, hrun], check, ?_, missing_mem_fileCheck h hcheck hpath⟩
    rw [hcheck]
    exact List.mem_singleton_self _

end EntryTree

/-! ### Whole passes -/

namespace Declarations

/-- Where something is resolved, `exports` is set. -/
theorem isSet_of_resolve {raw : Json} {location : Location} {root : Root}
    (hroot : root? (ConditionTree.ofJson raw) location = some root) {conditions : List String}
    {found : ConditionTree.Resolved} (hfound : root.resolve conditions = some found)
    (hstart : Text.hasStart found.target "./" = true) : raw.isSet = true := by
  cases raw with
  | str target =>
    obtain rfl := Option.some.inj hroot
    obtain rfl := Option.some.inj hfound
    refine bne_iff_ne.mpr ?_
    intro hempty
    have hstart : Text.hasStart target "./" = true := hstart
    rw [hempty] at hstart
    exact absurd hstart (by decide)
  | arr items => rfl
  | obj fields => rfl
  | null | bool _ | int _ | float _ => exact absurd hroot (by simp [ConditionTree.ofJson, root?])

end Declarations

namespace Pass

/-- The leaves of `exports` are looked at. -/
theorem task_mem_plan {ctx : Context} (hset : (Fields.of ctx.manifest).hasExports = true)
    {target : Crawl.Target}
    (htarget : target ∈ Crawl.targets .exports (exportsEntry (Fields.of ctx.manifest)).location
      (exportsEntry (Fields.of ctx.manifest)).tree) :
    (exportsEntry (Fields.of ctx.manifest)).task ctx target ∈ (plan ctx).tasks := by
  have hmem : (exportsEntry (Fields.of ctx.manifest)).task ctx target
      ∈ (exportsPlan ctx (Fields.of ctx.manifest)).tasks := by
    rw [exportsPlan, if_pos hset, Plan.tasks_append]
    exact List.mem_append_left _ (List.mem_map.mpr ⟨target, htarget, rfl⟩)
  rw [tasks_plan]
  simp only [List.mem_append]
  tauto

/-- A resolved target is the value at its place, and the crawl of the same tree looks at it there. -/
theorem crawled_of_resolve {raw : Json} (hd : raw.DistinctKeys) {conditions : List String}
    {location : Location} {found : ConditionTree.Resolved}
    (hfound : (ConditionTree.ofJson raw).resolve conditions location = some found) :
    ∃ place, found.location = location ++ place
      ∧ raw.follow place = .ok (.str found.target)
      ∧ ∀ (ctx : Context) (entry : EntryTree), entry.tree = ConditionTree.ofJson raw →
          entry.location = location →
          ∃ target ∈ Crawl.targets entry.field entry.location entry.tree,
            target.value = found.target ∧ target.location = found.location
              ∧ entry.task ctx target ∈ (entry.plan ctx).tasks := by
  obtain ⟨place, hplace, hfollow⟩ := ConditionTree.follow_of_resolve hd hfound
  have htree := ConditionTree.distinctKeys_ofJson hd
  obtain ⟨place', hplace', hat⟩ := ConditionTree.at?_of_resolve htree hfound
  obtain rfl : place = place' := List.append_cancel_left (hplace.symm.trans hplace')
  refine ⟨place, hplace, hfollow, ?_⟩
  rintro ctx entry hentry rfl
  obtain ⟨target, hmem, hlocation, hvalue, -⟩ :
      ∃ target ∈ Crawl.targets entry.field entry.location entry.tree,
        target.location = entry.location ++ place ∧ target.value = found.target ∧ _ :=
    Crawl.exists_target (hentry ▸ htree) (hentry ▸ hat)
  exact ⟨target, hmem, hvalue, hlocation.trans hplace.symm, List.mem_map_of_mem hmem⟩

open Declarations

/-- A declaration that is not there is reported where it is resolved, unless it is a pattern, a folder,
a target that does not start as one, or a typed source. -/
theorem unreadable_declaration_reported {tree : MemoryTree} (h : tree.Sound) {pkgDir : String}
    {manifest : Manifest} (hload : (Manifest.load pkgDir).result tree.toFileTree = .ok (.ok manifest))
    (options : Options) (workDir : String) {root : Root}
    (hroot : root? (ConditionTree.ofJson (manifest.published "exports").1)
      (manifest.published "exports").2 = some root)
    {conditions : List String} {found : ConditionTree.Resolved}
    (hfound : root.resolve conditions = some found)
    (hstart : Text.hasStart found.target "./" = true)
    (hstar : Pattern.hasWildcard found.target = false)
    (hslash : Text.hasEnd found.target "/" = false)
    (htyped : Source.isTypedSource (Path.join pkgDir found.target) = false)
    (hthere : tree.isThere (Path.join pkgDir found.target) = false) :
    ∃ d ∈ (runPlan tree.toFileTree
        (plan (contextOf tree.toFileTree.depth workDir pkgDir manifest options))).findings,
      d.severity = .error ∧ d.location = found.location
        ∧ (d.code = .fileDoesNotExist ∨ d.code = .fileInvalidJsxExtension) := by
  let ctx := contextOf tree.toFileTree.depth workDir pkgDir manifest options
  let entry := exportsEntry (Fields.of ctx.manifest)
  have hfield : entry.field = .exports := rfl
  have hset : (Fields.of ctx.manifest).hasExports = true := isSet_of_resolve hroot hfound hstart
  have hd : entry.tree.DistinctKeys := ConditionTree.distinctKeys_ofJson
    (Manifest.distinctKeys_published (Manifest.distinctKeys_load hload) "exports")
  obtain ⟨place, hplace, hleaf⟩ := leaf_of_resolve hd hroot hfound
  obtain ⟨target, hmem, hlocation, hvalue, -⟩ :
      ∃ target ∈ Crawl.targets .exports entry.location entry.tree,
        target.location = entry.location ++ place ∧ target.value = found.target ∧ _ :=
    Crawl.exists_target hd hleaf
  have habsolute : Path.looksAbsolute (ctx.within target.value) = true := by
    refine Path.looksAbsolute_of_isRooted ?_
    rw [Context.within, Path.isRooted_join]
    exact h.isRooted_of_load hload
  rw [← hvalue] at hstart hstar hslash htyped hthere
  obtain ⟨d, hdmem, hseverity, hdplace, hcode⟩ := EntryTree.unreadable_reported
    tree.takesAnyPath hfield hstart hstar hslash habsolute htyped
    (fun hread => Bool.false_ne_true (hthere.symm.trans (MemoryTree.isThere_of_readable hread)))
  refine ⟨d, ?_, hseverity, hdplace.trans (hlocation.trans hplace.symm), hcode⟩
  rw [findings_runPlan]
  exact List.mem_append_right _ (List.mem_flatMap.mpr ⟨_, task_mem_plan hset hmem, hdmem⟩)

/-- A resolved target is the value at its place, and the crawl of the same tree looks at it there. So
the check of declarations may pass over a target that is not there: unless it is a pattern, a folder,
a target that does not start as one, or a typed source, a pass reports it at the resolved place. -/
theorem resolved_targets_crawled :
    (∀ raw : Json, raw.DistinctKeys → ∀ conditions location found,
      (ConditionTree.ofJson raw).resolve conditions location = some found →
        ∃ place, found.location = location ++ place
          ∧ raw.follow place = .ok (.str found.target)
          ∧ ∀ (ctx : Context) (entry : EntryTree), entry.tree = ConditionTree.ofJson raw →
              entry.location = location →
              ∃ target ∈ Crawl.targets entry.field entry.location entry.tree,
                target.value = found.target ∧ target.location = found.location
                  ∧ entry.task ctx target ∈ (entry.plan ctx).tasks)
    ∧ ∀ (files : List (String × String)) (tree : MemoryTree), MemoryTree.ofFiles files = .ok tree →
      ∀ pkgDir manifest, (Manifest.load pkgDir).result tree.toFileTree = .ok (.ok manifest) →
      ∀ options workDir, ∃ result, run tree.toFileTree pkgDir options workDir = .ok result
        ∧ ∀ root, root? (ConditionTree.ofJson (manifest.published "exports").1)
            (manifest.published "exports").2 = some root →
          ∀ request found, root.types request = some found →
            Text.hasStart found.target "./" = true → Pattern.hasWildcard found.target = false →
            Text.hasEnd found.target "/" = false →
            Source.isTypedSource (Path.join pkgDir found.target) = false →
            tree.isThere (Path.join pkgDir found.target) = false →
              ∃ d ∈ result.diagnostics, d.location = found.location
                ∧ (d.code = .fileDoesNotExist ∨ d.code = .fileInvalidJsxExtension) := by
  constructor
  · intro raw hd conditions location found hfound
    exact crawled_of_resolve hd hfound
  · intro files tree htree pkgDir manifest hload options workDir
    refine ⟨_, run_of_load hload _ _, ?_⟩
    intro root hroot request found hfound hstart hstar hslash htyped hthere
    have hsound := (MemoryTree.reachable_ofFiles htree).sound
    obtain ⟨d, hd, hseverity, hplace, hcode⟩ := unreadable_declaration_reported hsound hload options
      workDir hroot hfound hstart hstar hslash htyped hthere
    exact ⟨d, mem_diagnostics_of_error hseverity hd options manifest, hplace, hcode⟩

/-- A declaration in an array is crawled where it is resolved, and a pass tells that its file is not
there. -/
theorem resolved_declaration_crawled :
    (∃ place, ["exports", "types", "0"] = ["exports"] ++ place
        ∧ (Json.obj [("types", .arr [.str "./gone.d.ts"])]).follow place = .ok (.str "./gone.d.ts"))
    ∧ ∃ tree result,
        MemoryTree.ofFiles
            [("/p/package.json", "\x7b\"exports\":\x7b\"types\":[\"./gone.d.ts\"]\x7d\x7d")]
          = .ok tree
        ∧ run tree.toFileTree "/p" {} "/" = .ok result
        ∧ ∃ d ∈ result.diagnostics, d.location = ["exports", "types", "0"]
          ∧ (d.code = .fileDoesNotExist ∨ d.code = .fileInvalidJsxExtension) := by
  let raw : Json := .obj [("types", .arr [.str "./gone.d.ts"])]
  let files := [("/p/package.json", "\x7b\"exports\":\x7b\"types\":[\"./gone.d.ts\"]\x7d\x7d")]
  let tree : MemoryTree := { files, dirs := [("/", ["p"]), ("/p", ["package.json"])] }
  have htree : MemoryTree.ofFiles files = .ok tree := by rfl
  have hload : (Manifest.load "/p").result tree.toFileTree = .ok (.ok [("exports", raw)]) := by
    cbv
  have hd : raw.DistinctKeys := by
    simp [raw, Json.DistinctKeys, Json.FieldsDistinct, Json.ItemsDistinct, Assoc.keys]
  obtain ⟨hlookup, hreported⟩ := resolved_targets_crawled
  constructor
  · obtain ⟨place, hplace, hfollow, -⟩ := hlookup raw hd ["types"] ["exports"]
      { target := "./gone.d.ts", location := ["exports", "types", "0"] } (by decide)
    exact ⟨place, hplace, hfollow⟩
  · obtain ⟨result, hrun, hfound⟩ := hreported files tree htree "/p" _ hload {} "/"
    let root : Declarations.Root := { tree := ConditionTree.ofJson raw, location := ["exports"] }
    refine ⟨tree, result, htree, hrun, hfound root (by rfl) ⟨none, .import⟩
      { target := "./gone.d.ts", location := ["exports", "types", "0"] } ?_ ?_ ?_ ?_ ?_ ?_⟩
    · decide
    all_goals decide +kernel

end Pass

end PackageLint
