import PackageLint.Proofs.Levels
import PackageLint.Proofs.MirroredDeclarations
import PackageLint.Proofs.PublishedPlaces
import PackageLint.Proofs.TaskCodes

/-!
# The places of findings

A finding is about the package as a whole, or about a value of the manifest, and then its place leads
to that value. A check is handed a value with its place and extends the place as it descends, so what
every step keeps is that the place at hand leads to the value at hand. A published field starts it:
its place is one of two, and the value is there in both cases.

## Main definitions

* `Manifest.Locates` — a finding is about the package, or about a value of the manifest
* `Crawl.IsPlaced` — a finding is about a node of a tree

## Main results

* `Crawl.isPlaced_of_mem_findings` — what a crawl finds by itself is about a node of its tree
* `Pass.locates_planFindings`, `Pass.locates_tasks` — what a plan shows, and what its tasks may report
* `Pass.findings_located` — the findings of a whole pass
-/

namespace PackageLint

/-! ### Findings about values -/

namespace Manifest

variable {manifest : Manifest} {location place : Location} {value inner : Json} {d : Diagnostic}

/-- A finding is about the package as a whole, or about a value of the manifest. -/
def Locates (manifest : Manifest) (d : Diagnostic) : Prop :=
  d.location = PackageChecks.wholePackage
    ∨ ∃ value, (Json.obj manifest).at? d.location = some value

theorem locates_package (h : d.location = PackageChecks.wholePackage) : manifest.Locates d := Or.inl h

theorem locates_value (h : (Json.obj manifest).at? location = some value)
    (hd : d.location = location) : manifest.Locates d := Or.inr ⟨value, hd ▸ h⟩

/-- A place in a value of the manifest is one in the manifest. -/
theorem at?_below (h : (Json.obj manifest).at? location = some value)
    (hplace : value.at? place = some inner) :
    (Json.obj manifest).at? (location ++ place) = some inner := by
  rw [Json.at?_append, h, Option.bind_some, hplace]

/-- A field of the manifest that is not null is at its key. -/
theorem at?_field {field : String} (h : Json.field manifest field = value) (hne : value ≠ .null) :
    (Json.obj manifest).at? [field] = some value := by
  subst h
  simp [Json.at?, Json.get?_of_field hne]

/-- A field that is published with a value is at its place, when the value is not null. -/
theorem at?_of_published {field : String} (h : manifest.published field = (value, location))
    (hne : value ≠ .null) : (Json.obj manifest).at? location = some value := by
  have hat : (manifest.published field).1 ≠ .null → _ := at?_published
  rw [h] at hat
  exact hat hne

end Manifest

namespace Json

theorem ne_null_of_isSet {value : Json} (h : value.isSet = true) : value ≠ .null := by
  rintro rfl
  exact absurd h (by decide)

/-- A field of an object that gives no key twice is at its key. -/
theorem at?_of_mem {fields : Fields} {name : String} {value : Json}
    (hk : (Json.obj fields).DistinctKeys) (hmem : (name, value) ∈ fields) :
    (Json.obj fields).at? [name] = some value := by
  simp [Json.at?, Assoc.get?_of_mem hk.1 hmem]

theorem ne_null_of_isNull {value : Json} (h : ¬ value.isNull = true) : value ≠ .null := by
  rintro rfl
  exact h rfl

end Json

/-! ### What a crawl finds by itself -/

namespace Crawl

variable {field : EntryField} {d : Diagnostic} {location : Location}

/-- A finding is about a node of a tree, which is at a place itself. -/
def IsPlaced (tree : ConditionTree) (location : Location) (d : Diagnostic) : Prop :=
  ∃ place node, d.location = location ++ place ∧ tree.at? place = some node

theorem isPlaced_self {tree : ConditionTree} (h : d.location = location) :
    IsPlaced tree location d :=
  ⟨[], tree, by rw [h, List.append_nil], ConditionTree.at?_nil _⟩

/-- What is about a node of a subtree is about a node of the tree. -/
theorem isPlaced_below {tree inner : ConditionTree} {place : Location}
    (hat : tree.at? place = some inner) (h : IsPlaced inner (location ++ place) d) :
    IsPlaced tree location d := by
  obtain ⟨rest, node, hlocation, hnode⟩ := h
  refine ⟨place ++ rest, node, by rw [hlocation, List.append_assoc], ?_⟩
  rw [ConditionTree.at?_append, hat, Option.bind_some, hnode]

/-- What is at the place of an entry of a map is about that entry. -/
theorem isPlaced_key {entries : List (String × ConditionTree)} (hk : (Assoc.keys entries).Nodup)
    {key : String} (hkey : key ∈ Assoc.keys entries) (h : d.location = location ++ [key]) :
    IsPlaced (.map entries) location d := by
  obtain ⟨⟨_, node⟩, hmem, rfl⟩ := List.mem_map.mp hkey
  refine ⟨[_], node, h, ?_⟩
  rw [ConditionTree.at?, Assoc.get?_of_mem hk hmem, Option.bind_some, ConditionTree.at?_nil]

/-- Findings about the order of keys are at one of the keys. -/
theorem key_of_mem_orderFindings {entries : List (String × ConditionTree)}
    (hd : (ConditionTree.map entries).DistinctKeys) (h : d ∈ orderFindings field location entries) :
    ∃ key ∈ Assoc.keys entries, d.location = location ++ [key] := by
  rcases (mem_orderFindings hd).mp h with
    ⟨-, ⟨front, types, back, rfl, -⟩, rfl⟩ | ⟨⟨front, middle, back, hkeys⟩, rfl⟩ | ⟨⟨hmem, -⟩, rfl⟩
  · exact ⟨"types", by simp [Assoc.keys], rfl⟩
  · exact ⟨"module", by simp [hkeys], rfl⟩
  · exact ⟨"default", hmem, rfl⟩

/-- What a crawl finds by itself is about a node of its tree. -/
theorem isPlaced_of_mem_findings {tree : ConditionTree} (hd : tree.DistinctKeys)
    (h : d ∈ findings field location tree) : IsPlaced tree location d := by
  obtain ⟨⟨_, node⟩, hnode, hfound⟩ := exists_node_of_mem_findings h
  obtain ⟨place, rfl, hat⟩ := (ConditionTree.mem_nodes location hd).mp hnode
  have hdistinct : node.DistinctKeys := hd.at? hat
  refine isPlaced_below hat ?_
  rcases hfound with hfound | hfound
  · cases node with
    | leaf _ | exclusion => exact absurd hfound List.not_mem_nil
    | array _ | invalid _ =>
      obtain rfl := List.mem_singleton.mp hfound
      exact isPlaced_self rfl
    | map entries =>
      obtain ⟨key, hkey, hlocation⟩ := key_of_mem_orderFindings hdistinct hfound
      exact isPlaced_key hdistinct.1 hkey hlocation
  · obtain ⟨-, entries, key, rfl, hkey, -, rfl⟩ := mem_keysDue.mp hfound
    exact isPlaced_key hdistinct.1 hkey rfl

end Crawl

/-! ### Plans -/

namespace Manifest

variable {manifest : Manifest} {location place : Location} {value : Json} {d : Diagnostic}

/-- A node of a value's tree stands for a value of the manifest. -/
theorem locates_node (h : (Json.obj manifest).at? location = some value)
    {node : ConditionTree} (hat : (ConditionTree.ofJson value).at? place = some node)
    (hd : d.location = location ++ place) : manifest.Locates d := by
  rw [ConditionTree.at?_ofJson] at hat
  obtain ⟨inner, hinner, -⟩ := Option.map_eq_some_iff.mp hat
  exact locates_value (at?_below h hinner) hd

theorem locates_isPlaced (h : (Json.obj manifest).at? location = some value)
    (hd : Crawl.IsPlaced (ConditionTree.ofJson value) location d) : manifest.Locates d := by
  obtain ⟨place, node, hlocation, hat⟩ := hd
  exact locates_node h hat hlocation

end Manifest

namespace Pass

open Manifest

variable {ctx : Context} {d : Diagnostic} {task : Task}

/-! ### What the manifest shows by itself -/

theorem locates_repository (h : d ∈ RepositoryField.findings ctx.manifest) :
    ctx.manifest.Locates d := by
  have hat : ∀ {value : Json}, Assoc.get? "repository" ctx.manifest = some value →
      (Json.obj ctx.manifest).at? ["repository"] = some value := by
    intro value hget
    simp [Json.at?, hget]
  cases RepositoryField.isFound_of_mem h with
  | shorthand hget _ | wrongType hget => exact locates_value (hat hget) rfl
  | address hget hurl _ => exact locates_value (at?_below (hat hget) (at?_field hurl (by simp))) rfl

/-- A field that counts as set is at its place, and gives no key twice. -/
theorem at?_of_isSet {field : String} (hk : (Json.obj ctx.manifest).DistinctKeys)
    (h : (ctx.manifest.published field).1.isSet = true) :
    (Json.obj ctx.manifest).at? (ctx.manifest.published field).2
        = some (ctx.manifest.published field).1
      ∧ (ctx.manifest.published field).1.DistinctKeys :=
  ⟨at?_published (Json.ne_null_of_isSet h), distinctKeys_published hk field⟩

/-- What a manifest shows by itself is about the package or about one of its values. -/
theorem locates_planFindings (hk : (Json.obj ctx.manifest).DistinctKeys)
    (h : d ∈ (plan ctx).findings) : ctx.manifest.Locates d := by
  cases apparent_of_mem h with
  | @dependency fields name version hfields hmem =>
    have hdistinct : (Json.obj fields).DistinctKeys := hfields ▸ hk.field "dependencies"
    exact locates_value (at?_below (at?_field hfields (by simp)) (Json.at?_of_mem hdistinct hmem)) rfl
  | type => exact locates_package rfl
  | missingRoot hnull => exact locates_value (at?_published hnull) rfl
  | repository h => exact locates_repository h
  | known hnull hpublished => exact locates_value (at?_of_published hpublished hnull) rfl
  | browser hset => exact locates_value (at?_of_isSet hk hset).1 rfl
  | command hbin hmem =>
    have hset : (ctx.manifest.published "bin").1.isSet = true := by rw [hbin]; rfl
    obtain ⟨hat, hdistinct⟩ := at?_of_isSet hk hset
    rw [hbin] at hat hdistinct
    exact locates_value (at?_below hat (Json.at?_of_mem hdistinct hmem)) rfl
  | imports hset => exact locates_value (at?_of_isSet hk hset).1 rfl
  | tree hset htree hlocation h =>
    obtain ⟨hat, hdistinct⟩ := at?_of_isSet hk hset
    rw [htree, hlocation] at h
    exact locates_isPlaced hat
      (Crawl.isPlaced_of_mem_findings (ConditionTree.distinctKeys_ofJson hdistinct) h)

/-! ### What the tasks may report -/

theorem locates_legacyTask (h : LegacyTask ctx (Fields.of ctx.manifest) task) :
    task.Only ctx.manifest.Locates := by
  cases h with
  | index => exact Task.only_single (PackageChecks.only_checkIndex fun _ _ => locates_package) _
  | main hgiven =>
    have hat := at?_published (Json.ne_null_of_isNull hgiven)
    exact Task.only_single (EntryChecks.only_checkMain (fun _ _ => locates_value hat) _ _) _
  | module hgiven =>
    have hat := at?_published (Json.ne_null_of_isNull hgiven)
    exact Task.only_single (EntryChecks.only_checkModule (fun _ _ => locates_value hat) _ _) _

theorem locates_knownTask {field : String} (h : task ∈ (EntryChecks.knownField ctx field).tasks) :
    task.Only ctx.manifest.Locates := by
  rw [EntryChecks.knownField] at h
  split at h
  · simp at h
  next value location hpublished =>
    obtain rfl := List.mem_singleton.mp h
    have hat := at?_of_published hpublished (by simp)
    exact Task.only_single (EntryChecks.only_checkKnownField (fun _ _ => locates_value hat) _ _) _
  · simp [Plan.finding] at h

theorem locates_browserTask {value : Json} {location : Location}
    (hat : (Json.obj ctx.manifest).at? location = some value) (hk : value.DistinctKeys)
    {entry : String × Location} (hentry : entry ∈ EntryChecks.nestedStrings location value) :
    (EntryChecks.browserTask ctx entry).Only ctx.manifest.Locates := by
  obtain ⟨keys, hplace, hthrough⟩ := (EntryChecks.mem_nestedStrings hk).mp hentry
  have hname := at?_below hat (Json.at?_of_through? hthrough)
  exact EntryChecks.only_browserTask fun _ _ hd => locates_value hname (hd.trans hplace)

theorem locates_binTasks {value : Json} {location : Location}
    (hat : (Json.obj ctx.manifest).at? location = some value) (hk : value.DistinctKeys)
    (h : task ∈ (EntryChecks.binField ctx value location).tasks) :
    task.Only ctx.manifest.Locates := by
  have hcommand : ∀ {value : Json} {location : Location} {path : String},
      (Json.obj ctx.manifest).at? location = some value →
      task ∈ (EntryChecks.command ctx path location).tasks → task.Only ctx.manifest.Locates := by
    intro value location path hat h
    obtain rfl := List.mem_singleton.mp h
    exact Task.only_single (EntryChecks.only_checkCommand (fun _ _ => locates_value hat) _) _
  cases value with
  | str path => exact hcommand hat h
  | obj fields =>
    simp only [EntryChecks.binField, Plan.tasks_concat] at h
    obtain ⟨plan, hplan, ht⟩ := List.mem_flatMap.mp h
    obtain ⟨⟨name, value⟩, hmem, rfl⟩ := List.mem_map.mp hplan
    simp only at ht
    split at ht
    · exact hcommand (at?_below hat (Json.at?_of_mem hk hmem)) ht
    · simp [Plan.finding] at ht
  | _ => simp [EntryChecks.binField] at h

/-- A leaf's task reports at the place of the leaf, where the string of the leaf is. -/
theorem locates_leafTask (hk : (Json.obj ctx.manifest).DistinctKeys) (h : LeafTask ctx task) :
    task.Only ctx.manifest.Locates := by
  obtain @⟨field, entry, target, hset, htree, hlocation, htarget⟩ := h
  obtain ⟨hat, hdistinct⟩ := at?_of_isSet hk hset
  obtain ⟨place, hplace, hleaf, -⟩ :=
    (Crawl.mem_targets (htree ▸ ConditionTree.distinctKeys_ofJson hdistinct)).mp htarget
  rw [htree] at hleaf
  rw [hlocation] at hplace
  exact EntryTree.only_task fun d hd => locates_node hat hleaf (hd.trans hplace)

/-- The findings about declarations are at what the root entry resolves to, which is a leaf. -/
theorem locates_rootTask (hk : (Json.obj ctx.manifest).DistinctKeys) (h : RootTask ctx task) :
    task.Only ctx.manifest.Locates := by
  obtain ⟨hset, hroot⟩ := h
  obtain ⟨hat, hdistinct⟩ := at?_of_isSet hk hset
  refine Task.only_single (Declarations.only_check ?_) _
  intro conditions found hfound d _ hd
  obtain ⟨place, hplace, hleaf⟩ :=
    Declarations.leaf_of_resolve (ConditionTree.distinctKeys_ofJson hdistinct) hroot hfound
  exact locates_node hat hleaf (hd.trans hplace)

/-- Whatever the files are, the tasks of a pass report about the package or about values of the
manifest. -/
theorem locates_tasks (hk : (Json.obj ctx.manifest).DistinctKeys) (h : task ∈ (plan ctx).tasks) :
    task.Only ctx.manifest.Locates := by
  cases planned_of_mem h with
  | files h => exact PackageChecks.only_filesField (fun _ _ => locates_package) h
  | license h => exact PackageChecks.only_licenseField (fun _ _ => locates_package) h
  | legacy h => exact locates_legacyTask h
  | known h => exact locates_knownTask h
  | browser hset hentry =>
    exact locates_browserTask (at?_of_isSet hk hset).1 (at?_of_isSet hk hset).2 hentry
  | leaf h => exact locates_leafTask hk h
  | root h => exact locates_rootTask hk h
  | scan h => exact AllFiles.only_plan (fun _ _ => locates_package) h
  | bin hset h => exact locates_binTasks (at?_of_isSet hk hset).1 (at?_of_isSet hk hset).2 h

/-! ### Whole passes -/

/-- What is shown of findings is at the places of findings. -/
theorem exists_location_of_mem_shown {level : Severity} {strict : Bool} {ds : List Diagnostic}
    (h : d ∈ shown level strict ds) : ∃ e ∈ ds, e.location = d.location := by
  obtain ⟨e, he, rfl⟩ := List.mem_map.mp (List.mem_of_mem_filter h)
  refine ⟨e, he, ?_⟩
  split <;> rfl

/-- Every finding that a pass reports, except those about the package as a whole, is at a place that
leads to a value of the manifest: through objects by their keys, and through arrays by indices that
they have. -/
theorem findings_located {tree : FileTree} {pkgDir workDir : String} {options : Options}
    {result : Result} (h : run tree pkgDir options workDir = .ok result)
    (hd : d ∈ result.diagnostics) (hplace : d.location ≠ PackageChecks.wholePackage) :
    ∃ value, (Json.obj result.manifest).at? d.location = some value := by
  obtain ⟨manifest, hload, rfl⟩ := run_eq_ok_iff.mp h
  have hk : (Json.obj manifest).DistinctKeys := distinctKeys_load hload
  have hshown := atLevel_logOf options
    (runPlan tree (plan (contextOf tree.depth workDir pkgDir manifest options))).findings
  rw [resultOf] at hd
  rw [hshown] at hd
  obtain ⟨e, he, hlocation⟩ := exists_location_of_mem_shown hd
  have hlocates : manifest.Locates e := by
    rw [findings_runPlan, List.mem_append] at he
    rcases he with he | he
    · exact locates_planFindings hk he
    · obtain ⟨task, htask, he⟩ := List.mem_flatMap.mp he
      exact Task.of_mem_findings (locates_tasks hk htask) he
  rw [← hlocation] at hplace ⊢
  exact hlocates.resolve_left hplace

/-- The items of an overriding array are at places below the overrides. -/
theorem overriding_item_located :
    ∃ tree result,
      MemoryTree.ofFiles
          [("/p/package.json", "\x7b\"publishConfig\":\x7b\"exports\":[5]\x7d\x7d")] = .ok tree
        ∧ run tree.toFileTree "/p" {} "/" = .ok result
        ∧ ∃ d ∈ result.diagnostics, d.location = ["publishConfig", "exports", "0"]
          ∧ ∃ value, (Json.obj result.manifest).at? d.location = some value := by
  let files := [("/p/package.json", "\x7b\"publishConfig\":\x7b\"exports\":[5]\x7d\x7d")]
  let tree : MemoryTree := { files, dirs := [("/", ["p"]), ("/p", ["package.json"])] }
  have htree : MemoryTree.ofFiles files = .ok tree := by rfl
  have hfound : ((run tree.toFileTree "/p" {} "/").toOption.map fun result =>
      result.diagnostics.any fun d => d.location = ["publishConfig", "exports", "0"])
        = some true := by
    decide +kernel
  cases hrun : run tree.toFileTree "/p" {} "/" with
  | error e => simp [hrun, Except.toOption] at hfound
  | ok result =>
    obtain ⟨d, hd, hlocation⟩ :
        ∃ d ∈ result.diagnostics, d.location = ["publishConfig", "exports", "0"] := by
      simpa [hrun, Except.toOption] using hfound
    have hplace : d.location ≠ PackageChecks.wholePackage := by
      rw [hlocation]
      decide
    exact ⟨tree, result, htree, hrun, d, hd, hlocation, findings_located hrun hd hplace⟩

end Pass

end PackageLint
