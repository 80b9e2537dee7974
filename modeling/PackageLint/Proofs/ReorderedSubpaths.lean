import PackageLint.Proofs.RewrittenManifests

/-!
# The order of subpaths does not matter

In a map of conditions the order of the keys says which of them is tried first. In a map of subpaths it
says nothing: the keys that a crawl minds the order of are no subpaths, the keys that hide files are
tried all, and the root entry is found by its key. So a pass reports the same whatever the order of the
subpaths is, up to the order of its findings.

## Main definitions

* `EntryField.mark` — what the subpaths of a field start with

## Main results

* `Crawl.visits_perm` — the crawl of reordered entries
* `Mirror.agree_reorderedEntry` — the plan for a condition tree with reordered entries
* `Pass.diagnostics_reordered` — the passes before and after report the same
-/

namespace PackageLint

open Diagnostic (move)
open Pass (Fields)

theorem Assoc.get?_perm {α : Type} {entries entries' : Assoc α} (hperm : entries.Perm entries')
    (hd : (Assoc.keys entries).Nodup) (key : String) :
    Assoc.get? key entries' = Assoc.get? key entries := by
  have hd' : (Assoc.keys entries').Nodup := (hperm.map Prod.fst).nodup_iff.mp hd
  refine Option.ext fun value => ⟨fun h => ?_, fun h => ?_⟩
  · exact Assoc.get?_of_mem hd (hperm.mem_iff.mpr (Assoc.mem_of_get? h))
  · exact Assoc.get?_of_mem hd' (hperm.mem_iff.mp (Assoc.mem_of_get? h))

/-! ### Crawls -/

namespace Crawl

variable {field : EntryField} {location : Location} {entries entries' : List (String × ConditionTree)}

/-- Without keys that a crawl minds, their order is never wrong. -/
theorem orderFindings_eq_nil (h : ∀ key ∈ Assoc.keys entries, key ∉ orderedKeys) :
    orderFindings field location entries = [] := by
  have hnot : ∀ key ∈ orderedKeys, key ∉ entries.map Prod.fst := fun key hkey hmem => h key hmem hkey
  have htypes : typesTooLate entries = false := by
    have hall : entries.takeWhile (fun e => e.1 ≠ "types") = entries := by
      refine List.takeWhile_eq_self_iff.mpr fun e he => ?_
      have hne : e.1 ≠ "types" := fun heq =>
        hnot "types" (by decide) (heq ▸ List.mem_map_of_mem (f := Prod.fst) he)
      simpa using hne
    simp only [typesTooLate, hall, lt_irrefl, decide_false, Bool.false_and]
  have hmodule : declaredAfter "module" "require" (entries.map Prod.fst) = false := by
    simp [declaredAfter, hnot "module" (by decide)]
  have hdefault : (entries.map Prod.fst).contains "default" = false := by
    simpa using hnot "default" (by decide)
  simp only [orderFindings, htypes, hmodule, hdefault]
  simp

/-- What a crawl comes upon in one entry of a map. -/
def visitsOf (field : EntryField) (location : Location) (entry : String × ConditionTree) :
    List Visit :=
  (keyFindings field location entry.1).map .finding
    ++ visits field (location ++ [entry.1]) false entry.2

/-- Without a `node` key every entry is crawled for itself. -/
theorem entryVisits_eq_flatMap (h : "node" ∉ Assoc.keys entries) :
    entryVisits field location false entries = entries.flatMap (visitsOf field location) := by
  induction entries with
  | nil => rfl
  | cons entry rest ih =>
    obtain ⟨key, tree⟩ := entry
    obtain ⟨hkey, hrest⟩ : "node" ≠ key ∧ "node" ∉ Assoc.keys rest := by simpa [Assoc.keys] using h
    have hflag : (false || decide (key = "node")) = false := by simpa using Ne.symm hkey
    rw [entryVisits, hflag, ih hrest, List.flatMap_cons, visitsOf]

variable (hperm : entries.Perm entries') (hkeys : ∀ key ∈ Assoc.keys entries, key ∉ orderedKeys)

include hperm hkeys

/-- The crawl of reordered entries comes upon the same. -/
theorem visits_perm : (visits field location false (.map entries)).Perm
    (visits field location false (.map entries')) := by
  have hkeys' : ∀ key ∈ Assoc.keys entries', key ∉ orderedKeys := fun key hkey =>
    hkeys key ((hperm.map Prod.fst).mem_iff.mpr hkey)
  have hnode : "node" ∈ orderedKeys := by decide
  rw [visits, visits, orderFindings_eq_nil hkeys, orderFindings_eq_nil hkeys',
    entryVisits_eq_flatMap fun hmem => hkeys _ hmem hnode,
    entryVisits_eq_flatMap fun hmem => hkeys' _ hmem hnode]
  exact hperm.flatMap_right _

theorem findings_perm :
    (findings field location (.map entries)).Perm (findings field location (.map entries')) :=
  (visits_perm hperm hkeys).filterMap _

theorem targets_perm :
    (targets field location (.map entries)).Perm (targets field location (.map entries')) :=
  (visits_perm hperm hkeys).filterMap _

end Crawl

/-! ### Plans -/

namespace Mirror

variable {tree tree' : FileTree} {ctx ctx' : Context} (h : Mirror tree tree' ctx ctx')

include h

/-- The plan for a condition tree whose entries are reordered. -/
theorem agree_reorderedEntry {entry entry' : EntryTree}
    {entries entries' : List (String × ConditionTree)} (htree : entry.tree = .map entries)
    (htree' : entry'.tree = .map entries') (hperm : entries.Perm entries')
    (hkeys : ∀ key ∈ Assoc.keys entries, key ∉ Crawl.orderedKeys)
    (hfield : entry'.field = entry.field) (hlocation : entry'.location = entry.location)
    (hbrowser : entry'.browser = entry.browser)
    (hplace : entry'.browserLocation = entry.browserLocation)
    (hstar : ∀ t ∈ Crawl.targets entry.field entry.location entry.tree,
      SameStar id ctx.manifest ctx'.manifest t.location)
    (haims : ∀ v, h.Aims v) :
    (entry.plan ctx).Agree (move id) tree tree' (entry'.plan ctx') := by
  have hsame : ∀ location, EntryTree.SamePlace id entry entry' location := by
    intro location
    refine ⟨⟨hfield, fun _ _ => rfl, hbrowser, fun _ _ => by rw [hplace]; rfl⟩, ?_⟩
    intro ctx ctx' value capture
    have hnull : (Subpath.Search.nullKeys (.map entries')).Perm
        (Subpath.Search.nullKeys (.map entries)) := hperm.symm.filterMap _
    have hkey : entry'.entryKey location = entry.entryKey location := by
      rw [EntryTree.entryKey, EntryTree.entryKey, hlocation]
    exact (congrFun (Subpath.Search.hides_congr hkey (congrArg some htree) (congrArg some htree')
      fun _ => hnull.mem_iff) capture).symm
  have hfindings : (Crawl.findings entry.field entry.location entry.tree).Perm
      (Crawl.findings entry'.field entry'.location entry'.tree) := by
    rw [hfield, hlocation, htree, htree']
    exact Crawl.findings_perm hperm hkeys
  have htargets : (Crawl.targets entry.field entry.location entry.tree).Perm
      (Crawl.targets entry'.field entry'.location entry'.tree) := by
    rw [hfield, hlocation, htree, htree']
    exact Crawl.targets_perm hperm hkeys
  refine Plan.agree_mk ?_ ?_
  · rw [Diagnostic.map_move_id]
    exact hfindings
  · have htasks : ∀ t ∈ Crawl.targets entry.field entry.location entry.tree,
        (entry'.task ctx' t).findings tree' = ((entry.task ctx t).findings tree).map (move id) :=
      fun t ht => h.agree_task (hsame _) rfl rfl rfl (hstar t ht) fun _ => haims _
    change (((Crawl.targets entry.field entry.location entry.tree).map (entry.task ctx)).flatMap
        (Task.findings tree)).map (move id) |>.Perm
      (((Crawl.targets entry'.field entry'.location entry'.tree).map (entry'.task ctx')).flatMap
        (Task.findings tree'))
    rw [List.flatMap_map, List.flatMap_map, List.map_flatMap,
      ← List.flatMap_congr htasks]
    exact htargets.flatMap_right _

end Mirror

/-! ### The field -/

namespace EntryField

/-- The name of a field. -/
def name : EntryField → String
  | .exports => "exports"
  | .imports => "imports"

/-- What the subpaths of a field start with. -/
def mark : EntryField → String
  | .exports => "."
  | .imports => "#"

theorem name_mem (field : EntryField) : field.name ∈ Manifest.treeFields := by
  cases field <;> decide

theorem name_ne (field : EntryField) : field.name ≠ overridesKey := by
  cases field <;> decide

/-- Subpaths are none of the keys that a crawl minds the order of. -/
theorem not_mem_orderedKeys {field : EntryField} {key : String}
    (h : Text.hasStart key field.mark = true) : key ∉ Crawl.orderedKeys := by
  have hall : ∀ key ∈ Crawl.orderedKeys,
      Text.hasStart key "." = false ∧ Text.hasStart key "#" = false := by decide
  intro hkey
  obtain ⟨hdot, hhash⟩ := hall key hkey
  cases field with
  | exports => exact absurd h (by simp [mark, hdot])
  | imports => exact absurd h (by simp [mark, hhash])

end EntryField

namespace Manifest

variable {manifest : Manifest} {field : EntryField} {fields fields' : Json.Fields}
  (hvalue : (manifest.published field.name).1 = .obj fields) (hperm : fields.Perm fields')

include hvalue hperm

/-- The reordered entries are published in the same place. -/
theorem published_reordered :
    (manifest.republish field.name (.obj fields')).published field.name
      = (.obj fields', (manifest.published field.name).2) := by
  refine published_republish_self field.name_ne fun htruthy => ?_
  rw [published, if_pos htruthy] at hvalue
  change Json.field manifest.overrides field.name = .obj fields at hvalue
  rw [hvalue] at htruthy
  simpa [Json.truthy, hperm.isEmpty_eq] using htruthy

/-- Below the entries the reordered manifest says the same. -/
theorem sameStar_reordered (hd : (Json.obj manifest).DistinctKeys) {key : String} {rest : Location} :
    Mirror.SameStar id manifest (manifest.republish field.name (.obj fields'))
      ((manifest.published field.name).2 ++ key :: rest) where
  move_starred := rfl
  follow := by
    have hnodup : (Assoc.keys fields).Nodup := by
      have hdistinct := distinctKeys_published hd field.name
      rw [hvalue] at hdistinct
      exact hdistinct.1
    have hpublished := published_reordered hvalue hperm
    have hstart : (manifest.published field.name).2
        = ((manifest.republish field.name (.obj fields')).published field.name).2 := by
      rw [hpublished]
    rw [manifest.starredLocation_published field.name_mem, follow_published, hvalue, id, hstart,
      starredLocation_published _ field.name_mem, follow_published, hpublished,
      EntryTree.starredLocation, List.map_cons, Json.follow, Json.follow, Json.field, Json.field,
      Assoc.get?_perm hperm hnodup]

end Manifest

/-! ### Root entries -/

theorem ConditionTree.ofFields_perm {fields fields' : Json.Fields} (hperm : fields.Perm fields') :
    (ofFields fields).Perm (ofFields fields') := by
  rw [ofFields_eq_map, ofFields_eq_map]
  exact hperm.map _

section

variable {entries entries' : List (String × ConditionTree)} (hperm : entries.Perm entries')
  (hd : (Assoc.keys entries).Nodup) (hkeys : ∀ key ∈ Assoc.keys entries, Text.hasStart key "." = true)

include hperm hkeys

/-- Entries that are subpaths are so in every order. -/
theorem ConditionTree.startsSubpaths_perm : startsSubpaths entries' = startsSubpaths entries := by
  have hempty : ∀ entries : List (String × ConditionTree),
      (∀ key ∈ Assoc.keys entries, Text.hasStart key "." = true) →
        startsSubpaths entries = !entries.isEmpty := by
    intro entries hkeys
    cases entries with
    | nil => rfl
    | cons entry rest => exact hkeys entry.1 List.mem_cons_self
  have hkeys' : ∀ key ∈ Assoc.keys entries', Text.hasStart key "." = true := fun key hkey =>
    hkeys key ((hperm.map Prod.fst).mem_iff.mpr hkey)
  rw [hempty entries hkeys, hempty entries' hkeys', hperm.isEmpty_eq]

include hd

/-- The root entry of subpaths is the same in every order. -/
theorem Declarations.root?_perm (location : Location) :
    root? (.map entries') location = root? (.map entries) location := by
  have hstarts := ConditionTree.startsSubpaths_perm hperm hkeys
  cases entries with
  | nil => rw [hperm.nil_eq]
  | cons entry rest =>
    have hfirst : ConditionTree.startsSubpaths (entry :: rest) = true :=
      hkeys entry.1 List.mem_cons_self
    rw [root?_of_startsSubpaths hfirst, root?_of_startsSubpaths (hstarts.trans hfirst),
      Assoc.get?_perm hperm hd]

end

/-! ### Whole plans -/

namespace Mirror

variable {tree tree' : FileTree} {ctx ctx' : Context} (h : Mirror tree tree' ctx ctx')

section

variable (hf : Manifest.SameFields id ctx.manifest ctx'.manifest)
  {entries entries' : List (String × ConditionTree)}
  (hlocation : (ctx'.manifest.published "exports").2 = (ctx.manifest.published "exports").2)
  (htree : ConditionTree.ofJson (ctx.manifest.published "exports").1 = .map entries)
  (htree' : ConditionTree.ofJson (ctx'.manifest.published "exports").1 = .map entries')
  (hperm : entries.Perm entries') (hd : (Assoc.keys entries).Nodup)
  (hkeys : ∀ key ∈ Assoc.keys entries, Text.hasStart key "." = true)

include hf hlocation htree htree' hperm hd hkeys

theorem agree_reorderedMissingRoot :
    (Pass.missingRoot (Fields.of ctx.manifest)).Agree (move id) tree tree'
      (Pass.missingRoot (Fields.of ctx'.manifest)) := by
  refine agree_missingRoot_of_map hf hlocation htree htree' ?_ ?_
  · exact ConditionTree.startsSubpaths_perm hperm hkeys
  · rw [Assoc.hasKey, Assoc.hasKey, Assoc.get?_perm hperm hd]

include h

theorem agree_reorderedDeclarations (hfits : ∀ v, h.Fits v) :
    (Declarations.plan ctx (ConditionTree.ofJson (ctx.manifest.published "exports").1)
        (ctx.manifest.published "exports").2).Agree (move id) tree tree'
      (Declarations.plan ctx' (ConditionTree.ofJson (ctx'.manifest.published "exports").1)
        (ctx'.manifest.published "exports").2) := by
  rw [htree, htree', hlocation]
  refine h.agree_declarations ?_ (fun _ _ _ _ _ => hfits _)
    (h.fits_givenString hf fun v _ => hfits v)
  rw [Declarations.root?_perm hperm hd hkeys]
  cases Declarations.root? (.map entries) (ctx.manifest.published "exports").2 with
  | none => exact .none
  | some root =>
    exact .some (Declarations.sameRoot_of_fixed (fun _ _ => rfl) (fun _ _ _ _ => rfl)
      fun _ _ _ _ _ => rfl)

end

variable {field : EntryField} {fields fields' : Json.Fields}
  (hctx : ctx'.manifest = ctx.manifest.republish field.name (.obj fields'))
  (hd : (Json.obj ctx.manifest).DistinctKeys)
  (hvalue : (ctx.manifest.published field.name).1 = .obj fields) (hperm : fields.Perm fields')
  (hkeys : ∀ key ∈ Assoc.keys fields, Text.hasStart key field.mark = true)
  (haims : ∀ v, h.Aims v)

include hctx

theorem sameFields_reordered : Manifest.SameFields id ctx.manifest ctx'.manifest := by
  rw [hctx]
  exact Manifest.sameFields_republish (fun _ _ => rfl) field.name_mem

theorem sameField_reordered {key : String} (hne : key ≠ field.name) (hkey : key ≠ overridesKey) :
    Manifest.SameField id ctx.manifest ctx'.manifest key := by
  rw [hctx]
  exact Manifest.sameField_republish (fun _ _ => rfl) field.name_ne hne hkey

include hd hvalue hperm hkeys haims

/-- The plan for the condition tree of the field. -/
theorem agree_reorderedTree {entry entry' : EntryTree}
    (htree : entry.tree = ConditionTree.ofJson (.obj fields))
    (htree' : entry'.tree = ConditionTree.ofJson (.obj fields'))
    (hlocation : entry.location = (ctx.manifest.published field.name).2)
    (hfield : entry'.field = entry.field) (hplace : entry'.location = entry.location)
    (hbrowser : entry'.browser = entry.browser)
    (hbrowserPlace : entry'.browserLocation = entry.browserLocation) :
    (entry.plan ctx).Agree (move id) tree tree' (entry'.plan ctx') := by
  have hentries : (ConditionTree.ofFields fields).Perm (ConditionTree.ofFields fields') :=
    ConditionTree.ofFields_perm hperm
  have hmap (fields : Json.Fields) : ConditionTree.ofJson (.obj fields)
      = .map (ConditionTree.ofFields fields) := by rw [ConditionTree.ofJson]
  refine h.agree_reorderedEntry (htree.trans (hmap fields)) (htree'.trans (hmap fields')) hentries ?_
    hfield hplace hbrowser hbrowserPlace ?_ haims
  · intro key hkey
    rw [ConditionTree.keys_ofFields] at hkey
    exact EntryField.not_mem_orderedKeys (hkeys key hkey)
  · intro t ht
    have hdistinct : entry.tree.DistinctKeys := by
      rw [htree, ← hvalue]
      exact ConditionTree.distinctKeys_ofJson (Manifest.distinctKeys_published hd field.name)
    obtain ⟨place, hplace, hat, -⟩ := (Crawl.mem_targets hdistinct).mp ht
    cases place with
    | nil =>
      rw [htree, ConditionTree.ofJson] at hat
      exact absurd hat (by simp)
    | cons key rest =>
      rw [hplace, hlocation, hctx]
      exact Manifest.sameStar_reordered hvalue hperm hd

/-- Plans agree where the entries of `exports` are reordered. -/
theorem agree_reorderedExports (hfits : ∀ v, h.Fits v) (hfield : field = .exports) :
    (Pass.plan ctx).Agree (move id) tree tree' (Pass.plan ctx') := by
  subst hfield
  have hf := sameFields_reordered hctx
  have himports : Manifest.SameField id ctx.manifest ctx'.manifest "imports" :=
    sameField_reordered hctx (by decide) (by decide)
  have hbrowser := hf.published "browser" (by decide)
  change (ctx.manifest.published "exports").1 = .obj fields at hvalue
  have hpublished : ctx'.manifest.published "exports"
      = (.obj fields', (ctx.manifest.published "exports").2) := by
    rw [hctx]
    exact Manifest.published_reordered hvalue hperm
  have hset : (Fields.of ctx.manifest).hasExports = true := congrArg Json.isSet hvalue
  have hset' : (Fields.of ctx'.manifest).hasExports = true :=
    congrArg (fun field => field.1.isSet) hpublished
  have hnull : (Fields.of ctx'.manifest).exports.1.isNull = (Fields.of ctx.manifest).exports.1.isNull :=
    (congrArg (fun field => field.1.isNull) hpublished).trans (congrArg Json.isNull hvalue).symm
  have hlocation := congrArg Prod.snd hpublished
  have htree : ConditionTree.ofJson (ctx.manifest.published "exports").1
      = .map (ConditionTree.ofFields fields) := by rw [hvalue, ConditionTree.ofJson]
  have htree' : ConditionTree.ofJson (ctx'.manifest.published "exports").1
      = .map (ConditionTree.ofFields fields') := by rw [hpublished, ConditionTree.ofJson]
  have hentries := ConditionTree.ofFields_perm hperm
  have hnodup : (Assoc.keys (ConditionTree.ofFields fields)).Nodup := by
    have hdistinct := Manifest.distinctKeys_published hd "exports"
    rw [hvalue] at hdistinct
    rw [ConditionTree.keys_ofFields]
    exact hdistinct.1
  have hmarked : ∀ key ∈ Assoc.keys (ConditionTree.ofFields fields),
      Text.hasStart key "." = true := by
    rw [ConditionTree.keys_ofFields]
    exact hkeys
  refine h.agree_plan hf (fun v _ => hfits v) hd (hset'.trans hset.symm) hnull ?_ [] ?_ ?_
  · exact agree_reorderedMissingRoot hf hlocation htree htree' hentries hnodup hmarked
  · change Plan.Agree _ _ _ (Pass.exportsPlan ctx (Fields.of ctx.manifest))
      (Pass.exportsPlan ctx' (Fields.of ctx'.manifest))
    rw [Pass.exportsPlan, Pass.exportsPlan, if_pos hset, if_pos hset']
    refine Plan.Agree.append ?_ ?_
    · exact h.agree_reorderedTree hctx hd hvalue hperm hkeys haims (congrArg ConditionTree.ofJson hvalue)
        (congrArg (fun field : Json × Location => ConditionTree.ofJson field.1) hpublished) rfl rfl
        hlocation (congrArg Prod.fst hbrowser) (congrArg Prod.snd hbrowser)
    · exact h.agree_reorderedDeclarations hf hlocation htree htree' hentries hnodup hmarked hfits
  · exact h.agree_importsPlan hd himports fun _ v _ _ => haims v

/-- Plans agree where the entries of `imports` are reordered. -/
theorem agree_reorderedImports (hfits : ∀ v, h.Fits v) (hfield : field = .imports) :
    (Pass.plan ctx).Agree (move id) tree tree' (Pass.plan ctx') := by
  subst hfield
  have hf := sameFields_reordered hctx
  have hexports : Manifest.SameField id ctx.manifest ctx'.manifest "exports" :=
    sameField_reordered hctx (by decide) (by decide)
  change (ctx.manifest.published "imports").1 = .obj fields at hvalue
  have hpublished : ctx'.manifest.published "imports"
      = (.obj fields', (ctx.manifest.published "imports").2) := by
    rw [hctx]
    exact Manifest.published_reordered hvalue hperm
  have hsame : (ctx'.manifest.published "exports").1 = (ctx.manifest.published "exports").1 := by
    rw [hexports.published]
  refine h.agree_plan hf (fun v _ => hfits v) hd (congrArg Json.isSet hsame)
    (congrArg Json.isNull hsame) (agree_missingRoot hf hexports) [] ?_ ?_
  · exact h.agree_sameExports hf (fun v _ => hfits v) hd hexports
      (Or.inl (by rw [hexports.published]; rfl)) fun _ v _ => haims v
  · simp only [Pass.importsPlan, Fields.of, hvalue, hpublished]
    refine Plan.agree_ite fun _ => ?_
    exact h.agree_reorderedTree hctx hd hvalue hperm hkeys haims (congrArg ConditionTree.ofJson hvalue)
      rfl rfl rfl rfl rfl rfl

/-- Plans agree where the entries of a condition tree are reordered. -/
theorem agree_reorderedPlan (hfits : ∀ v, h.Fits v) :
    (Pass.plan ctx).Agree (move id) tree tree' (Pass.plan ctx') := by
  cases hfield : field with
  | exports => exact h.agree_reorderedExports hctx hd hvalue hperm hkeys haims hfits hfield
  | imports => exact h.agree_reorderedImports hctx hd hvalue hperm hkeys haims hfits hfield

end Mirror

/-! ### Passes -/

namespace Pass

/-- The order of subpaths does not matter: where the entries of `exports` or `imports` are reordered, all
of which are subpaths, the passes before and after report the same up to the order. -/
theorem diagnostics_reordered {tree tree' : MemoryTree} (ht : tree.Reachable) {pkgDir : String}
    {manifest : Manifest} (hload : (Manifest.load pkgDir).result tree.toFileTree = .ok (.ok manifest))
    {field : EntryField} {fields fields' : Json.Fields}
    (hvalue : (manifest.published field.name).1 = .obj fields)
    (hkeys : ∀ key ∈ Assoc.keys fields, Text.hasStart key field.mark = true)
    (hperm : fields.Perm fields') {text : String}
    (hw : tree.write (Manifest.pathIn pkgDir) text = .ok tree')
    (htext : Manifest.ofText? text = some (manifest.republish field.name (.obj fields')))
    (options : Options) (workDir : String) :
    ∃ result result', run tree.toFileTree pkgDir options workDir = .ok result
      ∧ run tree'.toFileTree pkgDir options workDir = .ok result'
      ∧ result.diagnostics.Perm result'.diagnostics := by
  have hd := Manifest.distinctKeys_load hload
  have h := Manifest.rewrites_of_write ht hload hw htext
    (Manifest.declaresEsm_republish field.name_mem)
  have hplan := (h.mirror options workDir).agree_reorderedPlan rfl hd hvalue hperm hkeys
    (fun _ => trivial) fun _ => trivial
  obtain ⟨result, result', hrun, hrun', hdiagnostics⟩ := h.diagnostics_perm options workDir
    (Diagnostic.keepsSeverity_move id) [] (by simp) hplan
  rw [Diagnostic.map_move_id] at hdiagnostics
  exact ⟨result, result', hrun, hrun', hdiagnostics⟩

/-- A root entry and a subpath, both of which lead to files that are not there, in either order. -/
theorem diagnostics_reordered_root :
    ∃ (tree tree' : MemoryTree) (result result' : Result),
      MemoryTree.ofFiles
          [("/p/package.json",
            "\x7b\"exports\":\x7b\".\":\"./a.mjs\",\"./b\":\"./b.js\"\x7d\x7d")] = .ok tree
        ∧ MemoryTree.ofFiles
          [("/p/package.json",
            "\x7b\"exports\":\x7b\"./b\":\"./b.js\",\".\":\"./a.mjs\"\x7d\x7d")] = .ok tree'
        ∧ run tree.toFileTree "/p" = .ok result ∧ run tree'.toFileTree "/p" = .ok result'
        ∧ result.diagnostics.Perm result'.diagnostics := by
  let fields : Json.Fields := [(".", .str "./a.mjs"), ("./b", .str "./b.js")]
  let fields' : Json.Fields := [("./b", .str "./b.js"), (".", .str "./a.mjs")]
  let manifest : Manifest := [("exports", .obj fields)]
  let text := "\x7b\"exports\":\x7b\".\":\"./a.mjs\",\"./b\":\"./b.js\"\x7d\x7d"
  let text' := "\x7b\"exports\":\x7b\"./b\":\"./b.js\",\".\":\"./a.mjs\"\x7d\x7d"
  let dirs := [("/", ["p"]), ("/p", ["package.json"])]
  let tree : MemoryTree := { files := [("/p/package.json", text)], dirs }
  let tree' : MemoryTree := { files := [("/p/package.json", text')], dirs }
  have htree : MemoryTree.ofFiles [("/p/package.json", text)] = .ok tree := by cbv
  have htree' : MemoryTree.ofFiles [("/p/package.json", text')] = .ok tree' := by cbv
  have hload : (Manifest.load "/p").result tree.toFileTree = .ok (.ok manifest) := by cbv
  have hw : tree.write (Manifest.pathIn "/p") text' = .ok tree' := by rfl
  have htext : Manifest.ofText? text' = some (manifest.republish "exports" (.obj fields')) := by cbv
  have hexports : (manifest.published EntryField.exports.name).1 = .obj fields := rfl
  have hperm : fields.Perm fields' := List.Perm.swap _ _ _
  obtain ⟨result, result', hrun, hrun', hdiagnostics⟩ := diagnostics_reordered
    (MemoryTree.reachable_ofFiles htree) hload hexports (by decide) hperm hw htext {} "/"
  exact ⟨tree, tree', result, result', htree, htree', hrun, hrun', hdiagnostics⟩

end Pass

end PackageLint
