import PackageLint.Proofs.MirroredDeclarations
import PackageLint.Proofs.MirroredTargets
import PackageLint.Proofs.MissingFiles

/-!
# Plans of passes that mirror each other

The plan of a pass is made field by field. Where two manifests say the same in a field, at places that
are moved, the plans for it agree; so whole plans agree once those for `exports` and `imports` do, which
is settled on its own when the manifests differ there.

## Main definitions

* `Manifest.NamesValue` — the values that a manifest names files by
* `Manifest.SameFields` — manifests that say the same outside of `exports` and `imports`

## Main results

* `Mirror.agree_entryPlan` — the plan for a condition tree at a moved place
* `Mirror.agree_unsetExports`, `Mirror.agree_setExports`, `Mirror.agree_importsPlan` — the plans for
  `exports` and `imports` where their values are the same
* `Mirror.agree_plan`, `Mirror.agree_samePlan` — plans as a whole
-/

namespace PackageLint

open Diagnostic (move)
open Pass (Fields)

/-! ### What manifests say -/

namespace Manifest

/-- The values that a manifest names files by. -/
inductive NamesValue (manifest : Manifest) : String → Prop
  | file {p : Location} {v : String} (h : manifest.NamesFile p v) : NamesValue manifest v
  | declaration {name v : String} (hname : name ∈ EntryChecks.declarationFields)
      (h : (manifest.published name).1 = .str v) : NamesValue manifest v

/-- The fields that findings are about besides those that are published. -/
def fixedFields : List String := ["name", "dependencies", "repository"]

/-- The fields that a pass reads as they stand. -/
def plainFields : List String := ["files", "license", "dependencies", "type", "repository"]

/-- The published fields besides the two that hold trees. -/
def valueFields : List String :=
  ["main", "module", "browser", "bin", "typesVersions"] ++ EntryChecks.fileFields

/-- Two manifests publish one value for a field, the second at the moved place of the first. -/
structure SameField (m : Location → Location) (manifest manifest' : Manifest) (field : String) :
    Prop where
  published :
    manifest'.published field = ((manifest.published field).1, m (manifest.published field).2)
  carries : (manifest.published field).2.Carries m

/-- Two manifests say the same outside of `exports` and `imports`, the second at moved places. -/
structure SameFields (m : Location → Location) (manifest manifest' : Manifest) : Prop where
  fixed : ∀ key ∈ fixedFields, ∀ rest, m (key :: rest) = key :: rest
  plain : ∀ key ∈ plainFields, Assoc.get? key manifest' = Assoc.get? key manifest
  values : ∀ field ∈ valueFields, SameField m manifest manifest' field

namespace SameFields

variable {m : Location → Location} {manifest manifest' : Manifest}

theorem field (h : SameFields m manifest manifest') (key : String) (hkey : key ∈ plainFields) :
    Json.field manifest' key = Json.field manifest key := by
  rw [Json.field, Json.field, h.plain key hkey]

theorem published (h : SameFields m manifest manifest') (field : String)
    (hfield : field ∈ valueFields) :
    manifest'.published field = ((manifest.published field).1, m (manifest.published field).2) :=
  (h.values field hfield).published

theorem wholePackage (h : SameFields m manifest manifest') :
    m PackageChecks.wholePackage = PackageChecks.wholePackage := h.fixed "name" (by decide) []

end SameFields

end Manifest

open Manifest (SameFields)

/-! ### What the manifest alone shows -/

namespace RepositoryField

theorem move_of_mem {m : Location → Location} (hm : ∀ rest, m ("repository" :: rest) = "repository" :: rest)
    {manifest : Manifest} {d : Diagnostic} (h : d ∈ findings manifest) : d.move m = d := by
  have hinvalid {severity : Severity} {rest : Location} {args : Args}
      (hargs : args.map Prod.fst ⊆ ["type", "suggest_value"]) :
      (invalid severity ("repository" :: rest) args).move m
        = invalid severity ("repository" :: rest) args := by
    have hplain : ∀ name ∈ ["type", "suggest_value"], (!Diagnostic.placeArgs.contains name) = true := by
      decide
    rw [Diagnostic.move_of_plain (List.all_eq_true.mpr fun name hname => hplain name (hargs hname))]
    simp only [invalid, hm]
  cases isFound_of_mem h with
  | shorthand _ hargs | address _ _ hargs => exact hinvalid hargs
  | wrongType _ => rw [Mirror.move_wrongType, hm]

end RepositoryField

namespace Mirror

variable {tree tree' : FileTree} {ctx ctx' : Context} (h : Mirror tree tree' ctx ctx')
  {m : Location → Location}

section

variable (hf : SameFields m ctx.manifest ctx'.manifest)

include hf

omit h in
theorem agree_repositoryField :
    Plan.Agree (move m) tree tree' { findings := RepositoryField.findings ctx.manifest }
      { findings := RepositoryField.findings ctx'.manifest } := by
  have hsame : RepositoryField.findings ctx'.manifest = RepositoryField.findings ctx.manifest := by
    rw [RepositoryField.findings, RepositoryField.findings, hf.plain "repository" (by decide)]
  have hmap : (RepositoryField.findings ctx.manifest).map (move m)
      = RepositoryField.findings ctx.manifest :=
    (List.map_congr_left fun d hd =>
      RepositoryField.move_of_mem (hf.fixed "repository" (by decide)) hd).trans (List.map_id _)
  refine Plan.agree_of_findings ?_
  rw [hmap, hsame]

omit h in
theorem agree_localDependencies :
    (PackageChecks.localDependencies ctx).Agree (move m) tree tree'
      (PackageChecks.localDependencies ctx') := by
  rw [PackageChecks.localDependencies, PackageChecks.localDependencies,
    hf.field "dependencies" (by decide)]
  cases Json.field ctx.manifest "dependencies" with
  | obj fields =>
    refine Plan.agree_of_findings (.of_eq ?_)
    rw [List.map_map]
    refine List.map_congr_left fun field _ => ?_
    obtain ⟨name, version⟩ := field
    rw [Function.comp_apply, Diagnostic.move_of_plain rfl,
      hf.fixed "dependencies" (by decide) [name]]
  | _ => exact Plan.agree_empty

include h

omit h in
theorem areImplicit_eq
    (hnull : (Fields.of ctx'.manifest).exports.1.isNull = (Fields.of ctx.manifest).exports.1.isNull) :
    (Fields.of ctx'.manifest).areImplicit = (Fields.of ctx.manifest).areImplicit := by
  simp only [Fields.areImplicit, hnull]
  simp only [Fields.of, hf.published "main" (by decide), hf.published "module" (by decide)]

omit hf in
/-- The files that `main` and `module` name fit. -/
theorem fits_entry (hfits : ∀ v, ctx.manifest.NamesValue v → h.Fits v) {name v : String}
    (hname : name ∈ ["main", "module"]) (hv : (ctx.manifest.published name).1 = .str v) :
    h.Fits v := by
  refine hfits v (.file (.field (List.mem_append_left _ hname) ?_ (Prod.ext hv rfl)))
  intro hdeclaration
  fin_cases hname <;> exact absurd hdeclaration (by decide)

theorem agree_legacyPlan (hfits : ∀ v, ctx.manifest.NamesValue v → h.Fits v)
    (hset : (Fields.of ctx'.manifest).hasExports = (Fields.of ctx.manifest).hasExports)
    (hnull : (Fields.of ctx'.manifest).exports.1.isNull = (Fields.of ctx.manifest).exports.1.isNull)
    (hroot : (Pass.missingRoot (Fields.of ctx.manifest)).Agree (move m) tree tree'
      (Pass.missingRoot (Fields.of ctx'.manifest))) :
    (Pass.legacyPlan ctx (Fields.of ctx.manifest)).Agree (move m) tree tree'
      (Pass.legacyPlan ctx' (Fields.of ctx'.manifest)) := by
  have hmain := hf.published "main" (by decide)
  have hmodule := hf.published "module" (by decide)
  rw [Pass.legacyPlan, Pass.legacyPlan, areImplicit_eq hf hnull, hset, hnull]
  simp only [Fields.of, hmain, hmodule] at hroot ⊢
  refine Plan.Agree.append (Plan.Agree.append (Plan.Agree.append ?_ ?_) ?_) ?_
  · exact Plan.agree_ite fun _ => h.agree_implicitIndex hf.wholePackage
  · exact Plan.agree_else fun _ => h.agree_mainField (fun _ => h.fits_entry hfits (by decide)) _ _
  · exact Plan.agree_else fun _ => h.agree_moduleField (fun _ => h.fits_entry hfits (by decide)) _ _
  · exact Plan.agree_else fun _ => hroot

theorem agree_knownFields (hfits : ∀ v, ctx.manifest.NamesValue v → h.Fits v) :
    (EntryChecks.knownFields ctx).Agree (move m) tree tree' (EntryChecks.knownFields ctx') := by
  have hgiven : ∀ field ∈ Manifest.valueFields,
      EntryChecks.isGiven ctx field = EntryChecks.isGiven ctx' field := by
    intro field hfield
    rw [EntryChecks.isGiven, EntryChecks.isGiven, hf.published field hfield]
  have hknown : ∀ field ∈ EntryChecks.fileFields,
      (field ∈ EntryChecks.declarationFields →
        (ctx.manifest.published "typesVersions").1.truthy = false) →
      (EntryChecks.knownField ctx field).Agree (move m) tree tree'
        (EntryChecks.knownField ctx' field) := by
    intro field hfield hversions
    refine h.agree_knownField rfl (hf.published field (List.mem_append_right _ hfield)) ?_
      (hgiven "module" (by decide))
    intro v hv
    exact hfits v (.file (.field (List.mem_append_right _ hfield) hversions (Prod.ext hv rfl)))
  simp only [EntryChecks.knownFields, ← hgiven "typesVersions" (by decide)]
  split
  next =>
    refine Plan.agree_concat_map fun field hfield => ?_
    obtain ⟨hmem, hother⟩ := List.mem_filter.mp hfield
    refine hknown field hmem fun hdeclaration => absurd hother ?_
    simp [hdeclaration]
  next hversions =>
    exact Plan.agree_concat_map fun field hfield =>
      hknown field hfield fun _ => by simpa [EntryChecks.isGiven] using hversions

variable (hd : (Json.obj ctx.manifest).DistinctKeys)

include hd

theorem agree_browserPlan (hfits : ∀ v, ctx.manifest.NamesValue v → h.Fits v)
    (hset : (Fields.of ctx'.manifest).hasExports = (Fields.of ctx.manifest).hasExports) :
    (if (Fields.of ctx.manifest).browser.1.isSet then
        EntryChecks.browserField ctx (Fields.of ctx.manifest).browser.1
          (Fields.of ctx.manifest).browser.2 (Fields.of ctx.manifest).hasExports
      else {}).Agree (move m) tree tree'
      (if (Fields.of ctx'.manifest).browser.1.isSet then
        EntryChecks.browserField ctx' (Fields.of ctx'.manifest).browser.1
          (Fields.of ctx'.manifest).browser.2 (Fields.of ctx'.manifest).hasExports
      else {}) := by
  rw [hset]
  simp only [Fields.of, hf.published "browser" (by decide)]
  refine Plan.agree_ite fun hset => ?_
  refine h.agree_browserField (hf.values "browser" (by decide)).carries ?_ _
  rintro ⟨v, p⟩ hentry
  obtain ⟨q, rfl, hq⟩ := (EntryChecks.mem_nestedStrings (Manifest.distinctKeys_published hd "browser")).mp hentry
  exact hfits v (.file (.browser hset hq))

theorem agree_binPlan (hfits : ∀ v, ctx.manifest.NamesValue v → h.Fits v) :
    (if (Fields.of ctx.manifest).bin.1.isSet then
        EntryChecks.binField ctx (Fields.of ctx.manifest).bin.1 (Fields.of ctx.manifest).bin.2
      else {}).Agree (move m) tree tree'
      (if (Fields.of ctx'.manifest).bin.1.isSet then
        EntryChecks.binField ctx' (Fields.of ctx'.manifest).bin.1 (Fields.of ctx'.manifest).bin.2
      else {}) := by
  have hkeys := Manifest.distinctKeys_published hd "bin"
  simp only [Fields.of, hf.published "bin" (by decide)]
  refine Plan.agree_ite fun hset => ?_
  refine h.agree_binField (hf.values "bin" (by decide)).carries ?_ ?_
  · exact fun v hv => hfits v (.file (.command hset (Prod.ext hv rfl)))
  · intro fields hobj name v hmem
    rw [hobj] at hkeys
    exact hfits v (.file (.commandOf hobj (Assoc.get?_of_mem hkeys.1 hmem)))

end

end Mirror

/-! ### Root entries -/

/-- Whether a map is one of subpaths: its first key says so. -/
def ConditionTree.startsSubpaths (entries : List (String × ConditionTree)) : Bool :=
  entries.head?.any fun entry => Text.hasStart entry.1 "."

theorem Pass.missingRoot_of_map {fields : Fields} {entries : List (String × ConditionTree)}
    (h : ConditionTree.ofJson fields.exports.1 = .map entries) :
    missingRoot fields
      = if ConditionTree.startsSubpaths entries && !Assoc.hasKey "." entries then
          .finding
            { code := .exportsMissingRootEntrypoint, severity := .warning
              location := fields.exports.2
              args :=
                [("main_fields",
                  .strs ((if fields.main.1.truthy then ["main"] else [])
                    ++ (if fields.module.1.truthy then ["module"] else [])))] }
        else {} := by
  rw [missingRoot, h]
  cases entries <;> rfl

/-- The root entry of a map of subpaths has the key `.`. -/
theorem Declarations.root?_of_startsSubpaths {entries : List (String × ConditionTree)}
    (h : ConditionTree.startsSubpaths entries = true) (location : Location) :
    root? (.map entries) location
      = (Assoc.get? "." entries).map fun tree => { tree, location := location ++ ["."] } := by
  cases entries with
  | nil => exact absurd h (by simp [ConditionTree.startsSubpaths])
  | cons entry rest =>
    have hfirst : Text.hasStart entry.1 "." = true := by
      simpa [ConditionTree.startsSubpaths] using h
    rw [root?, if_pos hfirst]

/-! ### Condition trees at a moved place -/

namespace Manifest

/-- Following a place below a published field is following it in the value of the field. -/
theorem follow_published (manifest : Manifest) (field : String) (keys : Location) :
    (Json.obj manifest).follow ((manifest.published field).2 ++ keys)
      = (manifest.published field).1.follow keys := by
  rw [published]
  split
  next htruthy =>
    have hobj : Json.field manifest "publishConfig" = .obj manifest.overrides := by
      rw [overrides] at htruthy ⊢
      split at htruthy
      next fields hfields => rw [hfields]
      next => exact absurd htruthy (by simp [Json.field, Json.truthy])
    change ((Json.field manifest "publishConfig").follow (field :: keys)) = _
    rw [hobj]
    rfl
  next => rfl

/-- The fields that hold condition trees. -/
def treeFields : List String := ["exports", "imports"]

theorem starredLocation_published (manifest : Manifest) {field : String}
    (hfield : field ∈ treeFields) (keys : Location) :
    EntryTree.starredLocation ((manifest.published field).2 ++ keys)
      = (manifest.published field).2 ++ EntryTree.starredLocation keys := by
  have hstarred : EntryTree.starredLocation (manifest.published field).2
      = (manifest.published field).2 := by
    fin_cases hfield <;>
      rcases manifest.location_published _ with hlocation | hlocation <;> rw [hlocation] <;> decide
  rw [EntryTree.starredLocation, List.map_append]
  exact congrArg (· ++ _) hstarred

theorem not_mem_published (manifest : Manifest) {field key : String} (hfield : field ∈ treeFields)
    (hkey : key ∈ EntryTree.telling) : key ∉ (manifest.published field).2 := by
  have hall : ∀ field ∈ treeFields, ∀ key ∈ EntryTree.telling,
      key ∉ [field] ∧ key ∉ [overridesKey, field] := by decide
  obtain ⟨hown, hoverride⟩ := hall field hfield key hkey
  rcases manifest.location_published field with hlocation | hlocation <;> rw [hlocation]
  · exact hown
  · exact hoverride

/-- The place of `exports` names no condition. -/
theorem condition_not_mem_published (manifest : Manifest) {key : String}
    (hkey : key ∈ Declarations.knownConditions) : key ∉ (manifest.published "exports").2 := by
  have hall : ∀ key ∈ Declarations.knownConditions,
      key ∉ ["exports"] ∧ key ∉ [overridesKey, "exports"] := by decide
  obtain ⟨hown, hoverride⟩ := hall key hkey
  rcases manifest.location_published "exports" with hlocation | hlocation <;> rw [hlocation]
  · exact hown
  · exact hoverride

theorem needsHash_published (manifest manifest' : Manifest) (field : EntryField) (name : String) :
    Crawl.needsHash field (manifest.published name).2
      = Crawl.needsHash field (manifest'.published name).2 := by
  rw [Crawl.needsHash, Crawl.needsHash]
  rcases manifest.location_published name with hlocation | hlocation <;>
    rcases manifest'.location_published name with hlocation' | hlocation' <;>
      rw [hlocation, hlocation'] <;> rfl

variable {m : Location → Location} {manifest manifest' : Manifest} {field : String}

theorem SameField.sameStar (h : SameField m manifest manifest' field) (hfield : field ∈ treeFields)
    (keys : Location) : Mirror.SameStar m manifest manifest' ((manifest.published field).2 ++ keys) where
  move_starred := by
    have hlocation : m (manifest.published field).2 = (manifest'.published field).2 := by
      rw [h.published]
    rw [manifest.starredLocation_published hfield, h.carries, h.carries, hlocation,
      manifest'.starredLocation_published hfield]
  follow := by
    have hlocation : m (manifest.published field).2 = (manifest'.published field).2 := by
      rw [h.published]
    have hvalue : (manifest'.published field).1 = (manifest.published field).1 := by
      rw [h.published]
    rw [h.carries, hlocation, manifest.starredLocation_published hfield,
      manifest'.starredLocation_published hfield, follow_published, follow_published, hvalue]

theorem SameField.samePlace (h : SameField m manifest manifest' field) (hfield : field ∈ treeFields)
    {entry entry' : EntryTree} (hlocation : entry.location = (manifest.published field).2)
    (hlocation' : entry'.location = (manifest'.published field).2)
    (htree : entry'.tree = entry.tree) (hname : entry'.field = entry.field) (hbrowser : entry'.browser = entry.browser)
    (hplace : entry.field = .exports → ∀ value,
      m (entry.browserLocation ++ [value]) = entry'.browserLocation ++ [value])
    (keys : Location) :
    EntryTree.SamePlace m entry entry' ((manifest.published field).2 ++ keys) where
  field := hname
  contains key hkey := by
    have hmoved : m (manifest.published field).2 = (manifest'.published field).2 := by
      rw [h.published]
    rw [h.carries, hmoved, Bool.eq_iff_iff, List.contains_iff_mem, List.contains_iff_mem,
      List.mem_append, List.mem_append]
    simp only [manifest.not_mem_published hfield hkey, manifest'.not_mem_published hfield hkey,
      false_or]
  hides ctx ctx' value capture := by
    have hmoved : m (manifest.published field).2 = (manifest'.published field).2 := by
      rw [h.published]
    have hkey : entry'.entryKey (m ((manifest.published field).2 ++ keys))
        = entry.entryKey ((manifest.published field).2 ++ keys) := by
      rw [EntryTree.entryKey, EntryTree.entryKey, hlocation, hlocation', h.carries, hmoved,
        List.getElem?_append_right le_rfl, List.getElem?_append_right le_rfl, Nat.sub_self,
        Nat.sub_self]
    have hnull : ∀ pattern, pattern ∈ Subpath.Search.nullKeys entry'.tree
        ↔ pattern ∈ Subpath.Search.nullKeys entry.tree := fun pattern => by rw [htree]
    exact (congrFun (Subpath.Search.hides_congr hkey rfl rfl hnull) capture).symm
  browser := hbrowser
  browserLocation := hplace

end Manifest

namespace Mirror

variable {tree tree' : FileTree} {ctx ctx' : Context} (h : Mirror tree tree' ctx ctx')
  {m : Location → Location}

include h

/-- The plan for one condition tree at two places, one of them moved to the other. -/
theorem agree_entryPlan {field : String}
    (hs : Manifest.SameField m ctx.manifest ctx'.manifest field)
    (hfield : field ∈ Manifest.treeFields) {entry entry' : EntryTree}
    (hlocation : entry.location = (ctx.manifest.published field).2)
    (hlocation' : entry'.location = (ctx'.manifest.published field).2)
    (htree : entry'.tree = entry.tree) (hname : entry'.field = entry.field)
    (hbrowser : entry'.browser = entry.browser)
    (hplace : entry.field = .exports → ∀ value,
      m (entry.browserLocation ++ [value]) = entry'.browserLocation ++ [value])
    (hd : entry.tree.DistinctKeys)
    (haims : ∀ t ∈ Crawl.targets entry.field entry.location entry.tree,
      (entry.field = .imports → Text.hasStart t.value "." = true) → h.Aims t.value) :
    (entry.plan ctx).Agree (move m) tree tree' (entry'.plan ctx') := by
  have hmoved : entry'.location = m entry.location := by rw [hlocation, hlocation', hs.published]
  have hcarries : entry.location.Carries m := by
    rw [hlocation]
    exact hs.carries
  have hhash : Crawl.needsHash entry.field (m entry.location)
      = Crawl.needsHash entry.field entry.location := by
    rw [← hmoved, hlocation, hlocation']
    exact Manifest.needsHash_published _ _ _ _
  refine Plan.agree_mk (.of_eq ?_) (.of_eq ?_)
  · change (Crawl.findings entry.field entry.location entry.tree).map (move m)
      = Crawl.findings entry'.field entry'.location entry'.tree
    rw [hname, hmoved, htree, Crawl.findings_move hcarries hhash]
  · change (((Crawl.targets entry.field entry.location entry.tree).map (entry.task ctx)).flatMap
        (Task.findings tree)).map (move m)
      = ((Crawl.targets entry'.field entry'.location entry'.tree).map (entry'.task ctx')).flatMap
        (Task.findings tree')
    rw [hname, hmoved, htree, Crawl.targets_move hcarries hhash, List.map_map]
    refine (flatMap_eq_map_of_forall₂ ?_).symm
    rw [List.forall₂_map_left_iff, List.forall₂_map_right_iff, List.forall₂_same]
    intro t ht
    obtain ⟨place, hplaceEq, -, -⟩ := (Crawl.mem_targets hd).mp ht
    rw [hlocation] at hplaceEq
    have hsame := hs.samePlace hfield hlocation hlocation' htree hname hbrowser hplace place
    have hstar := hs.sameStar hfield place
    rw [← hplaceEq] at hsame hstar
    exact h.agree_task hsame rfl rfl rfl hstar (haims t ht)

/-! ### `exports` and `imports` -/

omit h in
/-- The root entry of `exports` at two places, one of them moved to the other. -/
theorem sameRoot_published (hs : Manifest.SameField m ctx.manifest ctx'.manifest "exports")
    (hshort : (ctx.manifest.published "exports").2 = (ctx'.manifest.published "exports").2
      ∨ (ctx.manifest.published "exports").2
        = overridesKey :: (ctx'.manifest.published "exports").2)
    {exports : ConditionTree} (hd : exports.DistinctKeys) :
    Option.Rel (Declarations.SameRoot m)
      (Declarations.root? exports (ctx.manifest.published "exports").2)
      (Declarations.root? exports (ctx'.manifest.published "exports").2) := by
  have hmoved : m (ctx.manifest.published "exports").2 = (ctx'.manifest.published "exports").2 := by
    rw [hs.published]
  have hcarries : ∀ keys, m ((ctx.manifest.published "exports").2 ++ keys)
      = (ctx'.manifest.published "exports").2 ++ keys := by
    intro keys
    rw [hs.carries, hmoved]
  have hplain : ∀ key ∈ Declarations.knownConditions, key ∉ (ctx.manifest.published "exports").2
      ∧ key ∉ (ctx'.manifest.published "exports").2 := fun key hkey =>
    ⟨ctx.manifest.condition_not_mem_published hkey, ctx'.manifest.condition_not_mem_published hkey⟩
  have hapart : ∃ start : String, ∀ keys,
      Text.join "." ((ctx.manifest.published "exports").2 ++ keys)
        = start ++ Text.join "." ((ctx'.manifest.published "exports").2 ++ keys) := by
    rcases hshort with hsame | hlonger
    · exact ⟨"", fun keys => by rw [hsame, String.empty_append]⟩
    · refine ⟨overridesKey ++ ".", fun keys => ?_⟩
      rw [hlonger, List.cons_append, Declarations.join_cons]
      rcases ctx'.manifest.location_published "exports" with hl | hl <;> simp [hl]
  rw [← hmoved, Declarations.root?_move hs.carries]
  cases hroot : Declarations.root? exports (ctx.manifest.published "exports").2 with
  | none => exact .none
  | some root =>
    obtain ⟨keys, hkeys, -, hdistinct⟩ := Declarations.root?_eq_some hd hroot
    exact .some (Declarations.sameRoot_move hcarries ⟨keys, hkeys⟩ hdistinct hplain hapart)

omit h in
/-- A root entry resolves to targets of the manifest. -/
theorem aims_of_resolve (hd : (Json.obj ctx.manifest).DistinctKeys)
    (hset : (ctx.manifest.published "exports").1.isSet = true) {root : Declarations.Root}
    (hroot : root ∈ Declarations.root? (ConditionTree.ofJson (ctx.manifest.published "exports").1)
      (ctx.manifest.published "exports").2)
    {conditions : List String} {found : ConditionTree.Resolved}
    (hfound : root.resolve conditions = some found) :
    ∃ p, ctx.manifest.Aims .exports p found.target := by
  have htree := ConditionTree.distinctKeys_ofJson (Manifest.distinctKeys_published hd "exports")
  obtain ⟨place, -, hleaf⟩ := Declarations.leaf_of_resolve htree hroot hfound
  exact ⟨_, .exports hset hleaf⟩

section

variable (hf : SameFields m ctx.manifest ctx'.manifest)

include hf

omit h in
theorem givenString_eq {field : String} (hfield : field ∈ EntryChecks.declarationFields) :
    Declarations.givenString ctx' field = Declarations.givenString ctx field := by
  have hmem : field ∈ Manifest.valueFields := by fin_cases hfield <;> decide
  rw [Declarations.givenString, Declarations.givenString, hf.published field hmem]

theorem fits_givenString (hfits : ∀ v, ctx.manifest.NamesValue v → h.Fits v) :
    ∀ field ∈ EntryChecks.declarationFields,
      Declarations.givenString ctx' field = Declarations.givenString ctx field
        ∧ ∀ value, Declarations.givenString ctx field = some value → h.Fits value := by
  intro field hfield
  refine ⟨givenString_eq hf hfield, fun value hvalue => ?_⟩
  rw [Declarations.givenString] at hvalue
  split at hvalue
  next s hs =>
    split at hvalue
    · exact absurd hvalue (by simp)
    · obtain rfl := Option.some.inj hvalue
      exact hfits _ (.declaration hfield hs)
  next => exact absurd hvalue (by simp)

/-- The scan of all files, where `exports` is not set. -/
theorem agree_unsetExports (hfits : ∀ v, ctx.manifest.NamesValue v → h.Fits v)
    (hnull : (Fields.of ctx'.manifest).exports.1.isNull = (Fields.of ctx.manifest).exports.1.isNull)
    (hset : (Fields.of ctx.manifest).hasExports = false)
    (hset' : (Fields.of ctx'.manifest).hasExports = false) :
    (Pass.exportsPlan ctx (Fields.of ctx.manifest)).Agree (move m) tree tree'
      (Pass.exportsPlan ctx' (Fields.of ctx'.manifest)) := by
  have hmain := hf.published "main" (by decide)
  have hmodule := hf.published "module" (by decide)
  have hlegacy : ∀ name ∈ ["main", "module"], ∀ {p p'}, h.Within p p' →
      (p ∈ EntryChecks.legacyCandidates ctx (ctx.manifest.published name).1
        ↔ p' ∈ EntryChecks.legacyCandidates ctx' (ctx.manifest.published name).1) := by
    intro name hname p p' hp
    cases hvalue : (ctx.manifest.published name).1 with
    | str value => exact h.isCandidate hp (h.fits_entry hfits hname hvalue)
    | _ => exact iff_of_false List.not_mem_nil List.not_mem_nil
  rw [Pass.exportsPlan, Pass.exportsPlan, hset, hset']
  refine h.agree_scan hf.wholePackage fun {p p'} hp => ?_
  rw [Pass.checkedPaths, Pass.checkedPaths, areImplicit_eq hf hnull]
  generalize (Fields.of ctx.manifest).areImplicit = implicit
  simp only [Fields.of, hmain, hmodule, List.mem_append]
  refine or_congr (or_congr ?_ (hlegacy "main" (by decide) hp)) (hlegacy "module" (by decide) hp)
  cases implicit with
  | true => simpa using h.isIndex hp
  | false => exact iff_of_false List.not_mem_nil List.not_mem_nil

/-- The plan for `exports`, where both manifests say the same. -/
theorem agree_setExports (hfits : ∀ v, ctx.manifest.NamesValue v → h.Fits v)
    (hd : (Json.obj ctx.manifest).DistinctKeys)
    (hs : Manifest.SameField m ctx.manifest ctx'.manifest "exports")
    (hshort : (ctx.manifest.published "exports").2 = (ctx'.manifest.published "exports").2
      ∨ (ctx.manifest.published "exports").2
        = overridesKey :: (ctx'.manifest.published "exports").2)
    (haims : ∀ p v, ctx.manifest.Aims .exports p v → h.Aims v)
    (hset : (Fields.of ctx.manifest).hasExports = true) :
    (Pass.exportsPlan ctx (Fields.of ctx.manifest)).Agree (move m) tree tree'
      (Pass.exportsPlan ctx' (Fields.of ctx'.manifest)) := by
  have hvalue : (ctx'.manifest.published "exports").1 = (ctx.manifest.published "exports").1 := by
    rw [hs.published]
  have hset' : (Fields.of ctx'.manifest).hasExports = true := by
    rw [← hset, Fields.hasExports, Fields.hasExports]
    exact congrArg Json.isSet hvalue
  have hbrowser := hf.values "browser" (by decide)
  have htree := ConditionTree.distinctKeys_ofJson (Manifest.distinctKeys_published hd "exports")
  rw [Pass.exportsPlan, Pass.exportsPlan, hset, hset']
  refine Plan.Agree.append ?_ ?_
  · refine h.agree_entryPlan hs (by decide) rfl rfl (congrArg ConditionTree.ofJson hvalue) rfl
      (by simp only [Pass.exportsEntry, Fields.of, hbrowser.published]) ?_ htree ?_
    · intro _ value
      simp only [Pass.exportsEntry, Fields.of, hbrowser.published]
      exact hbrowser.carries [value]
    · intro t ht _
      obtain ⟨place, -, hat, -⟩ := (Crawl.mem_targets htree).mp ht
      exact haims _ _ (.exports hset hat)
  · simp only [Fields.of, hvalue]
    refine h.agree_declarations (sameRoot_published hs hshort htree) ?_ (h.fits_givenString hf hfits)
    intro root hroot conditions found hfound
    obtain ⟨p, hp⟩ := aims_of_resolve hd hset hroot hfound
    exact h.fits_of_aims (haims p _ hp)

omit hf in
/-- The plan for `imports`, where both manifests say the same. -/
theorem agree_importsPlan (hd : (Json.obj ctx.manifest).DistinctKeys)
    (hs : Manifest.SameField m ctx.manifest ctx'.manifest "imports")
    (haims : ∀ p v, ctx.manifest.Aims .imports p v → Text.hasStart v "." = true → h.Aims v) :
    (Pass.importsPlan ctx (Fields.of ctx.manifest)).Agree (move m) tree tree'
      (Pass.importsPlan ctx' (Fields.of ctx'.manifest)) := by
  have hvalue : (ctx'.manifest.published "imports").1 = (ctx.manifest.published "imports").1 := by
    rw [hs.published]
  have hlocation : (ctx'.manifest.published "imports").2
      = m (ctx.manifest.published "imports").2 := by
    rw [hs.published]
  have htree := ConditionTree.distinctKeys_ofJson (Manifest.distinctKeys_published hd "imports")
  simp only [Pass.importsPlan, Fields.of, hvalue]
  refine Plan.agree_ite fun _ => ?_
  cases hobj : (ctx.manifest.published "imports").1 with
  | obj fields =>
    refine h.agree_entryPlan hs (by decide) rfl rfl (congrArg ConditionTree.ofJson hvalue) rfl rfl
      (fun hexports => absurd hexports (by simp [Pass.importsEntry])) htree ?_
    intro t ht hstart
    obtain ⟨place, -, hat, -⟩ := (Crawl.mem_targets htree).mp ht
    exact haims _ _ (.imports hobj hat) (hstart rfl)
  | _ =>
    refine Plan.agree_finding ?_
    rw [move_wrongType, hlocation]

/-! ### Whole plans -/

omit h hf in
/-- The finding that there is no root entry, where both trees have subpaths and a root entry or not. -/
theorem agree_missingRoot_of_map (hf : SameFields m ctx.manifest ctx'.manifest)
    (hlocation : (ctx'.manifest.published "exports").2 = m (ctx.manifest.published "exports").2)
    {entries entries' : List (String × ConditionTree)}
    (htree : ConditionTree.ofJson (ctx.manifest.published "exports").1 = .map entries)
    (htree' : ConditionTree.ofJson (ctx'.manifest.published "exports").1 = .map entries')
    (hsubpaths : ConditionTree.startsSubpaths entries' = ConditionTree.startsSubpaths entries)
    (hroot : Assoc.hasKey "." entries' = Assoc.hasKey "." entries) :
    (Pass.missingRoot (Fields.of ctx.manifest)).Agree (move m) tree tree'
      (Pass.missingRoot (Fields.of ctx'.manifest)) := by
  rw [Pass.missingRoot_of_map htree, Pass.missingRoot_of_map htree', hsubpaths, hroot]
  refine Plan.agree_ite fun _ => Plan.agree_finding ?_
  rw [Diagnostic.move_of_plain rfl]
  simp only [Fields.of, hlocation, hf.published "main" (by decide),
    hf.published "module" (by decide)]
  rfl

omit h hf in
/-- The finding that there is no root entry, where both manifests say the same. -/
theorem agree_missingRoot (hf : SameFields m ctx.manifest ctx'.manifest)
    (hs : Manifest.SameField m ctx.manifest ctx'.manifest "exports") :
    (Pass.missingRoot (Fields.of ctx.manifest)).Agree (move m) tree tree'
      (Pass.missingRoot (Fields.of ctx'.manifest)) := by
  have hvalue : (ctx'.manifest.published "exports").1 = (ctx.manifest.published "exports").1 := by
    rw [hs.published]
  have hlocation : (ctx'.manifest.published "exports").2
      = m (ctx.manifest.published "exports").2 := by
    rw [hs.published]
  cases htree : ConditionTree.ofJson (ctx.manifest.published "exports").1 with
  | map entries =>
    exact agree_missingRoot_of_map hf hlocation htree (hvalue ▸ htree) rfl rfl
  | _ =>
    simp only [Pass.missingRoot, Fields.of, hvalue, htree]
    exact Plan.agree_empty

/-- Plans agree once those for `exports` and `imports` do, where one of them may have findings about
`exports` besides. -/
theorem agree_plan (hfits : ∀ v, ctx.manifest.NamesValue v → h.Fits v)
    (hd : (Json.obj ctx.manifest).DistinctKeys)
    (hset : (Fields.of ctx'.manifest).hasExports = (Fields.of ctx.manifest).hasExports)
    (hnull : (Fields.of ctx'.manifest).exports.1.isNull = (Fields.of ctx.manifest).exports.1.isNull)
    (hroot : (Pass.missingRoot (Fields.of ctx.manifest)).Agree (move m) tree tree'
      (Pass.missingRoot (Fields.of ctx'.manifest))) (extra : List Diagnostic)
    (hexports : (Pass.exportsPlan ctx (Fields.of ctx.manifest)).Agree (move m) tree tree'
      ({ findings := extra } ++ Pass.exportsPlan ctx' (Fields.of ctx'.manifest)))
    (himports : (Pass.importsPlan ctx (Fields.of ctx.manifest)).Agree (move m) tree tree'
      (Pass.importsPlan ctx' (Fields.of ctx'.manifest))) :
    (Pass.plan ctx).Agree (move m) tree tree' ({ findings := extra } ++ Pass.plan ctx') := by
  have hfield : ∀ key ∈ Manifest.plainFields, (Json.field ctx.manifest key).isNull
      = (Json.field ctx'.manifest key).isNull := fun key hkey => by rw [hf.field key hkey]
  have hfiles := h.agree_filesField (m := m) hf.wholePackage (hfield "files" (by decide))
  have hlicense := h.agree_licenseField (m := m) hf.wholePackage (hfield "license" (by decide))
  have hdependencies : (PackageChecks.localDependencies ctx).Agree (move m) tree tree'
      (PackageChecks.localDependencies ctx') := agree_localDependencies hf
  have htype : (PackageChecks.typeField ctx).Agree (move m) tree tree'
      (PackageChecks.typeField ctx') := agree_typeField hf.wholePackage (hfield "type" (by decide))
  have hlegacy := h.agree_legacyPlan hf hfits hset hnull hroot
  have hrepository : Plan.Agree (move m) tree tree'
      { findings := RepositoryField.findings ctx.manifest }
      { findings := RepositoryField.findings ctx'.manifest } := agree_repositoryField hf
  have hknown := h.agree_knownFields hf hfits
  have hbrowser := h.agree_browserPlan hf hd hfits hset
  have hbin := h.agree_binPlan hf hd hfits
  have hall := Plan.agree_concat (.cons hfiles (.cons hlicense (.cons hdependencies (.cons htype
    (.cons hlegacy (.cons hrepository (.cons hknown (.cons hbrowser (.cons hexports (.cons hbin
      (.cons himports .nil)))))))))))
  exact List.Perm.trans hall
    (Plan.reported_concat_besides tree' [_, _, _, _, _, _, _, _] [_, _] { findings := extra } _)

/-- The plan for `exports`, or for all files, where both manifests say the same. -/
theorem agree_sameExports (hfits : ∀ v, ctx.manifest.NamesValue v → h.Fits v)
    (hd : (Json.obj ctx.manifest).DistinctKeys)
    (hs : Manifest.SameField m ctx.manifest ctx'.manifest "exports")
    (hshort : (ctx.manifest.published "exports").2 = (ctx'.manifest.published "exports").2
      ∨ (ctx.manifest.published "exports").2
        = overridesKey :: (ctx'.manifest.published "exports").2)
    (haims : ∀ p v, ctx.manifest.Aims .exports p v → h.Aims v) :
    (Pass.exportsPlan ctx (Fields.of ctx.manifest)).Agree (move m) tree tree'
      (Pass.exportsPlan ctx' (Fields.of ctx'.manifest)) := by
  have hvalue : (ctx'.manifest.published "exports").1 = (ctx.manifest.published "exports").1 := by
    rw [hs.published]
  have hset : (Fields.of ctx'.manifest).hasExports = (Fields.of ctx.manifest).hasExports :=
    congrArg Json.isSet hvalue
  cases hgiven : (Fields.of ctx.manifest).hasExports with
  | true => exact h.agree_setExports hf hfits hd hs hshort haims hgiven
  | false =>
    exact h.agree_unsetExports hf hfits (congrArg Json.isNull hvalue) hgiven (hset.trans hgiven)

/-- Plans agree where both manifests say the same in every field. -/
theorem agree_samePlan (hfits : ∀ v, ctx.manifest.NamesValue v → h.Fits v)
    (hd : (Json.obj ctx.manifest).DistinctKeys)
    (hs : ∀ field ∈ Manifest.treeFields, Manifest.SameField m ctx.manifest ctx'.manifest field)
    (hshort : (ctx.manifest.published "exports").2 = (ctx'.manifest.published "exports").2
      ∨ (ctx.manifest.published "exports").2
        = overridesKey :: (ctx'.manifest.published "exports").2)
    (haims : ∀ field p v, ctx.manifest.Aims field p v →
      (field = .imports → Text.hasStart v "." = true) → h.Aims v) :
    (Pass.plan ctx).Agree (move m) tree tree' (Pass.plan ctx') := by
  have hexports := hs "exports" (by decide)
  have hvalue : (ctx'.manifest.published "exports").1 = (ctx.manifest.published "exports").1 := by
    rw [hexports.published]
  have hplan := h.agree_sameExports hf hfits hd hexports hshort fun p v hv =>
    haims .exports p v hv fun himports => absurd himports (by decide)
  have himports := h.agree_importsPlan hd (hs "imports" (by decide))
    fun p v hv hstart => haims .imports p v hv fun _ => hstart
  exact h.agree_plan hf hfits hd (congrArg Json.isSet hvalue) (congrArg Json.isNull hvalue)
    (agree_missingRoot hf hexports) [] hplan himports

end

end Mirror

end PackageLint
