import PackageLint.Proofs.RewrittenManifests

/-!
# Overrides for publishing are transparent

An override that counts may as well be given as the field itself. Every check then sees the same value
one key higher, so the pass reports the same at places, and with places among its arguments, that lack
the key of the overrides.

Nothing else may refer to the place: what a check tells from the keys on the way to a target, and from
the number of these keys, does not change with the key in front.

## Main definitions

* `Manifest.hoist` — an override is given as the field itself
* `Manifest.hoistPlace` — what becomes of the places at and below the override

## Main results

* `Pass.diagnostics_hoisted` — the passes before and after report the same at these places
-/

namespace PackageLint

/-! ### Removal from association lists -/

namespace Assoc

variable {α : Type} {key other : String} {entries : Assoc α}

theorem get?_erase_self (h : (keys entries).Nodup) : get? key (erase key entries) = none := by
  induction entries with
  | nil => rfl
  | cons entry rest ih =>
    obtain ⟨k, v⟩ := entry
    obtain ⟨hk, hrest⟩ := List.nodup_cons.mp h
    rw [erase]
    split
    next heq =>
      have hkey : hasKey key rest = false :=
        Bool.eq_false_iff.mpr fun hkey => hk (heq ▸ hasKey_iff_mem.mp hkey)
      rwa [hasKey, Option.isSome_eq_false_iff, Option.isNone_iff_eq_none] at hkey
    next hne => rw [get?, if_neg hne, ih hrest]

theorem get?_erase_of_ne (h : other ≠ key) (entries : Assoc α) :
    get? other (erase key entries) = get? other entries := by
  induction entries with
  | nil => rfl
  | cons entry rest ih =>
    obtain ⟨k, v⟩ := entry
    rw [erase]
    split
    next heq => rw [get?, if_neg fun hother => h (hother.symm.trans heq)]
    next => rw [get?, get?, ih]

end Assoc

/-! ### Hoisting -/

namespace Manifest

/-- The manifest with an override given as the field itself. -/
def hoist (field : String) (value : Json) (manifest : Manifest) : Manifest :=
  Assoc.put field value
    (Assoc.put overridesKey (.obj (Assoc.erase field manifest.overrides)) manifest)

/-- What becomes of the places at and below an override that is hoisted. -/
def hoistPlace (field : String) (p : Location) : Location :=
  if p.take 2 = [overridesKey, field] then p.drop 1 else p

/-- The fields that are published. -/
def publishedFields : List String := valueFields ++ treeFields

variable {field key : String} {value : Json} {manifest : Manifest}

theorem hoistPlace_of_ne (h : key ≠ overridesKey) (rest : Location) :
    hoistPlace field (key :: rest) = key :: rest := by
  rw [hoistPlace, if_neg]
  intro heq
  exact h (List.cons.inj heq).1

theorem hoistPlace_override (rest : Location) :
    hoistPlace field (overridesKey :: field :: rest) = field :: rest := by
  have hstart : (overridesKey :: field :: rest).take 2 = [overridesKey, field] := rfl
  rw [hoistPlace, if_pos hstart, List.drop_one, List.tail_cons]

theorem hoistPlace_other (h : key ≠ field) (rest : Location) :
    hoistPlace field (overridesKey :: key :: rest) = overridesKey :: key :: rest := by
  rw [hoistPlace, if_neg]
  intro heq
  exact h (List.cons.inj (List.cons.inj heq).2).1

theorem get?_hoist_of_ne (hfield : key ≠ field) (hkey : key ≠ overridesKey) :
    Assoc.get? key (manifest.hoist field value) = Assoc.get? key manifest := by
  rw [hoist, Assoc.get?_put_of_ne hfield, Assoc.get?_put_of_ne hkey]

theorem overrides_hoist (hfield : field ≠ overridesKey) :
    (manifest.hoist field value).overrides = Assoc.erase field manifest.overrides := by
  have hobj : Json.field (manifest.hoist field value) "publishConfig"
      = .obj (Assoc.erase field manifest.overrides) := by
    change (Assoc.get? overridesKey (manifest.hoist field value)).getD .null = _
    rw [hoist, Assoc.get?_put_of_ne (Ne.symm hfield), Assoc.get?_put_self, Option.getD_some]
  rw [overrides, hobj]

/-- What overrides a field gives no key twice. -/
theorem nodup_overrides (hd : (Json.obj manifest).DistinctKeys) :
    (Assoc.keys manifest.overrides).Nodup := by
  rw [overrides]
  cases hobj : Json.field manifest "publishConfig" with
  | obj fields =>
    have hfields : (Json.obj fields).DistinctKeys := hobj ▸ hd.field "publishConfig"
    exact hfields.1
  | _ => exact List.nodup_nil

/-- The hoisted field has the same value, without the key of the overrides. -/
theorem published_hoist_self (hd : (Json.obj manifest).DistinctKeys) (hfield : field ≠ overridesKey) :
    (manifest.hoist field value).published field = (value, [field]) := by
  have hnone : Json.field (manifest.hoist field value).overrides field = .null := by
    rw [overrides_hoist hfield, Json.field, Assoc.get?_erase_self (nodup_overrides hd),
      Option.getD_none]
  have hself : Json.field (manifest.hoist field value) field = value := by
    rw [Json.field, hoist, Assoc.get?_put_self, Option.getD_some]
  rw [published, hnone, hself]
  rfl

/-- The other fields stay as they are. -/
theorem published_hoist_of_ne (hfield : field ≠ overridesKey) (hne : key ≠ field)
    (hkey : key ≠ overridesKey) :
    (manifest.hoist field value).published key = manifest.published key := by
  have hoverride : Json.field (manifest.hoist field value).overrides key
      = Json.field manifest.overrides key := by
    rw [overrides_hoist hfield, Json.field, Json.field, Assoc.get?_erase_of_ne hne]
  have hown : Json.field (manifest.hoist field value) key = Json.field manifest key := by
    rw [Json.field, Json.field, get?_hoist_of_ne hne hkey]
  rw [published, published, hoverride, hown]

/-- An override that counts is published. -/
theorem published_of_override (hvalue : Assoc.get? field manifest.overrides = some value)
    (htruthy : value.truthy = true) :
    manifest.published field = (value, [overridesKey, field]) := by
  have hfield : Json.field manifest.overrides field = value := by
    rw [Json.field, hvalue, Option.getD_some]
  rw [published, hfield, if_pos htruthy]
  rfl

theorem ne_overridesKey_of_mem (h : field ∈ publishedFields) : field ≠ overridesKey := by
  have hall : ∀ field ∈ publishedFields, field ≠ overridesKey := by decide
  exact hall field h

/-- Every field is published with the same value, at the place without the key of the overrides. -/
theorem sameField_hoist (hd : (Json.obj manifest).DistinctKeys) (hfield : field ∈ publishedFields)
    (hvalue : Assoc.get? field manifest.overrides = some value) (htruthy : value.truthy = true)
    (hkey : key ∈ publishedFields) :
    SameField (hoistPlace field) manifest (manifest.hoist field value) key := by
  have hself := ne_overridesKey_of_mem hfield
  have hother := ne_overridesKey_of_mem hkey
  by_cases hne : key = field
  · subst hne
    have hpublished := published_of_override hvalue htruthy
    refine ⟨?_, fun keys => ?_⟩
    · rw [published_hoist_self hd hself, hpublished, hoistPlace_override]
    · rw [hpublished, List.cons_append, List.cons_append, List.nil_append, hoistPlace_override,
        hoistPlace_override]
      rfl
  · have hplace : ∀ keys, hoistPlace field ((manifest.published key).2 ++ keys)
        = (manifest.published key).2 ++ keys := by
      intro keys
      rcases manifest.location_published key with hl | hl <;> rw [hl]
      · exact hoistPlace_of_ne hother keys
      · exact hoistPlace_other hne keys
    have hroot := hplace []
    rw [List.append_nil] at hroot
    refine ⟨?_, fun keys => ?_⟩
    · rw [published_hoist_of_ne hself hne hother, hroot]
    · rw [hplace, hroot]

/-- Nothing else of the manifest changes that a pass reads. -/
theorem sameFields_hoist (hd : (Json.obj manifest).DistinctKeys) (hfield : field ∈ publishedFields)
    (hvalue : Assoc.get? field manifest.overrides = some value) (htruthy : value.truthy = true) :
    SameFields (hoistPlace field) manifest (manifest.hoist field value) where
  fixed key hkey rest := by
    have hall : ∀ key ∈ fixedFields, key ≠ overridesKey := by decide
    exact hoistPlace_of_ne (hall key hkey) rest
  plain key hkey := by
    have hall : ∀ key ∈ plainFields, key ∉ publishedFields ∧ key ≠ overridesKey := by decide
    obtain ⟨hnot, hne⟩ := hall key hkey
    exact get?_hoist_of_ne (fun heq => hnot (heq ▸ hfield)) hne
  values key hkey :=
    sameField_hoist hd hfield hvalue htruthy (List.mem_append_left treeFields hkey)

end Manifest

/-! ### Passes -/

namespace Pass

/-- An override that counts may as well be given as the field itself: the passes report the same up to
the order, in places and with places among their arguments that lack the key of the overrides. -/
theorem diagnostics_hoisted {tree tree' : MemoryTree} (ht : tree.Reachable) {pkgDir : String}
    {manifest : Manifest} (hload : (Manifest.load pkgDir).result tree.toFileTree = .ok (.ok manifest))
    {field : String} (hfield : field ∈ Manifest.publishedFields) {value : Json}
    (hvalue : Assoc.get? field manifest.overrides = some value) (htruthy : value.truthy = true)
    {text : String} (hw : tree.write (Manifest.pathIn pkgDir) text = .ok tree')
    (htext : Manifest.ofText? text = some (manifest.hoist field value)) (options : Options)
    (workDir : String) :
    ∃ result result', run tree.toFileTree pkgDir options workDir = .ok result
      ∧ run tree'.toFileTree pkgDir options workDir = .ok result'
      ∧ (result.diagnostics.map (Diagnostic.move (Manifest.hoistPlace field))).Perm
        result'.diagnostics := by
  have hd := Manifest.distinctKeys_load hload
  have hfields := Manifest.sameFields_hoist hd hfield hvalue htruthy
  have htrees : ∀ key ∈ Manifest.treeFields, Manifest.SameField (Manifest.hoistPlace field)
      manifest (manifest.hoist field value) key := fun key hkey =>
    Manifest.sameField_hoist hd hfield hvalue htruthy (List.mem_append_right Manifest.valueFields hkey)
  have hdeclares : (manifest.hoist field value).declaresEsm = manifest.declaresEsm := by
    rw [Manifest.declaresEsm, Manifest.declaresEsm, hfields.field _ (by decide)]
  have h := Manifest.rewrites_of_write ht hload hw htext hdeclares
  have hshort : (manifest.published "exports").2 = ((manifest.hoist field value).published "exports").2
      ∨ (manifest.published "exports").2
        = overridesKey :: ((manifest.hoist field value).published "exports").2 := by
    rw [(htrees "exports" (by decide)).published]
    rcases manifest.location_published "exports" with hl | hl <;> rw [hl]
    · left
      rw [Manifest.hoistPlace_of_ne (by decide)]
    · by_cases heq : "exports" = field
      · subst heq
        right
        rw [Manifest.hoistPlace_override]
      · left
        rw [Manifest.hoistPlace_other heq]
  have hplan := (h.mirror options workDir).agree_samePlan hfields (fun _ _ => trivial) hd htrees hshort
    fun _ _ _ _ _ => trivial
  exact h.diagnostics_perm options workDir (Diagnostic.keepsSeverity_move _) [] (by simp) hplan

/-- A package that is published with other `exports` than it is worked on with, and the same package
where these are its `exports`. -/
theorem diagnostics_hoisted_exports :
    ∃ (tree tree' : MemoryTree) (result result' : Result),
      MemoryTree.ofFiles
          [("/p/package.json",
            "\x7b\"publishConfig\":\x7b\"exports\":\x7b\"./a\":\"./a.js\"\x7d\x7d\x7d")] = .ok tree
        ∧ MemoryTree.ofFiles
          [("/p/package.json",
            "\x7b\"publishConfig\":\x7b\x7d,\"exports\":\x7b\"./a\":\"./a.js\"\x7d\x7d")] = .ok tree'
        ∧ run tree.toFileTree "/p" = .ok result ∧ run tree'.toFileTree "/p" = .ok result'
        ∧ (result.diagnostics.map (Diagnostic.move (Manifest.hoistPlace "exports"))).Perm
          result'.diagnostics := by
  let exports : Json := .obj [("./a", .str "./a.js")]
  let manifest : Manifest := [("publishConfig", .obj [("exports", exports)])]
  let text := "\x7b\"publishConfig\":\x7b\"exports\":\x7b\"./a\":\"./a.js\"\x7d\x7d\x7d"
  let text' := "\x7b\"publishConfig\":\x7b\x7d,\"exports\":\x7b\"./a\":\"./a.js\"\x7d\x7d"
  let dirs := [("/", ["p"]), ("/p", ["package.json"])]
  let tree : MemoryTree := { files := [("/p/package.json", text)], dirs }
  let tree' : MemoryTree := { files := [("/p/package.json", text')], dirs }
  have htree : MemoryTree.ofFiles [("/p/package.json", text)] = .ok tree := by cbv
  have htree' : MemoryTree.ofFiles [("/p/package.json", text')] = .ok tree' := by cbv
  have hload : (Manifest.load "/p").result tree.toFileTree = .ok (.ok manifest) := by cbv
  have hw : tree.write (Manifest.pathIn "/p") text' = .ok tree' := by rfl
  have htext : Manifest.ofText? text' = some (manifest.hoist "exports" exports) := by cbv
  obtain ⟨result, result', hrun, hrun', hperm⟩ := diagnostics_hoisted
    (MemoryTree.reachable_ofFiles htree) hload (by decide) (by rfl) (by rfl) hw htext {} "/"
  exact ⟨tree, tree', result, result', htree, htree', hrun, hrun', hperm⟩

end Pass

end PackageLint
