import PackageLint.Check.Entry
import PackageLint.Manifest.Load
import PackageLint.Proofs.DistinctKeys

/-!
# Places of published fields

A field is read from the manifest itself or from its overrides, so its place is one of two. Places
under different fields differ all the same: the field can be read off either.

## Main definitions

* `Location.field` — the field that a place belongs to

## Main results

* `Manifest.at?_published` — a published field is where its place says
* `Manifest.distinctKeys_load` — a manifest that is loaded gives no key twice
* `Location.field_published` — the field of every place at or below a published field
* `EntryChecks.mem_nestedStrings`, `EntryChecks.nodup_nestedStrings` — the strings of nested objects
  and their places
-/

namespace PackageLint

/-- The key of the object that holds the overrides. -/
def overridesKey : String := "publishConfig"

/-- The field that a place belongs to. -/
def Location.field : Location → String
  | [] => ""
  | [key] => key
  | key :: next :: _ => if key = overridesKey then next else key

/-- A field that is not null is there. -/
theorem Json.get?_of_field {fields : Fields} {key : String} (h : field fields key ≠ .null) :
    Assoc.get? key fields = some (field fields key) := by
  rw [field] at h ⊢
  cases hkey : Assoc.get? key fields with
  | none => simp [hkey] at h
  | some value => rfl

namespace Manifest

theorem location_published (manifest : Manifest) (field : String) :
    (manifest.published field).2 = [field]
      ∨ (manifest.published field).2 = [overridesKey, field] := by
  rw [published]
  split
  · exact Or.inr rfl
  · exact Or.inl rfl

/-- A published field that is not null is where its place says. -/
theorem at?_published {manifest : Manifest} {field : String}
    (h : (manifest.published field).1 ≠ .null) :
    (Json.obj manifest).at? (manifest.published field).2 = some (manifest.published field).1 := by
  rw [published] at h ⊢
  split
  next ht =>
    rw [if_pos ht] at h
    rw [overrides] at h ⊢
    cases hc : Json.field manifest "publishConfig" with
    | obj fields =>
      rw [hc] at h
      have hconfig : Assoc.get? "publishConfig" manifest = some (.obj fields) := by
        rw [← hc]
        exact Json.get?_of_field (by simp [hc])
      simp only [Json.at?, hconfig, Option.bind_some]
      rw [Json.get?_of_field h]
      simp
    | _ =>
      rw [hc] at h
      simp [Json.field] at h
  next ht =>
    rw [if_neg ht] at h
    simp [Json.at?, Json.get?_of_field h]

theorem distinctKeys_published {manifest : Manifest} (h : (Json.obj manifest).DistinctKeys)
    (field : String) : (manifest.published field).1.DistinctKeys := by
  rw [published]
  split
  · rw [overrides]
    cases hc : Json.field manifest "publishConfig" with
    | obj fields =>
      have hfields : (Json.obj fields).DistinctKeys := hc ▸ h.field "publishConfig"
      exact hfields.field field
    | _ => simp [Json.field, Json.DistinctKeys]
  · exact h.field field

/-- Loading reads the manifest's file, and never fails. -/
theorem result_load (tree : FileTree) (pkgDir : String) :
    (load pkgDir).result tree
      = .ok (match tree.contents (pathIn pkgDir) with
          | .ok text => ofFile (pathIn pkgDir) text
          | .error _ => .error (.notFound pkgDir)) := by
  rw [load, Check.bind_eq]
  change ((match tree.contents (pathIn pkgDir) with
    | .ok text => pure (ofFile (pathIn pkgDir) text)
    | .error _ => pure (.error (.notFound pkgDir)) : Check (Except LoadError Manifest)).run
      tree).result = _
  cases tree.contents (pathIn pkgDir) <;> rfl

/-- The manifest that is loaded is the one in the text of the manifest's file. -/
theorem load_eq_ok_iff {tree : FileTree} {pkgDir : String} {manifest : Manifest} :
    (load pkgDir).result tree = .ok (.ok manifest)
      ↔ ∃ text, tree.contents (pathIn pkgDir) = .ok text ∧ ofText? text = some manifest := by
  rw [result_load, Except.ok.injEq]
  cases tree.contents (pathIn pkgDir) with
  | error e => simp
  | ok text =>
    simp only [Except.ok.injEq, exists_eq_left', ofFile, ofText?]
    cases Json.parse text with
    | error e => cases e <;> simp
    | ok value => cases value <;> simp

/-- What is loaded gives no key twice. -/
theorem distinctKeys_load {tree : FileTree} {pkgDir : String} {manifest : Manifest}
    (h : (load pkgDir).result tree = .ok (.ok manifest)) : (Json.obj manifest).DistinctKeys := by
  rw [result_load, Except.ok.injEq] at h
  split at h
  next text _ =>
    rw [ofFile] at h
    split at h
    next hparse =>
      obtain rfl := Except.ok.inj h
      exact Json.distinctKeys_parse hparse
    all_goals simp at h
  next => simp at h

end Manifest

/-- A place at or below a published field belongs to that field. -/
theorem Location.field_published (manifest : Manifest) {field : String} (hf : field ≠ overridesKey)
    (rest : Location) : Location.field ((manifest.published field).2 ++ rest) = field := by
  rcases manifest.location_published field with h | h <;> rw [h]
  · cases rest with
    | nil => rfl
    | cons key rest => exact if_neg hf
  · simp [Location.field]

/-! ### Strings in nested objects -/

namespace EntryChecks

mutual

theorem mem_nestedStrings :
    ∀ {value : Json} {location : Location} {s : String} {p : Location}, value.DistinctKeys →
      ((s, p) ∈ nestedStrings location value
        ↔ ∃ q, p = location ++ q ∧ value.through? q = some (.str s))
  | .str t, location, s, p, _ => by
    rw [nestedStrings, List.mem_singleton, Prod.mk.injEq]
    constructor
    · rintro ⟨rfl, rfl⟩
      exact ⟨[], by simp, by simp⟩
    · rintro ⟨q, rfl, hq⟩
      cases q with
      | nil => simpa [eq_comm] using hq
      | cons key rest => simp [Json.through?] at hq
  | .obj fields, location, s, p, h => by
    rw [nestedStrings, mem_nestedStringsOf h.2]
    constructor
    · rintro ⟨key, value, q, hmem, rfl, hq⟩
      exact ⟨key :: q, rfl, by simp [Json.through?, Assoc.get?_of_mem h.1 hmem, hq]⟩
    · rintro ⟨q, rfl, hq⟩
      cases q with
      | nil => simp at hq
      | cons key rest =>
        obtain ⟨value, hget, hrest⟩ := Option.bind_eq_some_iff.mp hq
        exact ⟨key, value, rest, Assoc.mem_of_get? hget, rfl, hrest⟩
  | .null, _, _, _, _ | .bool _, _, _, _, _ | .int _, _, _, _, _ | .float _, _, _, _, _
  | .arr _, _, _, _, _ => by
    simp only [nestedStrings, List.not_mem_nil, false_iff, not_exists, not_and]
    intro q _ hq
    cases q <;> simp [Json.through?] at hq

theorem mem_nestedStringsOf :
    ∀ {fields : List (String × Json)} {location : Location} {s : String} {p : Location},
      Json.FieldsDistinct fields →
      ((s, p) ∈ nestedStringsOf location fields
        ↔ ∃ key value q, (key, value) ∈ fields ∧ p = location ++ key :: q
            ∧ value.through? q = some (.str s))
  | [], _, _, _, _ => by simp [nestedStringsOf]
  | (k, v) :: rest, location, s, p, h => by
    rw [nestedStringsOf, List.mem_append, mem_nestedStrings h.1, mem_nestedStringsOf h.2]
    constructor
    · rintro (⟨q, rfl, hq⟩ | ⟨key, value, q, hmem, rfl, hq⟩)
      · exact ⟨k, v, q, List.mem_cons_self, by simp, hq⟩
      · exact ⟨key, value, q, List.mem_cons_of_mem _ hmem, rfl, hq⟩
    · rintro ⟨key, value, q, hmem, rfl, hq⟩
      rcases List.mem_cons.mp hmem with heq | hmem
      · obtain ⟨rfl, rfl⟩ := Prod.mk.inj heq
        exact Or.inl ⟨q, by simp, hq⟩
      · exact Or.inr ⟨key, value, q, hmem, rfl, hq⟩

end

mutual

/-- No two strings of nested objects have one place. -/
theorem nodup_nestedStrings :
    ∀ {value : Json} (location : Location), value.DistinctKeys →
      ((nestedStrings location value).map Prod.snd).Nodup
  | .str _, _, _ => by simp [nestedStrings]
  | .obj fields, location, h => by
    rw [nestedStrings]
    exact nodup_nestedStringsOf location h.1 h.2
  | .null, _, _ | .bool _, _, _ | .int _, _, _ | .float _, _, _ | .arr _, _, _ => by
    simp [nestedStrings]

theorem nodup_nestedStringsOf :
    ∀ {fields : List (String × Json)} (location : Location), (Assoc.keys fields).Nodup →
      Json.FieldsDistinct fields → ((nestedStringsOf location fields).map Prod.snd).Nodup
  | [], _, _, _ => by simp [nestedStringsOf]
  | (k, v) :: rest, location, hk, h => by
    rw [Assoc.keys, List.map_cons, List.nodup_cons] at hk
    rw [nestedStringsOf, List.map_append]
    refine List.Nodup.append (nodup_nestedStrings _ h.1) (nodup_nestedStringsOf location hk.2 h.2) ?_
    intro p hp hp'
    obtain ⟨⟨s, _⟩, hs, rfl⟩ := List.mem_map.mp hp
    obtain ⟨⟨t, _⟩, ht, heq⟩ := List.mem_map.mp hp'
    obtain ⟨q, rfl, -⟩ := (mem_nestedStrings h.1).mp hs
    obtain ⟨key, value, q', hmem, rfl, -⟩ := (mem_nestedStringsOf h.2).mp ht
    have hkey : key = k := by
      simp only [List.append_assoc, List.append_cancel_left_eq] at heq
      exact (List.cons.inj heq).1
    exact hk.1 (List.mem_map.mpr ⟨_, hmem, hkey⟩)

end

end EntryChecks

end PackageLint
