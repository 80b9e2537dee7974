import PackageLint.Proofs.DistinctKeys
import PackageLint.Yaml.Reader
import PackageLint.Yaml.Writer
import Mathlib.Data.List.Nodup
import Mathlib.Data.Option.Basic
import Mathlib.Logic.Function.Basic

/-!
# Values that are the same

A text that was written is read as a value that need not be the one that was written: keys are put in
order, and values that occur in several places have other places then. What stays is what the ways into
a value lead to. Two values are the same when every way leads to the same in both, so that mappings are
the same when each key has the same value in both.

A mapping is changed key by key. Since the keys of what is read differ, a mapping is known by the values of
its keys, and changing one of them leaves the others as they are.

## Main definitions

* `Yaml.Step`, `Yaml.at?` — the ways into a value, and what they lead to
* `Yaml.Same`, `Yaml.SameValues` — every way leads to the same in both values, or under all keys
* `Yaml.Mapping.DistinctKeys` — no two entries of a mapping have one key
* `Yaml.Mapping.withValue` — a mapping in which a key has a value or none
* `Yaml.Kept` — mappings with entries of a kind are read as they were written

## Main results

* `Yaml.same_map_iff` — mappings are the same when each key has the same value in both
* `Yaml.Mapping.get?_withValue` — only the key that is changed has another value
* `Yaml.distinctKeys_of_read` — the keys of a mapping that is read differ
-/

namespace PackageLint.Yaml

/-! ### Ways into a value -/

/-- A step from a value to one of its parts. -/
inductive Step where
  | key (key : Scalar)
  | item (index : Nat)

/-- The items of a value that is a sequence. -/
def items? : Yaml → Option (List Yaml)
  | .seq items => some items
  | .shared place value => (items? value).map (unfoldedItems place (.shared place value))
  | _ => none

/-- The part of a value that a step leads to. -/
def part? (value : Yaml) : Step → Option Yaml
  | .key key => value.entries?.bind (Mapping.get? key)
  | .item index => value.items?.bind fun items => items[index]?

/-- What a value is without its parts, where steps lead to them. -/
inductive Face where
  | scalar (value : Scalar)
  | seq
  | map
  | other (value : Yaml)

/-- What a value is without its parts. -/
def face : Yaml → Face
  | .scalar s => .scalar s
  | .seq _ => .seq
  | .map _ => .map
  | .shared _ value => face value
  | value => .other value

/-- What a way leads to. -/
def at? (value : Yaml) : List Step → Option Face
  | [] => some value.face
  | step :: way => (value.part? step).bind fun part => at? part way

/-- Whether every way leads to the same in two values. -/
def Same (a b : Yaml) : Prop := ∀ way, a.at? way = b.at? way

/-- A value has entries exactly when it is a mapping. -/
theorem isSome_entries?_iff (value : Yaml) : value.entries?.isSome ↔ value.face = .map := by
  induction value using entries?.induct with
  | case1 entries => simp [entries?, face]
  | case2 place value ih => simpa [entries?, face] using ih
  | case3 value hmap hshared =>
    cases value with
    | map entries => exact absurd rfl (hmap entries)
    | shared place value => exact absurd rfl (hshared place value)
    | _ => simp [entries?, face]

/-! ### Values of keys -/

/-- Whether two values are the same, or there is none in both places. -/
def SameOrNone (a b : Option Yaml) : Prop :=
  ∀ way, (a.bind fun value => value.at? way) = b.bind fun value => value.at? way

/-- Whether every key has the same value in both, or none. -/
def SameValues (f g : Scalar → Option Yaml) : Prop := ∀ key, SameOrNone (f key) (g key)

theorem SameOrNone.of_eq {a b : Option Yaml} (h : a = b) : SameOrNone a b := fun _ => by rw [h]

theorem SameOrNone.refl (a : Option Yaml) : SameOrNone a a := .of_eq rfl

section

variable {a b c d : Option Yaml}

theorem SameOrNone.trans (hab : SameOrNone a b) (hbc : SameOrNone b c) : SameOrNone a c :=
  fun way => (hab way).trans (hbc way)

theorem SameOrNone.map_face (h : SameOrNone a b) : a.map face = b.map face := by
  rw [Option.map_eq_bind, Option.map_eq_bind]
  exact h []

/-- There is none in one place exactly when there is none in the other. -/
theorem SameOrNone.eq_none_iff (h : SameOrNone a b) : a = none ↔ b = none := by
  rw [← Option.map_eq_none_iff (f := face), h.map_face, Option.map_eq_none_iff]

/-- Whether there is a mapping. -/
def isMapping (value? : Option Yaml) : Bool := (value?.bind entries?).isSome

theorem isMapping_eq_true_iff : isMapping a = true ↔ a.map face = some .map := by
  cases a with
  | none => simp [isMapping]
  | some value => simpa [isMapping] using isSome_entries?_iff value

theorem SameOrNone.isMapping_eq (h : SameOrNone a b) : isMapping a = isMapping b := by
  rw [Bool.eq_iff_iff, isMapping_eq_true_iff, isMapping_eq_true_iff, h.map_face]

/-- Of two places the first where there is a value decides. -/
theorem SameOrNone.or (hab : SameOrNone a b) (hcd : SameOrNone c d) :
    SameOrNone (a.or c) (b.or d) := by
  cases a with
  | none =>
    obtain rfl := hab.eq_none_iff.mp rfl
    exact hcd
  | some value =>
    obtain ⟨other, rfl⟩ := Option.ne_none_iff_exists'.mp (mt hab.eq_none_iff.mpr (by simp))
    exact hab

end

variable {f g h : Scalar → Option Yaml}

theorem SameValues.refl (f : Scalar → Option Yaml) : SameValues f f := fun key => .refl (f key)

theorem SameValues.trans (hfg : SameValues f g) (hgh : SameValues g h) : SameValues f h :=
  fun key => (hfg key).trans (hgh key)

/-- One key is changed in both. -/
theorem SameValues.update (h : SameValues f g) (key : Scalar) (value? : Option Yaml) :
    SameValues (Function.update f key value?) (Function.update g key value?) := by
  intro other
  by_cases hkey : other = key
  · subst hkey
    rw [Function.update_self, Function.update_self]
    exact .refl value?
  · rw [Function.update_of_ne hkey, Function.update_of_ne hkey]
    exact h other

/-- Mappings are the same when each key has the same value in both. -/
theorem same_map_iff {m m' : Mapping} :
    Same (.map m) (.map m') ↔ SameValues (fun key => m.get? key) fun key => m'.get? key := by
  constructor
  · exact fun h key way => h (.key key :: way)
  · rintro h (_ | ⟨key | index, way⟩)
    · rfl
    · exact h key way
    · rfl

/-! ### Distinct keys -/

/-- Only a text is the key that it is. -/
theorem Scalar.key_eq_str_iff {s : Scalar} {name : String} : s.key = .str name ↔ s = .str name := by
  constructor
  · intro h
    cases s with
    | str t => exact congrArg Scalar.str (Key.str.inj h)
    | float x => cases x <;> simp [Scalar.key, Key.ofBinary64] at h
    | _ => simp [Scalar.key] at h
  · rintro rfl
    rfl

namespace Mapping

variable {m : Mapping} {key : Scalar} {value : Yaml} {entry : Scalar × Yaml}

/-- The keys of the entries of a mapping. -/
def keys (m : Mapping) : List Key := m.map fun entry => entry.1.key

/-- Whether no two entries of a mapping have one key. -/
def DistinctKeys (m : Mapping) : Prop := m.keys.Nodup

theorem mem_keys_put {k : Key} (key : Scalar) (value : Yaml) (m : Mapping) :
    k ∈ keys (put key value m) ↔ k = key.key ∨ k ∈ keys m := by
  induction m with
  | nil => simp [put, keys]
  | cons entry rest ih =>
    obtain ⟨k', v⟩ := entry
    rw [put]
    split
    next hkey => simp [keys, hkey]
    next =>
      simp only [keys, List.map_cons, List.mem_cons] at ih ⊢
      rw [ih]
      tauto

theorem DistinctKeys.put (h : DistinctKeys m) (key : Scalar) (value : Yaml) :
    DistinctKeys (m.put key value) := by
  induction m with
  | nil => exact List.nodup_singleton _
  | cons entry rest ih =>
    obtain ⟨k, v⟩ := entry
    obtain ⟨hfresh, hrest⟩ := List.nodup_cons.mp h
    rw [Mapping.put]
    split
    next => exact List.nodup_cons.mpr ⟨hfresh, hrest⟩
    next hkey =>
      refine List.nodup_cons.mpr ⟨fun hmem => ?_, ih hrest⟩
      rcases (mem_keys_put key value rest).mp hmem with heq | hmem
      · exact hkey heq
      · exact hfresh hmem

theorem DistinctKeys.erase (h : DistinctKeys m) (key : Scalar) : DistinctKeys (m.erase key) :=
  List.Nodup.sublist (List.filter_sublist.map _) h

theorem distinctKeys_ofList (entries : List (Scalar × Yaml)) : DistinctKeys (ofList entries) := by
  rw [ofList]
  exact List.foldlRecOn entries _ List.nodup_nil fun m hm entry _ => hm.put entry.1 entry.2

/-- Scalars that are one key have one value. -/
theorem get?_congr {other : Scalar} (h : other.key = key.key) (m : Mapping) :
    m.get? other = m.get? key := by
  induction m with
  | nil => rfl
  | cons entry rest ih => rw [get?, get?, h, ih]

theorem get?_eq_none_iff : m.get? key = none ↔ key.key ∉ keys m := by
  induction m with
  | nil => simp [keys]
  | cons entry rest ih =>
    obtain ⟨k, v⟩ := entry
    rw [get?]
    split
    next hkey => simp [keys, hkey]
    next hkey => simp [keys, Ne.symm hkey, ih]

/-! ### Changes of one key -/

/-- A mapping in which a key has a value or none. -/
def withValue (key : Scalar) (value? : Option Yaml) (m : Mapping) : Mapping :=
  match value? with
  | some value => m.put key value
  | none => m.erase key

theorem DistinctKeys.withValue (h : DistinctKeys m) (key : Scalar) (value? : Option Yaml) :
    DistinctKeys (m.withValue key value?) := by
  cases value? with
  | some value => exact h.put key value
  | none => exact h.erase key

@[simp] theorem get?_withValue_self (key : Scalar) (value? : Option Yaml) (m : Mapping) :
    (m.withValue key value?).get? key = value? := by
  cases value? with
  | some value => exact get?_put_self key value m
  | none => exact get?_erase_self key m

/-- Only the key that is changed has another value. -/
theorem get?_withValue (name : String) (value? : Option Yaml) (m : Mapping) :
    (fun key => (m.withValue (.str name) value?).get? key)
      = Function.update (fun key => m.get? key) (.str name) value? := by
  funext key
  by_cases hkey : key = .str name
  · subst hkey
    rw [get?_withValue_self, Function.update_self]
  · have hne : key.key ≠ (Scalar.str name).key := mt Scalar.key_eq_str_iff.mp hkey
    rw [Function.update_of_ne hkey]
    cases value? with
    | some value => exact get?_put_of_ne hne value m
    | none => exact get?_erase_of_ne hne m

theorem mem_put (h : entry ∈ m.put key value) :
    entry ∈ m ∨ entry.1.key = key.key ∧ entry.2 = value := by
  induction m with
  | nil =>
    obtain rfl := List.mem_singleton.mp h
    exact Or.inr ⟨rfl, rfl⟩
  | cons first rest ih =>
    obtain ⟨k, v⟩ := first
    rw [put] at h
    split at h
    next hkey =>
      rcases List.mem_cons.mp h with rfl | h
      · exact Or.inr ⟨hkey, rfl⟩
      · exact Or.inl (List.mem_cons_of_mem _ h)
    next =>
      rcases List.mem_cons.mp h with rfl | h
      · exact Or.inl List.mem_cons_self
      · exact (ih h).imp_left (List.mem_cons_of_mem _)

/-- The entries of a changed mapping are those of the mapping and that of the key. -/
theorem mem_withValue {name : String} {value? : Option Yaml}
    (h : entry ∈ m.withValue (.str name) value?) :
    entry ∈ m ∨ ∃ value ∈ value?, entry = (.str name, value) := by
  cases value? with
  | some value =>
    refine (mem_put h).imp_right ?_
    rintro ⟨hkey, hvalue⟩
    exact ⟨value, rfl, Prod.ext (Scalar.key_eq_str_iff.mp hkey) hvalue⟩
  | none => exact Or.inl (List.mem_of_mem_filter h)

end Mapping

/-! ### What is read -/

open Json (except_bind_eq_ok)
open Mapping (DistinctKeys keys)

theorem except_map_eq_ok {ε α β : Type} {x : Except ε α} {f : α → β} {y : β} :
    x.map f = .ok y ↔ ∃ a, x = .ok a ∧ f a = y := by
  cases x <;> simp [Except.map]

theorem keys_unfoldedEntries (place : Nat) (whole : Yaml) (m : Mapping) :
    keys (unfoldedEntries place whole m) = keys m := by
  induction m with
  | nil => rfl
  | cons entry rest ih => exact congrArg (entry.1.key :: ·) ih

theorem entries?_placed (place : Nat) (value : Yaml) :
    ((Part.placed place value).entries?.map keys) = value.entries?.map keys := by
  cases value with
  | scalar s => cases s <;> rfl
  | map entries => exact congrArg some (keys_unfoldedEntries place _ entries)
  | _ => rfl

theorem entries?_of_scalarValue {tag : Tag} {text : String} {value : Yaml}
    (h : Part.scalarValue tag text = .ok value) : value.entries? = none := by
  rw [Part.scalarValue] at h
  split at h
  · simp [Attempt.fails] at h
  · split at h
    · obtain rfl := Except.ok.inj h
      rfl
    · simp [Attempt.fails] at h

theorem entries?_of_seq {items : Attempt (List Yaml)} {value : Yaml}
    (h : items.map .seq = .ok value) : value.entries? = none := by
  obtain ⟨values, -, rfl⟩ := except_map_eq_ok.mp h
  rfl

/-- The keys of a mapping that a part stands for differ. -/
theorem distinctKeys_of_value : ∀ {part : Part} {value : Yaml} {m : Mapping},
    part.value = .ok value → value.entries? = some m → DistinctKeys m
  | .scalar tag text, value, m, h, hm => by
    rw [Part.value] at h
    simp [entries?_of_scalarValue h] at hm
  | .seq tag items, value, m, h, hm => by
    cases tag with
    | seq => simp [entries?_of_seq h] at hm
    | pairs => simp [entries?_of_seq h] at hm
    | _ => simp [Part.value, Attempt.fails] at h
  | .map tag mergesMappings merged entries, value, m, h, hm => by
    rw [Part.value] at h
    split at h
    · split at h
      · obtain ⟨all, -, rfl⟩ := except_map_eq_ok.mp h
        split at hm
        · obtain rfl := Option.some.inj hm
          exact Mapping.distinctKeys_ofList all
        · simp [entries?] at hm
      · simp [Attempt.fails] at h
    · split at h
      · simp [Attempt.fails] at h
      · split at h
        · simp [entries?_of_scalarValue h] at hm
        · simp [Attempt.fails] at h
  | .shared place part, value, m, h, hm => by
    rw [Part.value] at h
    obtain ⟨inner, hinner, rfl⟩ := except_map_eq_ok.mp h
    have hkeys := entries?_placed place inner
    rw [hm] at hkeys
    obtain ⟨m', hm', hsame⟩ := Option.map_eq_some_iff.mp hkeys.symm
    rw [DistinctKeys, ← hsame]
    exact distinctKeys_of_value hinner hm'
  | .again place isMap, value, m, h, hm => by
    obtain rfl := Except.ok.inj h
    simp [entries?] at hm

/-- The keys of a mapping that is read from a text differ. -/
theorem distinctKeys_of_read {text : String} {value : Yaml} {m : Mapping}
    (h : read text = .ok value) (hm : value.entries? = some m) : DistinctKeys m := by
  obtain ⟨tokens, -, h⟩ := except_bind_eq_ok.mp h
  obtain ⟨document?, -, h⟩ := except_bind_eq_ok.mp h
  cases document? with
  | none =>
    obtain rfl := Except.ok.inj h
    simp [entries?] at hm
  | some document =>
    obtain ⟨root, -, h⟩ := except_bind_eq_ok.mp h
    have hroot : root.value = .ok value := by
      cases hvalue : root.value with
      | ok found => simpa [hvalue, Except.mapError] using h
      | error flaw => simp [hvalue, Except.mapError] at h
    exact distinctKeys_of_value hroot hm

/-! ### Reading what was written -/

/-- Whether mappings with entries of a kind are read as they were written: the same values under the same
keys, and again with entries of that kind. -/
def Kept (kind : Scalar → Yaml → Prop) : Prop :=
  ∀ m : Mapping, DistinctKeys m → (∀ entry ∈ m, kind entry.1 entry.2) →
    ∃ found, read (write m) = .ok (.map found) ∧ Same (.map found) (.map m)
      ∧ ∀ entry ∈ found, kind entry.1 entry.2

end PackageLint.Yaml
