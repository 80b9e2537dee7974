import Mathlib
import PackageLint.ConditionTree.Basic
import PackageLint.Diagnostic.Basic

/-!
# Places in a value

A finding is about a place, a list of keys. This file says what is at a place of a JSON value and of
a condition tree, and that the two agree.

`Json.follow` is the reading that the library uses to look a place up; `Json.at?` below is the plain
one, in which an array is entered by the decimal text of an index and nothing can fail.

## Main definitions

* `Json.at?`, `ConditionTree.at?` — what is at a place
* `Json.through?` — what is at a place that leads through objects only

## Main results

* `ConditionTree.at?_ofJson` — a tree has at every place the node of the value there
* `ConditionTree.at?_eq_leaf` — its leaves are the strings of the value
-/

namespace PackageLint

/-! ### Association lists -/

namespace Assoc

variable {α β : Type}

theorem get?_map (f : α → β) (key : String) (entries : Assoc α) :
    get? key (entries.map fun e => (e.1, f e.2)) = (get? key entries).map f := by
  induction entries with
  | nil => rfl
  | cons entry rest ih =>
    obtain ⟨k, v⟩ := entry
    simp only [List.map_cons, get?, ih]
    split <;> rfl

theorem mem_of_get? {key : String} {value : α} {entries : Assoc α}
    (h : get? key entries = some value) : (key, value) ∈ entries := by
  induction entries with
  | nil => simp at h
  | cons entry rest ih =>
    obtain ⟨k, v⟩ := entry
    rw [get?] at h
    split at h
    next hk =>
      obtain rfl : v = value := by simpa using h
      simp [hk]
    next => exact List.mem_cons_of_mem _ (ih h)

/-- Where keys are distinct, every entry is the one that its key finds. -/
theorem get?_of_mem {key : String} {value : α} {entries : Assoc α} (hk : (keys entries).Nodup)
    (h : (key, value) ∈ entries) : get? key entries = some value := by
  induction entries with
  | nil => simp at h
  | cons entry rest ih =>
    obtain ⟨k, v⟩ := entry
    rw [keys, List.map_cons, List.nodup_cons] at hk
    rcases List.mem_cons.mp h with heq | hmem
    · obtain ⟨rfl, rfl⟩ : key = k ∧ value = v := by simpa using heq
      simp [get?]
    · have hne : k ≠ key := by
        rintro rfl
        exact hk.1 (List.mem_map.mpr ⟨_, hmem, rfl⟩)
      rw [get?, if_neg hne]
      exact ih hk.2 hmem

theorem mem_keys_put {key other : String} {value : α} {entries : Assoc α} :
    other ∈ keys (put key value entries) ↔ other = key ∨ other ∈ keys entries := by
  induction entries with
  | nil => simp [put, keys]
  | cons entry rest ih =>
    obtain ⟨k, v⟩ := entry
    rw [put]
    split
    next hk => simp [keys, hk]
    next =>
      simp only [keys, List.map_cons, List.mem_cons] at ih ⊢
      rw [ih]
      tauto

theorem nodup_keys_put {key : String} {value : α} {entries : Assoc α} (h : (keys entries).Nodup) :
    (keys (put key value entries)).Nodup := by
  induction entries with
  | nil => simp [put, keys]
  | cons entry rest ih =>
    obtain ⟨k, v⟩ := entry
    rw [keys, List.map_cons, List.nodup_cons] at h
    rw [put]
    split
    next hk =>
      subst hk
      exact List.nodup_cons.mpr h
    next hk =>
      refine List.nodup_cons.mpr ⟨?_, ih h.2⟩
      intro hmem
      rcases mem_keys_put.mp hmem with rfl | hmem
      · exact hk rfl
      · exact h.1 hmem

/-- Every entry after a `put` is the one that was put or was there before. -/
theorem mem_put {key : String} {value : α} {entries : Assoc α} {entry : String × α}
    (h : entry ∈ put key value entries) : entry = (key, value) ∨ entry ∈ entries := by
  induction entries with
  | nil => simpa [put] using h
  | cons first rest ih =>
    obtain ⟨k, v⟩ := first
    rw [put] at h
    split at h
    next =>
      rcases List.mem_cons.mp h with rfl | h
      · exact Or.inl rfl
      · exact Or.inr (List.mem_cons_of_mem _ h)
    next =>
      rcases List.mem_cons.mp h with rfl | h
      · exact Or.inr List.mem_cons_self
      · exact (ih h).imp id (List.mem_cons_of_mem _)

end Assoc

/-! ### What is at a place -/

namespace Location

/-- The item whose index is written as the key, the first item having the index given. -/
def item? {α : Type} (key : String) : Nat → List α → Option α
  | _, [] => none
  | index, item :: rest => if toString index = key then some item else item? key (index + 1) rest

theorem item?_toString {α : Type} (n index : Nat) (items : List α) :
    item? (toString (index + n)) index items = items[n]? := by
  induction items generalizing n index with
  | nil => rfl
  | cons item rest ih =>
    rw [item?]
    cases n with
    | zero => simp
    | succ n =>
      have hne : toString index ≠ toString (index + (n + 1)) := by
        intro h
        have := Nat.repr_injective h
        omega
      rw [if_neg hne, show index + (n + 1) = (index + 1) + n by omega, ih]
      simp

theorem item?_eq_some {α : Type} {key : String} {index : Nat} {items : List α} {item : α}
    (h : item? key index items = some item) :
    ∃ n, items[n]? = some item ∧ key = toString (index + n) := by
  induction items generalizing index with
  | nil => simp [item?] at h
  | cons first rest ih =>
    rw [item?] at h
    split at h
    next hk => exact ⟨0, by simpa using h, by simpa using hk.symm⟩
    next =>
      obtain ⟨n, hn, hkey⟩ := ih h
      exact ⟨n + 1, by simpa using hn, by rw [hkey]; congr 1; omega⟩

theorem item?_map {α β : Type} (f : α → β) (key : String) (index : Nat) (items : List α) :
    item? key index (items.map f) = (item? key index items).map f := by
  induction items generalizing index with
  | nil => rfl
  | cons item rest ih =>
    simp only [List.map_cons, item?, ih]
    split <;> rfl

end Location

namespace Json

/-- What is at a place: a key leads into an object, the decimal text of an index into an array. -/
def at? : Json → Location → Option Json
  | value, [] => some value
  | .obj fields, key :: rest => (Assoc.get? key fields).bind fun value => value.at? rest
  | .arr items, key :: rest => (Location.item? key 0 items).bind fun value => value.at? rest
  | _, _ :: _ => none

/-- What is at a place that leads through objects only. -/
def through? : Json → Location → Option Json
  | value, [] => some value
  | .obj fields, key :: rest => (Assoc.get? key fields).bind fun value => value.through? rest
  | _, _ :: _ => none

@[simp] theorem at?_nil (value : Json) : value.at? [] = some value := by
  cases value <;> rfl

@[simp] theorem through?_nil (value : Json) : value.through? [] = some value := by
  cases value <;> rfl

theorem at?_append (value : Json) (p q : Location) :
    value.at? (p ++ q) = (value.at? p).bind fun found => found.at? q := by
  induction p generalizing value with
  | nil => simp
  | cons key rest ih => cases value <;> simp [at?, Option.bind_assoc, ih]

theorem at?_of_through? {value found : Json} {p : Location} (h : value.through? p = some found) :
    value.at? p = some found := by
  induction p generalizing value with
  | nil => simpa using h
  | cons key rest ih =>
    cases value <;> simp only [through?, reduceCtorEq] at h
    obtain ⟨inner, hget, hrest⟩ := Option.bind_eq_some_iff.mp h
    simp [at?, hget, ih hrest]

end Json

namespace ConditionTree

/-- What is at a place of a tree. -/
def at? : ConditionTree → Location → Option ConditionTree
  | tree, [] => some tree
  | .map entries, key :: rest => (Assoc.get? key entries).bind fun tree => tree.at? rest
  | .array items, key :: rest => (Location.item? key 0 items).bind fun tree => tree.at? rest
  | _, _ :: _ => none

@[simp] theorem at?_nil (tree : ConditionTree) : tree.at? [] = some tree := by
  cases tree <;> rfl

theorem at?_append (tree : ConditionTree) (p q : Location) :
    tree.at? (p ++ q) = (tree.at? p).bind fun found => found.at? q := by
  induction p generalizing tree with
  | nil => simp
  | cons key rest ih => cases tree <;> simp [at?, Option.bind_assoc, ih]

theorem ofItems_eq_map (items : List Json) : ofItems items = items.map ofJson := by
  induction items with
  | nil => rfl
  | cons item rest ih => rw [ofItems, ih, List.map_cons]

theorem ofFields_eq_map (fields : List (String × Json)) :
    ofFields fields = fields.map fun e => (e.1, ofJson e.2) := by
  induction fields with
  | nil => rfl
  | cons entry rest ih =>
    obtain ⟨key, value⟩ := entry
    rw [ofFields, ih, List.map_cons]

theorem keys_ofFields (fields : List (String × Json)) :
    Assoc.keys (ofFields fields) = Assoc.keys fields := by
  rw [ofFields_eq_map, Assoc.keys, List.map_map]
  rfl

/-- A tree has at every place the node of the value that is there. -/
theorem at?_ofJson (value : Json) (p : Location) :
    (ofJson value).at? p = (value.at? p).map ofJson := by
  induction p generalizing value with
  | nil => simp
  | cons key rest ih =>
    cases value with
    | obj fields =>
      simp only [ofJson, at?, Json.at?, ofFields_eq_map, Assoc.get?_map]
      cases Assoc.get? key fields <;> simp [ih]
    | arr items =>
      simp only [ofJson, at?, Json.at?, ofItems_eq_map, Location.item?_map]
      cases Location.item? key 0 items <;> simp [ih]
    | _ => rfl

/-- The string behind a leaf. -/
theorem ofJson_eq_leaf {value : Json} {target : String} :
    ofJson value = .leaf target ↔ value = .str target := by
  cases value <;> simp [ofJson]

/-- Every leaf of a value's tree is a string of the value. -/
theorem at?_eq_leaf {value : Json} {p : Location} {target : String} :
    (ofJson value).at? p = some (.leaf target) ↔ value.at? p = some (.str target) := by
  rw [at?_ofJson]
  cases value.at? p <;> simp [ofJson_eq_leaf]

end ConditionTree

end PackageLint
