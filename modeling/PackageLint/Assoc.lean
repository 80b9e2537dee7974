/-!
# Association lists in insertion order

Objects of data files and listings of directories keep their entries in the order in which the keys
first came. Storing a value under a known key replaces it where it stands.

## Main definitions

* `Assoc.get?`, `Assoc.hasKey`: look-up.
* `Assoc.put`: insertion or replacement in place.
* `Assoc.erase`: removal.

## Main statements

* `Assoc.get?_put_self`, `Assoc.get?_put_of_ne`: what is found after `put`.
-/

namespace PackageLint

/-- Pairs of keys and values, in order. -/
abbrev Assoc (α : Type) := List (String × α)

namespace Assoc

variable {α : Type}

/-- The value of the first entry with a key. -/
def get? (key : String) : Assoc α → Option α
  | [] => none
  | (k, v) :: rest => if k = key then some v else get? key rest

/-- Whether some entry has the key. -/
def hasKey (key : String) (entries : Assoc α) : Bool := (get? key entries).isSome

/-- The keys in order. -/
def keys (entries : Assoc α) : List String := entries.map Prod.fst

/-- Stores a value: in place for a known key, at the end for a new one. -/
def put (key : String) (value : α) : Assoc α → Assoc α
  | [] => [(key, value)]
  | (k, v) :: rest => if k = key then (key, value) :: rest else (k, v) :: put key value rest

/-- The entries without the first one that has the key. -/
def erase (key : String) : Assoc α → Assoc α
  | [] => []
  | (k, v) :: rest => if k = key then rest else (k, v) :: erase key rest

/-- The entries of a list with every key once: the last value of a key, at its first place. -/
def ofList (entries : List (String × α)) : Assoc α :=
  entries.foldl (fun acc entry => put entry.1 entry.2 acc) []

@[simp] theorem get?_nil (key : String) : get? key ([] : Assoc α) = none := rfl

@[simp] theorem get?_put_self (key : String) (value : α) (entries : Assoc α) :
    get? key (put key value entries) = some value := by
  induction entries with
  | nil => simp [put, get?]
  | cons entry rest ih =>
    obtain ⟨k, v⟩ := entry
    by_cases h : k = key <;> simp [put, get?, h, ih]

theorem get?_put_of_ne {key other : String} (h : other ≠ key) (value : α) (entries : Assoc α) :
    get? other (put key value entries) = get? other entries := by
  induction entries with
  | nil => simp [put, get?, Ne.symm h]
  | cons entry rest ih =>
    obtain ⟨k, v⟩ := entry
    by_cases hk : k = key
    · subst hk
      simp [put, get?, Ne.symm h]
    · simp [put, get?, hk, ih]

end Assoc

end PackageLint
