import PackageLint.Calendar
import PackageLint.Decimal.Rounded
import PackageLint.Json.Basic

/-!
# YAML values

Settings are kept in YAML. A value is a scalar, a sequence, a mapping, a set of scalars, or an entry of
an ordered mapping; the keys of a mapping are scalars. A mapping keeps its entries in the order in which
the keys first came. Keys that are the same number are one key, whatever their types: `1`, `1.0` and
`true` are.

A document can name a value and use it again, even within itself. A value that was named is marked with
its place in the document, so that it is known again where it is used.

## Main definitions

* `Yaml.Scalar`, `Yaml`: the values.
* `Yaml.Key`, `Yaml.Scalar.key`: what a scalar is as a key.
* `Yaml.Mapping`: mappings, with `get?`, `put` and `erase`.
* `Yaml.ofJson`: a JSON value as YAML.

## Main statements

* `Yaml.Mapping.get?_put_self`, `Yaml.Mapping.get?_put_of_ne`: what is found after `put`.
* `Yaml.Mapping.get?_erase_of_ne`: `erase` leaves the other keys alone.
-/

namespace PackageLint

/-- A value without parts. -/
inductive Yaml.Scalar where
  | null
  | bool (value : Bool)
  | int (value : Int)
  | float (value : Binary64)
  | str (value : String)
  | binary (bytes : List UInt8)
  | date (value : Date)
  | moment (value : Moment)
  deriving Repr, Inhabited, DecidableEq

/-- A YAML value. -/
inductive Yaml where
  | scalar (value : Yaml.Scalar)
  | seq (items : List Yaml)
  | map (entries : List (Yaml.Scalar × Yaml))
  | set (members : List Yaml.Scalar)
  /-- An entry of an ordered mapping. -/
  | pair (key value : Yaml)
  /-- A value that has a place in its document. -/
  | shared (place : Nat) (value : Yaml)
  /-- The sequence or mapping at a place around this value. -/
  | again (place : Nat) (isMap : Bool)
  deriving Repr, Inhabited, BEq

namespace Yaml

/-! ### Keys -/

/-- What a scalar is as a key: two scalars with one of these are one key. -/
inductive Key where
  | null
  /-- A quotient in lowest terms. -/
  | number (num : Int) (den : Nat)
  | infinity (negative : Bool)
  | nan
  | str (value : String)
  | binary (bytes : List UInt8)
  | date (value : Date)
  /-- A moment as a place in time; a clock that tells how far it is ahead differs from one that does
  not. -/
  | moment (tells : Bool) (instant : Int)
  deriving Repr, DecidableEq, Inhabited

/-- The key that a binary number is. -/
def Key.ofBinary64 : Binary64 → Key
  | .nan => .nan
  | .infinity negative => .infinity negative
  | .finite negative m q =>
    let (num, den) := Decimal.quotientOf m q
    let common := Nat.gcd num den
    let num : Int := (num / common : Nat)
    .number (if negative then -num else num) (den / common)

/-- What a scalar is as a key. -/
def Scalar.key : Scalar → Key
  | .null => .null
  | .bool b => .number (if b then 1 else 0) 1
  | .int n => .number n 1
  | .float x => .ofBinary64 x
  | .str s => .str s
  | .binary bytes => .binary bytes
  | .date d => .date d
  | .moment m => .moment m.ahead.isSome m.instant

@[simp] theorem Scalar.key_str (s : String) : (Scalar.str s).key = .str s := rfl

/-- The entries of a mapping, in order. -/
abbrev Mapping := List (Scalar × Yaml)

/-! ### Mappings -/

namespace Mapping

/-- The value of a key. -/
def get? (key : Scalar) : Mapping → Option Yaml
  | [] => none
  | (k, v) :: rest => if k.key = key.key then some v else get? key rest

/-- Stores a value: in place for a known key, which stays as it is, and at the end for a new one. -/
def put (key : Scalar) (value : Yaml) : Mapping → Mapping
  | [] => [(key, value)]
  | (k, v) :: rest => if k.key = key.key then (k, value) :: rest else (k, v) :: put key value rest

/-- The entries without those of a key. -/
def erase (key : Scalar) (entries : Mapping) : Mapping :=
  entries.filter fun e => e.1.key ≠ key.key

/-- The entries of a list with every key once: the last value of a key, at its first place. -/
def ofList (entries : List (Scalar × Yaml)) : Mapping :=
  entries.foldl (fun acc entry => put entry.1 entry.2 acc) []

@[simp] theorem get?_nil (key : Scalar) : get? key [] = none := rfl

@[simp] theorem get?_put_self (key : Scalar) (value : Yaml) (entries : Mapping) :
    get? key (put key value entries) = some value := by
  induction entries with
  | nil => simp [put, get?]
  | cons entry rest ih =>
    obtain ⟨k, v⟩ := entry
    by_cases h : k.key = key.key <;> simp [put, get?, h, ih]

theorem get?_put_of_ne {key other : Scalar} (h : other.key ≠ key.key) (value : Yaml)
    (entries : Mapping) : get? other (put key value entries) = get? other entries := by
  induction entries with
  | nil => simp [put, get?, Ne.symm h]
  | cons entry rest ih =>
    obtain ⟨k, v⟩ := entry
    by_cases hk : k.key = key.key
    · have ho : k.key ≠ other.key := fun e => h (e.symm.trans hk)
      simp [put, get?, hk, Ne.symm h]
    · simp [put, get?, hk, ih]

@[simp] theorem get?_erase_self (key : Scalar) (entries : Mapping) :
    get? key (erase key entries) = none := by
  induction entries with
  | nil => rfl
  | cons entry rest ih =>
    obtain ⟨k, v⟩ := entry
    by_cases h : k.key = key.key
    · simpa [erase, h] using ih
    · simpa [erase, get?, h] using ih

theorem get?_erase_of_ne {key other : Scalar} (h : other.key ≠ key.key) (entries : Mapping) :
    get? other (erase key entries) = get? other entries := by
  induction entries with
  | nil => rfl
  | cons entry rest ih =>
    obtain ⟨k, v⟩ := entry
    by_cases hk : k.key = key.key
    · have ho : k.key ≠ other.key := fun e => h (e.symm.trans hk)
      simpa [erase, get?, hk, Ne.symm h] using ih
    · by_cases ho : k.key = other.key
      · simp [erase, get?, ho, h]
      · simpa [erase, get?, hk, ho] using ih

end Mapping

/-! ### Places -/

/-- A value without the mark of its place. -/
def bare : Yaml → Yaml
  | .shared _ value => bare value
  | value => value

mutual

/-- A value in which what refers to a place is replaced by another value. -/
def unfolded (place : Nat) (whole : Yaml) : Yaml → Yaml
  | .again p isMap => if p = place then whole else .again p isMap
  | .seq items => .seq (unfoldedItems place whole items)
  | .map entries => .map (unfoldedEntries place whole entries)
  | .pair key value => .pair (unfolded place whole key) (unfolded place whole value)
  | .shared p value => .shared p (unfolded place whole value)
  | .scalar s => .scalar s
  | .set members => .set members

/-- Items in which what refers to a place is replaced. -/
def unfoldedItems (place : Nat) (whole : Yaml) : List Yaml → List Yaml
  | [] => []
  | item :: rest => unfolded place whole item :: unfoldedItems place whole rest

/-- Entries in which what refers to a place is replaced. -/
def unfoldedEntries (place : Nat) (whole : Yaml) : List (Scalar × Yaml) → Mapping
  | [] => []
  | (key, value) :: rest => (key, unfolded place whole value) :: unfoldedEntries place whole rest

end

/-- The entries of a value that is a mapping. -/
def entries? : Yaml → Option Mapping
  | .map entries => some entries
  | .shared place value =>
    (entries? value).map (unfoldedEntries place (.shared place value))
  | _ => none

/-! ### Other forms -/

/-- Whether a scalar is neither null, false, zero nor empty. -/
def Scalar.truthy : Scalar → Bool
  | .null => false
  | .bool b => b
  | .int n => n != 0
  | .float x => !x.isZero
  | .str s => s != ""
  | .binary bytes => !bytes.isEmpty
  | .date _ | .moment _ => true

/-- Whether a value is neither null, false, zero nor empty. -/
def truthy : Yaml → Bool
  | .scalar s => s.truthy
  | .seq items => !items.isEmpty
  | .map entries => !entries.isEmpty
  | .set members => !members.isEmpty
  | .shared _ value => truthy value
  | .pair _ _ | .again _ _ => true

mutual

/-- A JSON value as YAML. -/
def ofJson : Json → Yaml
  | .null => .scalar .null
  | .bool b => .scalar (.bool b)
  | .int n => .scalar (.int n)
  | .float x => .scalar (.float x)
  | .str s => .scalar (.str s)
  | .arr items => .seq (itemsOfJson items)
  | .obj fields => .map (fieldsOfJson fields)

/-- JSON values as YAML. -/
def itemsOfJson : List Json → List Yaml
  | [] => []
  | item :: rest => ofJson item :: itemsOfJson rest

/-- The fields of a JSON object as entries of a mapping. -/
def fieldsOfJson : List (String × Json) → Mapping
  | [] => []
  | (name, value) :: rest => (.str name, ofJson value) :: fieldsOfJson rest

end

end Yaml

end PackageLint
