import PackageLint.Yaml.Basic

/-!
# Values as they are written

A value that occurs several times is written once, under an anchor, and referred to by aliases after
that. Anchors are numbered in the order in which their values come up a second time. The form of a value
has these decisions made: it says which labels stand before each part, and where an alias stands in
place of one. The keys of its mappings are in order.

## Main definitions

* `Yaml.sorted`: the entries of a mapping in the order of their keys.
* `Yaml.Form`: the forms.
* `Yaml.Form.ofEntries`: the form of a mapping.
-/

namespace PackageLint.Yaml

/-! ### The order of keys -/

/-- The place of a number on the line with infinite ends: below, among or above the finite ones, and the
quotient among them. -/
def Key.onLine? : Key → Option (Int × Int × Nat)
  | .number num den => some (0, num, den)
  | .infinity negative => some (if negative then -1 else 1, 0, 1)
  | _ => none

/-- Bytes as characters of the same values. -/
def charsOfBytes (bytes : List UInt8) : String :=
  String.ofList (bytes.map fun b => Char.ofNat b.toNat)

/-- Whether one key comes before or with another, where the two can be compared: texts by their
characters, bytes by their values, numbers by their size, dates and moments by their places in time. -/
def Key.le? : Key → Key → Option Bool
  | .str a, .str b => some (a ≤ b)
  | .binary a, .binary b => some (charsOfBytes a ≤ charsOfBytes b)
  | .date a, .date b => some (a.number ≤ b.number)
  | .moment aTells a, .moment bTells b => if aTells = bTells then some (a ≤ b) else none
  | a, b =>
    match a.onLine?, b.onLine? with
    | some (s, m, d), some (t, n, e) => some (s < t || (s = t && m * e ≤ n * d))
    | _, _ => none

/-- Whether all keys can be compared with each other. -/
def areComparable (entries : Mapping) : Bool :=
  entries.length ≤ 1
    || entries.all fun a => entries.all fun b => (Key.le? a.1.key b.1.key).isSome

/-- The entries of a mapping in the order of their keys. Keys that cannot be compared stay as they
are. -/
def sorted (entries : Mapping) : Mapping :=
  if areComparable entries then
    entries.mergeSort fun a b => (Key.le? a.1.key b.1.key).getD true
  else entries

mutual

/-- A value with the keys of all its mappings in order. The members of a set are in the
order of keys. -/
def inOrder : Yaml → Yaml
  | .scalar s => .scalar s
  | .seq items => .seq (itemsInOrder items)
  | .map entries => .map (sorted (entriesInOrder entries))
  | .set members => .set ((sorted (members.map fun m => (m, .scalar .null))).map Prod.fst)
  | .pair key value => .pair (inOrder key) (inOrder value)
  | .shared place value => .shared place (inOrder value)
  | .again place isMap => .again place isMap

/-- The items with all keys in order. -/
def itemsInOrder : List Yaml → List Yaml
  | [] => []
  | item :: rest => inOrder item :: itemsInOrder rest

/-- The entries with all keys within their values in order. -/
def entriesInOrder : List (Scalar × Yaml) → List (Scalar × Yaml)
  | [] => []
  | (key, value) :: rest => (key, inOrder value) :: entriesInOrder rest

end

/-! ### What occurs again -/

/-- The places that have come up. -/
structure Visits where
  /-- All of them. -/
  seen : List Nat := []
  /-- Those that have come up again, in the order in which they did. -/
  repeated : List Nat := []
  deriving Repr, Inhabited

/-- Notes that a place comes up again. -/
def Visits.again (visits : Visits) (place : Nat) : Visits :=
  if visits.repeated.contains place then visits
  else { visits with repeated := visits.repeated ++ [place] }

mutual

/-- Goes through a value. What has come up before is not gone through again. -/
def visit (visits : Visits) : Yaml → Visits
  | .scalar _ | .set _ => visits
  | .seq items => visitItems visits items
  | .map entries => visitEntries visits entries
  | .pair key value => visit (visit visits key) value
  | .shared place value =>
    if visits.seen.contains place then visits.again place
    else visit { visits with seen := place :: visits.seen } value
  | .again place _ => visits.again place

/-- Goes through items. -/
def visitItems (visits : Visits) : List Yaml → Visits
  | [] => visits
  | item :: rest => visitItems (visit visits item) rest

/-- Goes through the values of entries. -/
def visitEntries (visits : Visits) : List (Scalar × Yaml) → Visits
  | [] => visits
  | (_, value) :: rest => visitEntries (visit visits value) rest

end

/-! ### Forms -/

/-- A value as it is written. -/
inductive Form where
  | alias (name : String)
  | scalar (labels : List String) (value : Scalar)
  | seq (labels : List String) (items : List Form)
  | map (labels : List String) (entries : List (Scalar × Form))
  deriving Repr, Inhabited

namespace Form

/-- A form with one more label before it. -/
def labelled (label : String) : Form → Form
  | .alias name => .alias name
  | .scalar labels value => .scalar (label :: labels) value
  | .seq labels items => .seq (label :: labels) items
  | .map labels entries => .map (label :: labels) entries

/-- The name of the anchor of a place, by its rank among those that come up again. -/
def anchorName (repeated : List Nat) (place : Nat) : String :=
  "id" ++ paddedNumber 3 (repeated.idxOf place + 1)

/-- A form with the places that have come up after it. -/
structure Written (α : Type) where
  /-- The result. -/
  result : α
  /-- The places that have come up. -/
  seen : List Nat

mutual

/-- The form of a value whose keys are in order. -/
def ofValue (repeated seen : List Nat) : Yaml → Written Form
  | .scalar s => ⟨.scalar [] s, seen⟩
  | .seq items =>
    let found := ofItems repeated seen items
    ⟨.seq [] found.result, found.seen⟩
  | .map entries =>
    let found := ofEntriesFrom repeated seen entries
    ⟨.map [] found.result, found.seen⟩
  | .set members => ⟨.map ["!!set"] (members.map fun m => (m, .scalar [] .null)), seen⟩
  | .pair key value =>
    let first := ofValue repeated seen key
    let second := ofValue repeated first.seen value
    ⟨.seq [] [first.result, second.result], second.seen⟩
  | .shared place value =>
    if seen.contains place then ⟨.alias (anchorName repeated place), seen⟩
    else
      let found := ofValue repeated (place :: seen) value
      if repeated.contains place then
        ⟨found.result.labelled ("&" ++ anchorName repeated place), found.seen⟩
      else found
  | .again place _ => ⟨.alias (anchorName repeated place), seen⟩

/-- The forms of items. -/
def ofItems (repeated seen : List Nat) : List Yaml → Written (List Form)
  | [] => ⟨[], seen⟩
  | item :: rest =>
    let first := ofValue repeated seen item
    let later := ofItems repeated first.seen rest
    ⟨first.result :: later.result, later.seen⟩

/-- The forms of entries. -/
def ofEntriesFrom (repeated seen : List Nat) :
    List (Scalar × Yaml) → Written (List (Scalar × Form))
  | [] => ⟨[], seen⟩
  | (key, value) :: rest =>
    let first := ofValue repeated seen value
    let later := ofEntriesFrom repeated first.seen rest
    ⟨(key, first.result) :: later.result, later.seen⟩

end

/-- The forms of the entries of a mapping, in order. -/
def ofEntries (entries : Mapping) : List (Scalar × Form) :=
  let entries := sorted (entriesInOrder entries)
  (ofEntriesFrom (visitEntries {} entries).repeated [] entries).result

end Form

end PackageLint.Yaml
