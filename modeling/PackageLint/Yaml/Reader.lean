import PackageLint.Yaml.Part
import PackageLint.Yaml.Scalar

/-!
# Reading YAML

The value of a document is made from its parts, level by level: of several faults, the one that is
least deep is met first, and of those on one level the first one. Only scalars can be keys.

## Main definitions

* `Yaml.Flaw`: a fault with its depth.
* `Yaml.Part.value`: the value of a part.
* `Yaml.read`: the value of a text.
-/

namespace PackageLint.Yaml

/-! ### Faults and their depth -/

/-- A fault below a part. -/
structure Flaw where
  /-- How many levels below the part it is met. -/
  depth : Nat
  /-- The fault. -/
  fault : Fault
  deriving Repr

/-- What comes of a part. -/
abbrev Attempt (α : Type) := Except Flaw α

namespace Attempt

variable {α β γ : Type}

/-- A fault that is met at a depth. -/
def fails (depth : Nat) (fault : Fault) : Attempt α := .error ⟨depth, fault⟩

/-- What comes of a part, seen from one level above it. -/
def below : Attempt α → Attempt α
  | .ok a => .ok a
  | .error flaw => .error { flaw with depth := flaw.depth + 1 }

/-- What comes of two parts that stand one after the other. -/
def both (f : α → β → γ) : Attempt α → Attempt β → Attempt γ
  | .ok a, .ok b => .ok (f a b)
  | .error flaw, .ok _ => .error flaw
  | .ok _, .error flaw => .error flaw
  | .error first, .error second => .error (if second.depth < first.depth then second else first)

end Attempt

namespace Part

/-! ### Scalars -/

/-- The value of a text under a tag. Under the tag of a collection it is malformed one level below. -/
def scalarValue (tag : Tag) (text : String) : Attempt Yaml :=
  if tag.isCollection then .fails 1 .malformed
  else
    match Scalar.ofText tag text with
    | .ok s => .ok (.scalar s)
    | .error fault => .fails 0 fault

mutual

/-- The text that a part stands for where a scalar is asked for: that of a scalar, or of the value of
a mapping's key `=`. -/
def text? : Part → Option String
  | .scalar _ text => some text
  | .map _ _ _ entries => textAmong? entries
  | .shared _ part => text? part
  | .seq _ _ | .again _ _ => none

/-- The text that entries stand for. -/
def textAmong? : List (Part × Part) → Option String
  | [] => none
  | (key, value) :: rest => if key.isScalar .value then text? value else textAmong? rest

end

/-! ### Keys and places -/

/-- The key of a mapping that a value is. -/
def keyOf : Attempt Yaml → Attempt Scalar
  | .ok (.scalar s) => .ok s
  | .ok (.shared _ (.scalar s)) => .ok s
  | .ok _ => .fails 1 .malformed
  | .error flaw => if flaw.depth = 0 then .fails 1 flaw.fault else .fails 1 .malformed

/-- A value with the mark of its place. Texts, bytes, numbers and the like have none. -/
def placed (place : Nat) : Yaml → Yaml
  | .scalar (.date d) => .shared place (.scalar (.date d))
  | .scalar (.moment m) => .shared place (.scalar (.moment m))
  | .scalar s => .scalar s
  | .shared p value => .shared p value
  | value => .shared place value

/-- The members of a set, each of them once. -/
def membersOf (entries : List (Scalar × Yaml)) : List Scalar :=
  (Mapping.ofList entries).map Prod.fst

/-! ### Values -/

mutual

/-- The value of a part. -/
def value : Part → Attempt Yaml
  | .scalar tag text => scalarValue tag text
  | .seq tag items =>
    match tag with
    | .seq => (itemValues items).map .seq
    | .pairs => (pairValues items).map .seq
    | .map | .set => .fails 1 .malformed
    | _ => .fails 0 .malformed
  | .map tag mergesMappings merged entries =>
    if tag = .map || tag = .set then
      if mergesMappings then
        (Attempt.both (· ++ ·) (entryValues merged) (entryValues entries)).map fun all =>
          if tag = .map then .map (Mapping.ofList all) else .set (membersOf all)
      else .fails 1 .malformed
    else if tag.isCollection then .fails 1 .malformed
    else
      match textAmong? entries with
      | some text => scalarValue tag text
      | none => .fails 0 .malformed
  | .shared place part => (value part).map (placed place)
  | .again place isMap => .ok (.again place isMap)

/-- The values of items. -/
def itemValues : List Part → Attempt (List Yaml)
  | [] => .ok []
  | item :: rest => Attempt.both (· :: ·) (value item).below (itemValues rest)

/-- The values of entries. A merge key has none, and the key `=` is a text. -/
def entryValues : List (Part × Part) → Attempt (List (Scalar × Yaml))
  | [] => .ok []
  | (key, part) :: rest =>
    if key.isScalar .merge then entryValues rest
    else
      let k : Attempt Scalar := if key.isScalar .value then .ok (.str "=") else keyOf (value key)
      let entry := Attempt.both Prod.mk k (value part).below
      Attempt.both (· :: ·) entry (entryValues rest)

/-- The values of items that have to be mappings of one entry each. -/
def pairValues : List Part → Attempt (List Yaml)
  | [] => .ok []
  | item :: rest => Attempt.both (· :: ·) (pairValue item) (pairValues rest)

/-- The value of an item that has to be a mapping of one entry. -/
def pairValue : Part → Attempt Yaml
  | .map _ _ _ entries => pairOf entries
  | .shared _ part => pairValue part
  | _ => .fails 1 .malformed

/-- The value of entries of which there has to be one. -/
def pairOf : List (Part × Part) → Attempt Yaml
  | [(key, part)] => Attempt.both Yaml.pair (value key).below (value part).below
  | _ => .fails 1 .malformed

end

end Part

/-- The value of a text; a text without a document is null. -/
def read (text : String) : Except Fault Yaml := do
  match ← orMalformed (Document.ofTokens? (← Token.scan text)) with
  | none => pure (.scalar .null)
  | some document =>
    let root ← orMalformed (Part.ofDocument? document)
    root.value.mapError Flaw.fault

end PackageLint.Yaml
