import PackageLint.Yaml.Node

/-!
# Parts of a document

In a document whose aliases have been followed and whose tags have been settled, every part knows its
tag. A part that has a name is marked with its place, and an alias is the part that it names; within
that part itself it refers back to the place. The entries that merge keys bring into a mapping are found
here, before any value is made.

## Main definitions

* `Yaml.Part`: the parts.
* `Yaml.Part.ofDocument?`: the part that a document is.
-/

namespace PackageLint.Yaml

/-- A part of a document. -/
inductive Part where
  | scalar (tag : Tag) (text : String)
  | seq (tag : Tag) (items : List Part)
  /-- A mapping with its own entries, and with those that its merge keys bring in. The flag says whether
  all of them name mappings. -/
  | map (tag : Tag) (mergesMappings : Bool) (merged entries : List (Part × Part))
  /-- A part that has a name. -/
  | shared (place : Nat) (part : Part)
  /-- The part at a place around this one. -/
  | again (place : Nat) (isMap : Bool)
  deriving Repr, Inhabited

namespace Part

/-- A part without the mark of its place. -/
def bare : Part → Part
  | .shared _ part => bare part
  | part => part

/-- Whether a part is a scalar with a tag. -/
def isScalar (tag : Tag) (part : Part) : Bool :=
  match part.bare with
  | .scalar t _ => t = tag
  | _ => false

/-! ### Merge keys -/

/-- The entries of a part that has to be a mapping, the merged ones first. A mapping around this one
adds nothing to it. -/
def mergeable? (part : Part) : Option (List (Part × Part)) :=
  match part.bare with
  | .map _ true merged entries => some (merged ++ entries.filter fun e => !e.1.isScalar .merge)
  | .again _ true => some []
  | _ => none

/-- The entries that the value of a merge key brings in: those of a mapping, or of several, the first of
which wins. -/
def mergedBy? (value : Part) : Option (List (Part × Part)) :=
  match value.bare with
  | .seq _ items => (items.reverse.mapM mergeable?).map List.flatten
  | _ => mergeable? value

/-- The entries that all merge keys among entries bring in. -/
def merged? (entries : List (Part × Part)) : Option (List (Part × Part)) :=
  ((entries.filter fun e => e.1.isScalar .merge).mapM fun e => mergedBy? e.2).map List.flatten

/-- The mapping of entries. -/
def ofEntries (tag : Tag) (entries : List (Part × Part)) : Part :=
  match merged? entries with
  | some merged => .map tag true merged entries
  | none => .map tag false [] entries

/-! ### Names and tags -/

/-- What a name stands for. -/
inductive Named where
  /-- A part that is not read to its end. -/
  | around (place : Nat) (isMap : Bool)
  /-- A part with its place. -/
  | whole (part : Part)
  deriving Repr

/-- The part that an alias is. -/
def Named.part : Named → Part
  | .around place isMap => .again place isMap
  | .whole part => part

/-- The names so far. -/
abbrev Names := Assoc Named

/-- A result with the names after it. -/
structure Composed (α : Type) where
  /-- The result. -/
  result : α
  /-- The names after it. -/
  names : Names

/-- Notes the name of a part that begins. A name can be given once. -/
def begin? (anchor : Option String) (isMap : Bool) (names : Names) : Option Names :=
  match anchor with
  | none => some names
  | some name =>
    if Assoc.hasKey name names then none
    else some (Assoc.put name (.around names.length isMap) names)

/-- Notes a part that ends under its name. -/
def finished (anchor : Option String) (part : Part) (names : Names) : Composed Part :=
  match anchor with
  | none => ⟨part, names⟩
  | some name =>
    match Assoc.get? name names with
    | some (.around place _) =>
      ⟨.shared place part, Assoc.put name (.whole (.shared place part)) names⟩
    | _ => ⟨part, names⟩

/-- The tag of a part whose tag, if it is written, has this name; an exclamation mark alone leaves it
to the form of the part. -/
def tagOf? (handles : Handles) (written : Option TagName) (unwritten byForm : Tag) : Option Tag :=
  match written with
  | none => some unwritten
  | some name =>
    (handles.fullName? name).map fun full => if full = "!" then byForm else Tag.ofName full

/-! ### Documents -/

mutual

/-- The part that a node is, given the names before it. -/
def ofNode? (handles : Handles) (names : Names) : Node → Option (Composed Part)
  | .alias name => (Assoc.get? name names).map fun found => ⟨found.part, names⟩
  | .scalar labels text plain => do
    let byForm := Tag.ofPlain text
    let tag ← tagOf? handles labels.tag (if plain then byForm else .str) byForm
    let names ← begin? labels.anchor false names
    pure (finished labels.anchor (.scalar tag text) names)
  | .seq labels items => do
    let tag ← tagOf? handles labels.tag .seq .seq
    let names ← begin? labels.anchor false names
    let found ← ofItems? handles names items
    pure (finished labels.anchor (.seq tag found.result) found.names)
  | .map labels entries => do
    let tag ← tagOf? handles labels.tag .map .map
    let names ← begin? labels.anchor true names
    let found ← ofEntries? handles names entries
    pure (finished labels.anchor (.ofEntries tag found.result) found.names)

/-- The parts that items are. -/
def ofItems? (handles : Handles) (names : Names) : List Node → Option (Composed (List Part))
  | [] => some ⟨[], names⟩
  | item :: rest => do
    let first ← ofNode? handles names item
    let later ← ofItems? handles first.names rest
    pure ⟨first.result :: later.result, later.names⟩

/-- The parts that entries are. -/
def ofEntries? (handles : Handles) (names : Names) :
    List (Node × Node) → Option (Composed (List (Part × Part)))
  | [] => some ⟨[], names⟩
  | (key, value) :: rest => do
    let k ← ofNode? handles names key
    let v ← ofNode? handles k.names value
    let later ← ofEntries? handles v.names rest
    pure ⟨(k.result, v.result) :: later.result, later.names⟩

end

/-- The part that a document is. A name has to be given before it is used, and a handle has to be
declared. -/
def ofDocument? (document : Document) : Option Part :=
  (ofNode? document.handles [] document.root).map Composed.result

end Part

end PackageLint.Yaml
