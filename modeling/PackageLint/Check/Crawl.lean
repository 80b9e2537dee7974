import PackageLint.ConditionTree.Basic
import PackageLint.Diagnostic.Basic
import PackageLint.Source.FileName

/-!
# Crawling a condition tree

A crawl visits every node of an `exports` or `imports` tree once, in declared order. It settles what
the tree alone shows, namely the order of the keys of every map and the kind of every value, and lists
the leaves whose targets have to be looked at.

In a map `types` has to come first, so that type-checkers see it before any code; `module` has to come
before `require`, and `default` last. Everything after a `node` key is only read by bundlers, which
accept any format, so leaves are listed with whether they come after one.

## Main definitions

* `Crawl.Visit`: a finding, or a leaf to be looked at.
* `Crawl.visits`: the visits of a tree.
-/

namespace PackageLint.Crawl

/-- A leaf of a condition tree. -/
structure Target where
  /-- The target. -/
  value : String
  /-- Its place. -/
  location : Location
  /-- Whether the leaf comes after a `node` key. -/
  afterNode : Bool
  deriving DecidableEq, Repr

/-- What a crawl comes upon. -/
inductive Visit where
  | finding (d : Diagnostic)
  | target (t : Target)
  deriving Repr

/-! ### The order of keys -/

/-- Whether the first of two keys is declared after the second. -/
def declaredAfter (first second : String) (keys : List String) : Bool :=
  keys.contains first && (keys.takeWhile (· ≠ first)).contains second

/-- Whether an entry may come before `types`: it is a versioned `types` condition, or leads to typed
sources, which carry types as well. -/
def mayPrecedeTypes (entry : String × ConditionTree) : Bool :=
  Text.hasStart entry.1 "types"
    || match entry.2 with
      | .leaf target => Source.isTypedSource target
      | tree => tree.hasTargetBelow Source.isTypedSource

/-- Whether `types` comes too late: some entry before it may not precede it, and none of these has
`types` of its own below it, which would make the later one a fallback. -/
def typesTooLate (entries : List (String × ConditionTree)) : Bool :=
  let before := entries.takeWhile fun e => e.1 ≠ "types"
  let others := before.filter fun e => !mayPrecedeTypes e
  before.length < entries.length && !others.isEmpty
    && !others.any fun e => e.2.hasKeyBelow "types"

/-- The findings about the order of a map's keys. -/
def orderFindings (field : EntryField) (location : Location)
    (entries : List (String × ConditionTree)) : List Diagnostic :=
  let keys := entries.map Prod.fst
  let error (code : Code) (key : String) : Diagnostic :=
    { code, severity := .error, location := location ++ [key] }
  (if field = .exports && typesTooLate entries then [error .exportsTypesShouldBeFirst "types"]
    else [])
  ++ (if declaredAfter "module" "require" keys then
      [error (.entry field .moduleShouldPrecedeRequire) "module"] else [])
  ++ (if keys.contains "default" && keys.getLast? != some "default" then
      [error (.entry field .defaultShouldBeLast) "default"] else [])

/-! ### Keys of imports -/

/-- Whether the keys of a map at a place have to start with `#`. -/
def needsHash (field : EntryField) (location : Location) : Bool :=
  field = .imports && location.getLast? = some "imports"

/-- The finding about a key of imports that does not start with `#`. -/
def badImportKey (location : Location) (key : String) : Diagnostic :=
  { code := .importsKeyInvalid, severity := .error, location := location ++ [key]
    args :=
      [("suggest_key", .str ("#" ++ String.ofList (Text.stripLeading '/' key.toList)))] }

/-- The findings about a key of a map. -/
def keyFindings (field : EntryField) (location : Location) (key : String) : List Diagnostic :=
  if needsHash field location && !Text.hasStart key "#" then [badImportKey location key] else []

/-! ### Visits -/

/-- The finding that an array of alternatives is used. -/
def arrayUse (field : EntryField) (location : Location) : Diagnostic :=
  { code := .entry field .fallbackArrayUse, severity := .warning, location }

/-- The finding that a value is no node. -/
def invalidNode (value : Json) (location : Location) : Diagnostic :=
  { code := .fieldInvalidValueType, severity := .error, location
    args :=
      [("actual_type", .str value.typeName),
       ("expect_types", .strs ["string", "array", "object", "null"])] }

mutual

/-- The visits of a tree at a place, in order. -/
def visits (field : EntryField) (location : Location) (afterNode : Bool) :
    ConditionTree → List Visit
  | .leaf value => [.target { value, location, afterNode }]
  | .array items =>
    .finding (arrayUse field location) :: itemVisits field location afterNode 0 items
  | .map entries =>
    (orderFindings field location entries).map .finding
      ++ entryVisits field location afterNode entries
  | .invalid value => [.finding (invalidNode value location)]
  | .exclusion => []

/-- The visits of the items of an array from an index on. -/
def itemVisits (field : EntryField) (location : Location) (afterNode : Bool) (index : Nat) :
    List ConditionTree → List Visit
  | [] => []
  | tree :: rest =>
    visits field (location ++ [toString index]) afterNode tree
      ++ itemVisits field location afterNode (index + 1) rest

/-- The visits of the entries of a map. -/
def entryVisits (field : EntryField) (location : Location) (afterNode : Bool) :
    List (String × ConditionTree) → List Visit
  | [] => []
  | (key, tree) :: rest =>
    (keyFindings field location key).map .finding
      ++ visits field (location ++ [key]) afterNode tree
      ++ entryVisits field location (afterNode || key = "node") rest

end

/-- The finding of a visit, if it is one. -/
def Visit.finding? : Visit → Option Diagnostic
  | .finding d => some d
  | .target _ => none

/-- The leaf of a visit, if it is one. -/
def Visit.target? : Visit → Option Target
  | .finding _ => none
  | .target t => some t

theorem filterMap_finding? (ds : List Diagnostic) :
    (ds.map Visit.finding).filterMap Visit.finding? = ds := by
  rw [List.filterMap_map]
  exact List.filterMap_some

/-- The findings of a tree, in order. -/
def findings (field : EntryField) (location : Location) (tree : ConditionTree) :
    List Diagnostic :=
  (visits field location false tree).filterMap Visit.finding?

/-- The leaves of a tree, in order. -/
def targets (field : EntryField) (location : Location) (tree : ConditionTree) : List Target :=
  (visits field location false tree).filterMap Visit.target?

end PackageLint.Crawl
