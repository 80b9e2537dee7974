import PackageLint.Json.Basic

/-!
# Condition trees

The value of the `exports` or the `imports` field is a tree: targets at its leaves, maps from
conditions or subpaths, arrays of alternatives, and nulls that hide subpaths. The order of a map's
entries matters and is kept.

## Main definitions

* `ConditionTree`: the trees.
* `ConditionTree.ofJson`: the tree of a JSON value.
* `ConditionTree.hasKeyBelow`, `ConditionTree.hasTargetBelow`: what occurs anywhere below a node.
-/

namespace PackageLint

/-- A node of a condition tree. -/
inductive ConditionTree where
  /-- A target. -/
  | leaf (target : String)
  /-- Alternatives, of which the first counts. -/
  | array (items : List ConditionTree)
  /-- Subtrees by condition or subpath, in order. -/
  | map (entries : List (String × ConditionTree))
  /-- A null: it hides subpaths that match its key. -/
  | exclusion
  /-- A value that is no node. -/
  | invalid (value : Json)
  deriving Repr, Inhabited, BEq

namespace ConditionTree

mutual

/-- The tree of a JSON value. -/
def ofJson : Json → ConditionTree
  | .str s => .leaf s
  | .arr items => .array (ofItems items)
  | .obj fields => .map (ofFields fields)
  | .null => .exclusion
  | .bool b => .invalid (.bool b)
  | .int n => .invalid (.int n)
  | .float x => .invalid (.float x)

/-- The trees of JSON values. -/
def ofItems : List Json → List ConditionTree
  | [] => []
  | item :: rest => ofJson item :: ofItems rest

/-- The trees of JSON fields. -/
def ofFields : List (String × Json) → List (String × ConditionTree)
  | [] => []
  | (key, value) :: rest => (key, ofJson value) :: ofFields rest

end

/-! ### What occurs below a node -/

mutual

/-- Whether a map below a node, or the node itself, declares a key. -/
def hasKeyBelow (key : String) : ConditionTree → Bool
  | .map entries => entriesHaveKey key entries
  | .array items => itemsHaveKey key items
  | _ => false

/-- Whether a key is among entries or below them. -/
def entriesHaveKey (key : String) : List (String × ConditionTree) → Bool
  | [] => false
  | (k, tree) :: rest => k = key || hasKeyBelow key tree || entriesHaveKey key rest

/-- Whether a key is declared below some item. -/
def itemsHaveKey (key : String) : List ConditionTree → Bool
  | [] => false
  | tree :: rest => hasKeyBelow key tree || itemsHaveKey key rest

end

mutual

/-- Whether a leaf strictly below a node has a target of a kind. -/
def hasTargetBelow (kind : String → Bool) : ConditionTree → Bool
  | .map entries => entriesHaveTarget kind entries
  | .array items => itemsHaveTarget kind items
  | _ => false

/-- Whether a leaf among entries or below them has a target of a kind. -/
def entriesHaveTarget (kind : String → Bool) : List (String × ConditionTree) → Bool
  | [] => false
  | (_, .leaf target) :: rest => kind target || entriesHaveTarget kind rest
  | (_, tree) :: rest => hasTargetBelow kind tree || entriesHaveTarget kind rest

/-- Whether a leaf among items or below them has a target of a kind. -/
def itemsHaveTarget (kind : String → Bool) : List ConditionTree → Bool
  | [] => false
  | .leaf target :: rest => kind target || itemsHaveTarget kind rest
  | tree :: rest => hasTargetBelow kind tree || itemsHaveTarget kind rest

end

end ConditionTree

end PackageLint
