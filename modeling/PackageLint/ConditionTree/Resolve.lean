import PackageLint.ConditionTree.Basic
import PackageLint.Diagnostic.Basic

/-!
# Resolving a condition tree

Given the active conditions, a tree is searched for its first target. The keys of a map are tried in
order; `default` always holds, and what it yields is final. An array stands for its first item. The
tree is that of one entry, so no subpath is matched.

## Main definitions

* `ConditionTree.Resolved`: a target with its place.
* `ConditionTree.resolve`: the first target under given conditions.
-/

namespace PackageLint.ConditionTree

/-- A target with its place. -/
structure Resolved where
  /-- The target. -/
  target : String
  /-- The keys that lead to it. -/
  location : Location
  deriving DecidableEq, Repr

mutual

/-- The first target of a tree under conditions; `location` is the place of the tree. -/
def resolve (conditions : List String) (location : Location) : ConditionTree → Option Resolved
  | .leaf target => some { target, location }
  | .array [] => none
  | .array (first :: _) => resolve conditions (location ++ ["0"]) first
  | .map entries => resolveEntries conditions location entries
  | .exclusion => none
  | .invalid _ => none

/-- The first target among the entries of a map. -/
def resolveEntries (conditions : List String) (location : Location) :
    List (String × ConditionTree) → Option Resolved
  | [] => none
  | (key, tree) :: rest =>
    if key = "default" then resolve conditions (location ++ [key]) tree
    else if conditions.contains key then
      match resolve conditions (location ++ [key]) tree with
      | some found => some found
      | none => resolveEntries conditions location rest
    else resolveEntries conditions location rest

end

end PackageLint.ConditionTree
