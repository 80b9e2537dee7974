import PackageLint.Check.Basic
import PackageLint.ConditionTree.Basic
import PackageLint.Path.Basic
import PackageLint.Path.Kind
import PackageLint.Subpath.Pattern

/-!
# Files that a pattern stands for

A path with wildcards stands for the files of its top directory that match it, found by walking
through the directory. All wildcards of a pattern stand for one text. A key of the exports map that is
null hides the files for which it matches the pattern's own key, with that text put in.

## Main definitions

* `Subpath.Search`: what is looked for.
* `Subpath.Search.finds`: the test of a single path.
* `Subpath.expand`: the files of a pattern, in the order of the walk.
-/

namespace PackageLint.Subpath

/-- What is looked for. -/
structure Search where
  /-- The pattern, an absolute path. -/
  pattern : String
  /-- The files that will be published, when they are known. -/
  published : Option (List String) := none
  /-- The key of the entry that the pattern belongs to. -/
  key : Option String := none
  /-- The whole map that the key belongs to. -/
  tree : Option ConditionTree := none
  /-- The names of directories that are not walked through. -/
  skipped : List String := []

namespace Search

/-- The top-level keys that are null, as patterns. -/
def nullKeys : ConditionTree → List Pattern
  | .map entries =>
    entries.filterMap fun (key, tree) =>
      match tree with
      | .exclusion => some (Pattern.ofText key)
      | _ => none
  | _ => []

/-- The keys that hide files from the search. Without a key of its own nothing is hidden. -/
def hidingKeys (search : Search) : List Pattern :=
  match search.key, search.tree with
  | some key, some tree => if key = "" then [] else nullKeys tree
  | _, _ => []

/-- A key with its first wildcard replaced. -/
def substitute (key text : String) : String :=
  ((Text.replaceFirst? ['*'] text.toList key.toList).map String.ofList).getD key

/-- Whether a capture is hidden by a null key. -/
def hides (search : Search) (capture : String) : Bool :=
  search.hidingKeys.any fun pattern =>
    pattern.accepts (substitute (search.key.getD "") capture)

/-- Whether a path matches: all wildcards stand for one text, and no null key hides it. -/
def finds (search : Search) (path : String) : Bool :=
  match (Pattern.ofText (Path.slashed search.pattern)).captures? (Path.slashed path) with
  | none => false
  | some [] => true
  | some (first :: others) => others.all (· = first) && !search.hides first

/-- Whether a path leads to a published file, as far as its text tells. -/
def leadsToPublished (search : Search) (path : String) : Bool :=
  match search.published with
  | none => true
  | some files => files.any fun file => Text.hasStart file path

end Search

/-- Puts the results of all items into one list. -/
def collect {α β : Type} (f : α → Check (List β)) : List α → Check (List β)
  | [] => .done []
  | a :: rest => do
    let found ← f a
    let others ← collect f rest
    pure (found ++ others)

/-- Walks through a directory. The bound counts nested directories. -/
def walk (search : Search) : Nat → String → Check (List String)
  | 0, _ => .done []
  | bound + 1, dir => do
    let names ← Check.readDir dir
    collect
      (fun name => do
        let path := Path.join dir name
        if search.leadsToPublished path then
          if ← Check.isDir path then
            if search.skipped.contains name then pure [] else walk search bound path
          else if search.finds path then pure [path] else pure []
        else pure [])
      names

/-- The files of a pattern, in the order of the walk. A pattern without a literal directory has none.
`depth` bounds the chain of nested directories. -/
def expand (depth : Nat) (search : Search) : Check (List String) :=
  match Pattern.topDir? search.pattern with
  | none => .done []
  | some dir => do
    if ← Check.isDir dir then walk search depth dir else pure []

end PackageLint.Subpath
