import PackageLint.Proofs.FileRoutes

/-!
# The files that are tried

An entry point may resolve to one of several files. Which ones is said twice: a check that reads the entry
puts the extensions behind its path, and the scan of all other files leaves out a list that is joined and
normalized. The two agree where paths start at the root, whatever an entry point says.

What a check tries shows in the questions that it asks. A search goes on behind a path that cannot be
read; it is over at the first file, and at a text that is no path.

## Main definitions

* `Check.asked` — the questions that a check asks on a tree
* `FileTree.goesOn`, `FileTree.tried` — how far a search among paths comes

## Main results

* `Context.asked_readEntry` — reading an entry asks for the contents of the candidates that it tries
* `Context.legacy_candidates_tried` — the files left out by the scan are those that an entry point tries
-/

namespace PackageLint

variable {tree : FileTree} {path : String} {paths : List String}

/-! ### Questions -/

namespace Check

variable {α β : Type}

/-- The questions that a check asks on a tree, in order. -/
def asked (tree : FileTree) : Check α → List Question
  | .done _ => []
  | .fail _ => []
  | .report _ next => next.asked tree
  | .ask q next => q :: (next (tree.answer q)).asked tree

/-- A sequence asks what its parts ask. -/
theorem asked_bind (c : Check α) (f : α → Check β) :
    (c.bind f).asked tree
      = c.asked tree ++
          match c.result tree with
          | .ok a => (f a).asked tree
          | .error _ => [] := by
  induction c with
  | done a => rfl
  | fail e => rfl
  | report d next ih => exact ih
  | ask q next ih => exact congrArg (q :: ·) (ih _)

/-- What follows does not count when it asks nothing. -/
theorem asked_bind_of_silent (c : Check α) {f : α → Check β} (hf : ∀ a, (f a).asked tree = []) :
    (c.bind f).asked tree = c.asked tree := by
  rw [asked_bind]
  cases c.result tree with
  | ok a => exact (congrArg _ (hf a)).trans (List.append_nil _)
  | error e => exact List.append_nil _

end Check

/-! ### Searches -/

namespace FileTree

/-- Whether a search goes on behind a path: nothing can be read there, although the text is a path. -/
def goesOn (tree : FileTree) (path : String) : Bool :=
  match tree.contents path with
  | .ok _ => false
  | .error (.notPath _) => false
  | .error _ => true

/-- The paths among which a search comes by, up to the one where it is over. -/
def tried (tree : FileTree) : List String → List String
  | [] => []
  | path :: rest => path :: if tree.goesOn path then tree.tried rest else []

/-- All of some paths are tried exactly when the search goes on behind all but the last. -/
theorem tried_eq_self_iff : tree.tried paths = paths ↔ ∀ path ∈ paths.dropLast, tree.goesOn path := by
  induction paths with
  | nil => simp [tried]
  | cons path rest ih =>
    cases rest with
    | nil => simp [tried]
    | cons next rest =>
      rw [tried, List.dropLast_cons_cons, List.forall_mem_cons, ← ih]
      split
      next hgoes => simp [hgoes]
      next hstops => simp [hstops]

end FileTree

/-! ### Reading an entry -/

namespace Context

variable {ctx : Context}

theorem asked_readQuietly (path : String) : (readQuietly path).asked tree = [.contents path] := by
  rw [readQuietly, Check.bind_eq]
  refine Check.asked_bind_of_silent _ fun answer => ?_
  cases answer with
  | ok content => rfl
  | error e => cases e <;> rfl

/-- A quiet reading hands on that nothing was read exactly when a search goes on. -/
theorem result_readQuietly_eq_none_iff :
    (readQuietly path).result tree = .ok none ↔ tree.goesOn path = true := by
  rw [FileTree.goesOn, Check.result, readQuietly, Check.bind_eq, Check.run_readFile_bind]
  cases tree.contents path with
  | ok content => simp
  | error e => cases e <;> simp

theorem asked_firstReadable (paths : List String) :
    (firstReadable paths).asked tree = (tree.tried paths).map .contents := by
  induction paths with
  | nil => rfl
  | cons path rest ih =>
    rw [firstReadable, Check.bind_eq, Check.asked_bind, asked_readQuietly, FileTree.tried,
      List.map_cons, List.singleton_append]
    refine congrArg (Question.contents path :: ·) ?_
    split
    next text hresult =>
      cases text with
      | none => rw [if_pos (result_readQuietly_eq_none_iff.mp hresult), ← ih]
      | some content =>
        rw [if_neg fun hgoes => ?_]
        · rfl
        · simp [result_readQuietly_eq_none_iff.mpr hgoes] at hresult
    next e hresult =>
      rw [if_neg fun hgoes => ?_]
      · rfl
      · simp [result_readQuietly_eq_none_iff.mpr hgoes] at hresult

/-- Reading an entry asks for the contents of the candidates that it tries, and nothing else. -/
theorem asked_readEntry (ctx : Context) (path : String) (location : Location)
    (extensions : List String) :
    (ctx.readEntry path location extensions).asked tree
      = (tree.tried (candidates path extensions)).map .contents := by
  rw [readEntry, Check.bind_eq, Check.asked_bind_of_silent, asked_firstReadable]
  rintro (_ | ⟨found, content⟩)
  · rfl
  · simp only
    split <;> rfl

/-- The files that the scan leaves out for an entry point are, one by one, the candidates of reading it,
where the package directory is given from the root. So on every tree reading the entry asks for their
contents in this order, as far as the search goes on; and it asks for all of them exactly when the search
goes on behind all but the last. -/
theorem legacy_candidates_tried (h : Path.isRooted ctx.pkgDir = true) (value : String) :
    EntryChecks.legacyCandidates ctx (.str value) = candidates (ctx.within value) legacyExtensions
      ∧ ∀ (tree : FileTree) (location : Location),
          let asked := (ctx.readEntry (ctx.within value) location legacyExtensions).asked tree
          let paths := EntryChecks.legacyCandidates ctx (.str value)
          asked = (tree.tried paths).map .contents
            ∧ (asked = paths.map .contents ↔ ∀ path ∈ paths.dropLast, tree.goesOn path = true) := by
  have hpaths := legacyCandidates_eq h value
  refine ⟨hpaths, fun tree location => ?_⟩
  intro asked paths
  have hasked : asked = (tree.tried paths).map .contents := by
    rw [show paths = candidates (ctx.within value) legacyExtensions from hpaths]
    exact asked_readEntry ctx _ location _
  refine ⟨hasked, ?_⟩
  rw [hasked, (List.map_injective_iff.mpr fun _ _ => Question.contents.inj).eq_iff]
  exact FileTree.tried_eq_self_iff

/-- An entry point that leads up and names a directory: the last file that is tried is there. -/
theorem directory_above_tried :
    let ctx : Context := { pkgDir := "/p", manifest := [("main", .str "../a/")], depth := 2 }
    let tree : MemoryTree :=
      { files := [("/a/index.js", "")], dirs := [("/", ["a"]), ("/a", ["index.js"])] }
    let paths := EntryChecks.legacyCandidates ctx (.str "../a/")
    Path.isRooted ctx.pkgDir = true ∧ paths = ["/a/", "/a/.js", "/a/index.js"]
      ∧ (ctx.readEntry (ctx.within "../a/") ["main"] legacyExtensions).asked tree.toFileTree
          = paths.map .contents := by
  intro ctx tree paths
  have hroot : Path.isRooted ctx.pkgDir = true := by decide
  have hpaths : paths = ["/a/", "/a/.js", "/a/index.js"] := by decide
  obtain ⟨-, htried⟩ := legacy_candidates_tried hroot "../a/"
  refine ⟨hroot, hpaths, (htried tree.toFileTree ["main"]).2.mpr ?_⟩
  change ∀ path ∈ paths.dropLast, tree.toFileTree.goesOn path = true
  rw [hpaths]
  decide

end Context

end PackageLint
