import PackageLint.FileTree.Memory
import PackageLint.Proofs.Runs

/-!
# Reading the files of a tree

What reading comes to on one tree. A check that reads an entry tries candidates in turn, and reports
a file that is missing or is not published; a text that is no path would make it fail, which trees in
memory never do.

## Main definitions

* `FileTree.Readable`, `FileTree.text?` — the files that can be read
* `FileTree.TakesAnyPath` — no text is refused as a path
* `FileTree.firstText?` — the candidate that is read

## Main results

* `MemoryTree.takesAnyPath` — trees in memory refuse no path
* `Context.run_readEntry` — what reading an entry reports and yields
-/

namespace PackageLint

namespace FileTree

/-- Whether a path names a file that can be read. -/
def Readable (tree : FileTree) (path : String) : Prop := ∃ text, tree.contents path = .ok text

/-- The text of a file, when it can be read. -/
def text? (tree : FileTree) (path : String) : Option String := (tree.contents path).toOption

/-- Whether every text is taken for a path. -/
def TakesAnyPath (tree : FileTree) : Prop :=
  ∀ path refused, tree.contents path ≠ .error (.notPath refused)

/-- The first of some paths that can be read, with its text. -/
def firstText? (tree : FileTree) (paths : List String) : Option (String × String) :=
  paths.findSome? fun path => (tree.text? path).map (path, ·)

variable {tree : FileTree}

theorem text?_eq_some {path text : String} :
    tree.text? path = some text ↔ tree.contents path = .ok text := by
  rw [text?]
  cases tree.contents path <;> simp [Except.toOption]

theorem text?_eq_none {path : String} : tree.text? path = none ↔ ¬ tree.Readable path := by
  rw [text?, Readable]
  cases tree.contents path <;> simp [Except.toOption]

theorem firstText?_eq_none {paths : List String} :
    tree.firstText? paths = none ↔ ∀ path ∈ paths, ¬ tree.Readable path := by
  simp [firstText?, text?_eq_none]

/-- The path that is read is one of the candidates, and its text is the one that is read. -/
theorem firstText?_eq_some {paths : List String} {found text : String}
    (h : tree.firstText? paths = some (found, text)) :
    found ∈ paths ∧ tree.contents found = .ok text := by
  obtain ⟨path, hmem, hpath⟩ := List.exists_of_findSome?_eq_some h
  obtain ⟨text', htext, heq⟩ := Option.map_eq_some_iff.mp hpath
  obtain ⟨rfl, rfl⟩ := Prod.mk.inj heq
  exact ⟨hmem, text?_eq_some.mp htext⟩

theorem firstText?_singleton (tree : FileTree) (path : String) :
    tree.firstText? [path] = (tree.text? path).map (path, ·) := by
  rw [firstText?, List.findSome?_cons]
  cases tree.text? path <;> rfl

/-- A candidate that can be read hides those after it. -/
theorem firstText?_cons_of_contents {path text : String} (h : tree.contents path = .ok text)
    (rest : List String) : tree.firstText? (path :: rest) = some (path, text) := by
  simp [firstText?, text?_eq_some.mpr h]

end FileTree

/-- Trees in memory take every text for a path. -/
theorem MemoryTree.takesAnyPath (tree : MemoryTree) : tree.toFileTree.TakesAnyPath := by
  intro path refused h
  change tree.contents path = _ at h
  simp only [MemoryTree.contents] at h
  split at h
  · simp at h
  · split at h <;> simp at h

namespace MemoryTree

/-- The text of a file is found by the normal form of a path that names no directory. -/
theorem contents_eq_ok_iff {tree : MemoryTree} {path text : String} :
    tree.contents path = .ok text
      ↔ Assoc.get? (Path.normalize path) tree.files = some text ∧ namesDirectory path = false := by
  rw [contents]
  split
  next content hget hslash => simp [hget, hslash]
  next hno =>
    constructor
    · intro h
      split at h <;> simp at h
    · rintro ⟨hget, hslash⟩
      exact (hno text hget hslash).elim

/-- What can be read is there. -/
theorem isThere_of_readable {tree : MemoryTree} {path : String}
    (h : tree.toFileTree.Readable path) : tree.toFileTree.isThere path = true := by
  obtain ⟨text, htext⟩ := h
  obtain ⟨hget, hslash⟩ := contents_eq_ok_iff.mp htext
  change tree.isThere path = true
  simp [isThere, hslash, Assoc.hasKey, hget]

/-- A directory is listed by the normal form of a path. -/
theorem entries_eq_ok_iff {tree : MemoryTree} {path : String} {names : List String} :
    tree.entries path = .ok names ↔ Assoc.get? (Path.normalize path) tree.dirs = some names := by
  rw [entries]
  split
  next heq => simp [heq]
  next heq => simp [heq]

/-- What can be listed are the directories. -/
theorem entries_isOk_iff {tree : MemoryTree} {path : String} :
    (∃ names, tree.entries path = .ok names) ↔ tree.isDir path = true := by
  simp only [entries_eq_ok_iff]
  exact Option.isSome_iff_exists.symm

/-- Reading depends on the normal form of a path, and on whether it names a directory. -/
theorem readable_congr {tree : MemoryTree} {a b : String} (h : Path.normalize a = Path.normalize b)
    (hdir : namesDirectory a = namesDirectory b) :
    tree.toFileTree.Readable a ↔ tree.toFileTree.Readable b := by
  change (∃ text, tree.contents a = .ok text) ↔ ∃ text, tree.contents b = .ok text
  simp only [contents_eq_ok_iff, h, hdir]

end MemoryTree

namespace Context

variable {tree : FileTree}

theorem run_readQuietly (h : tree.TakesAnyPath) (path : String) :
    (readQuietly path).run tree = ⟨[], .ok (tree.text? path)⟩ := by
  simp only [readQuietly, Check.bind_eq, Check.run_readFile_bind, FileTree.text?]
  cases hc : tree.contents path with
  | ok content => rfl
  | error e =>
    cases e with
    | notPath refused => exact absurd hc (h path refused)
    | _ => rfl

theorem run_firstReadable (h : tree.TakesAnyPath) (paths : List String) :
    (firstReadable paths).run tree = ⟨[], .ok (tree.firstText? paths)⟩ := by
  induction paths with
  | nil => rfl
  | cons path rest ih =>
    rw [firstReadable, Check.bind_eq, Check.run_bind_of_quiet (run_readQuietly h path),
      FileTree.firstText?, List.findSome?_cons]
    cases tree.text? path with
    | some content => rfl
    | none => exact ih

/-- The finding that a file is missing. -/
def missing (location : Location) : Diagnostic :=
  { code := .fileDoesNotExist, severity := .error, location }

/-- The finding that a file is not published. -/
def unpublished (location : Location) : Diagnostic :=
  { code := .fileNotPublished, severity := .error, location }

/-- What reading an entry reports, given the candidate that is read. -/
def readFindings (ctx : Context) (location : Location) : Option (String × String) → List Diagnostic
  | none => [missing location]
  | some (found, _) => if ctx.isPublished found then [] else [unpublished location]

/-- Reading an entry yields the text of the first candidate that can be read, and reports that there
is none or that it is not published. -/
theorem run_readEntry (h : tree.TakesAnyPath) (ctx : Context) (path : String) (location : Location)
    (extensions : List String) :
    (ctx.readEntry path location extensions).run tree
      = ⟨ctx.readFindings location (tree.firstText? (candidates path extensions)),
          .ok ((tree.firstText? (candidates path extensions)).map Prod.snd)⟩ := by
  rw [readEntry, Check.bind_eq, Check.run_bind_of_quiet (run_firstReadable h _)]
  cases tree.firstText? (candidates path extensions) with
  | none => rfl
  | some found =>
    obtain ⟨file, content⟩ := found
    simp only [readFindings, Option.map_some]
    split <;> rfl

/-- What follows the reading of an entry. -/
theorem run_readEntry_bind {β : Type} (h : tree.TakesAnyPath) (ctx : Context) (path : String)
    (location : Location) (extensions : List String) (f : Option String → Check β) :
    ((ctx.readEntry path location extensions).bind f).run tree
      = let found := tree.firstText? (candidates path extensions)
        ⟨ctx.readFindings location found ++ ((f (found.map Prod.snd)).run tree).findings,
          ((f (found.map Prod.snd)).run tree).result⟩ :=
  Check.run_bind_of_ok (run_readEntry h ctx path location extensions) f

theorem only_readQuietly {P : Diagnostic → Prop} (path : String) : (readQuietly path).Only P := by
  refine (Check.only_readFile path).bind ?_
  intro answer _
  cases answer with
  | ok content => exact .done trivial
  | error e => cases e <;> first | exact .done trivial | exact .fail _

theorem only_firstReadable {P : Diagnostic → Prop} (paths : List String) :
    (firstReadable paths).Only P := by
  induction paths with
  | nil => exact .done trivial
  | cons path rest ih =>
    refine (only_readQuietly path).bind ?_
    intro text _
    cases text with
    | some content => exact .done trivial
    | none => exact ih

theorem only_readEntry {P : Diagnostic → Prop} (ctx : Context) (path : String)
    (location : Location) (extensions : List String) (hm : P (missing location))
    (hu : P (unpublished location)) : (ctx.readEntry path location extensions).Only P := by
  refine (only_firstReadable _).bind ?_
  intro found _
  cases found with
  | none => exact .report hm (.done trivial)
  | some found =>
    obtain ⟨file, content⟩ := found
    simp only
    split
    · exact .done trivial
    · exact .report hu (.done trivial)

theorem only_rejectsJsx {P : Diagnostic → Prop} (path : String) (location : Location)
    (globbed : Option String)
    (h : ∀ d : Diagnostic, d.code = .fileInvalidJsxExtension → d.location = location → P d) :
    (rejectsJsx path location globbed).Only P := by
  rw [rejectsJsx]
  split
  · exact .done trivial
  · exact .report (h _ rfl rfl) (.done trivial)

end Context

end PackageLint
