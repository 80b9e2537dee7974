import PackageLint.Proofs.DistinctFiles

/-!
# The tree of a list of files

A tree in memory keeps the texts of its files and the listings of its directories apart, and every
write brings both up to date. Where all files have a name below the root `/`, the two tell one story,
which is that of the writes: a file has the text that was written last, and a directory lists the names
that follow it on the ways to the files, in the order in which these first came. So a directory is
listed where it should be, nothing is listed in vain, and writing a file once more changes no listing.

The induction carries both halves as functions of the list of writes. Nothing weaker is kept by a
write, for what a write does to a listing depends on what was listed before.

## Main definitions

* `Path.isBelowRoot` — the paths of files with a name below `/`
* `MemoryTree.lastText?`, `MemoryTree.firstNames` — what a list of files says about texts and listings
* `MemoryTree.Written` — the invariant
* `MemoryTree.Records` — what a tree answers when it holds a list of files

## Main results

* `MemoryTree.Written.write` — a write preserves the invariant
* `MemoryTree.ofFiles_records` — the answers of the tree of a list of files
-/

namespace PackageLint

namespace Path

/-- Whether the normal form of a path starts with exactly one slash and has a segment. -/
def isBelowRoot (path : String) : Bool :=
  match (normalize path).toList with
  | '/' :: c :: _ => c != '/'
  | _ => false

/-- The segments of the normal form of a path. -/
def segments (path : String) : List Segment := normalSegments path.toList

theorem segments_eq {path : String} {k : Nat} {names : List Segment} (hk : IsRoot k)
    (h : Names names) (hpath : normalize path = ofNames k names) : segments path = names := by
  have hchars : normalizeChars path.toList = ofSegments k names := by
    simpa [normalize] using congrArg String.toList hpath
  rw [segments, ← normalSegments_normalizeChars, hchars, normalSegments_ofNames hk.le h]

/-- A path below the root goes from there through at least one name. -/
theorem normalize_of_isBelowRoot {path : String} (h : isBelowRoot path = true) :
    Names (segments path) ∧ segments path ≠ [] ∧ normalize path = ofNames 1 (segments path) := by
  rw [isBelowRoot] at h
  split at h
  next c rest hchars =>
    have hc : c ≠ '/' := by simpa using h
    have hslashes : rootSlashes (normalize path).toList = 1 := by
      rw [hchars]
      exact rootSlashes_replicate (k := 1) (by omega) (by simpa using hc)
    have hrooted : isRooted (normalize path) = true := by
      rw [isRooted_iff, hslashes]
      omega
    obtain ⟨k, names, hk, hnames, hpath⟩ := normalize_rooted hrooted
    obtain rfl : k = 1 := by
      rw [hpath, toList_ofNames, rootSlashes_ofNames hk.le hnames] at hslashes
      exact hslashes
    rw [segments_eq hk hnames hpath]
    refine ⟨hnames, ?_, hpath⟩
    rintro rfl
    simp [hpath, ofSegments, List.intercalate] at hchars
  next => simp at h

end Path

namespace MemoryTree

open PackageLint.Path

variable {files : List (String × String)} {tree tree' : MemoryTree}

/-! ### What the files say -/

/-- The text that was written last to a normal path. -/
def lastText? (files : List (String × String)) (path : String) : Option String :=
  (files.reverse.find? fun file => Path.normalize file.1 = path).map Prod.snd

/-- The names that follow a directory on the ways to the files, in the order in which they first
came. -/
def firstNames (files : List (String × String)) (dir : List Segment) : List String :=
  (files.filterMap fun file => (nextAfter dir (segments file.1)).map String.ofList).eraseDups

theorem lastText?_concat (files : List (String × String)) (file : String × String) (path : String) :
    lastText? (files ++ [file]) path
      = if normalize file.1 = path then some file.2 else lastText? files path := by
  rw [lastText?, List.reverse_append, List.reverse_singleton, List.singleton_append,
    List.find?_cons]
  by_cases h : normalize file.1 = path <;> simp [h, lastText?]

theorem lastText?_isSome {path : String} :
    (lastText? files path).isSome = true ↔ ∃ file ∈ files, normalize file.1 = path := by
  simp [lastText?]

theorem eraseDups_concat (names : List String) (name : String) :
    (names ++ [name]).eraseDups = addName name names.eraseDups := by
  rw [List.eraseDups_append, addName]
  by_cases h : name ∈ names <;> simp [List.removeAll, List.eraseDups_cons, h]

/-- What one more file adds to a listing. -/
theorem firstNames_concat (files : List (String × String)) (file : String × String)
    (dir : List Segment) :
    firstNames (files ++ [file]) dir
      = match nextAfter dir (segments file.1) with
        | some s => addName (String.ofList s) (firstNames files dir)
        | none => firstNames files dir := by
  rw [firstNames, List.filterMap_append]
  cases hnext : nextAfter dir (segments file.1) with
  | none => simp [hnext, firstNames]
  | some s =>
    rw [List.filterMap_cons, List.filterMap_nil, hnext, Option.map_some]
    exact eraseDups_concat _ _

theorem mem_firstNames {dir : List Segment} {name : String} :
    name ∈ firstNames files dir
      ↔ ∃ file ∈ files, ∃ s, nextAfter dir (segments file.1) = some s ∧ String.ofList s = name := by
  simp [firstNames]

/-! ### The invariant -/

/-- A tree holds what a list of files says, and nothing else. -/
structure Written (files : List (String × String)) (tree : MemoryTree) : Prop where
  texts : ∀ path, Assoc.get? path tree.files = lastText? files path
  listings : ∀ dir, Names dir → Assoc.get? (ofNames 1 dir) tree.dirs
    = if dir = [] ∨ firstNames files dir ≠ [] then some (firstNames files dir) else none
  dirs_normal : ∀ path, Assoc.hasKey path tree.dirs = true → ∃ dir, Names dir ∧ path = ofNames 1 dir

theorem written_empty : Written [] .empty where
  texts _ := rfl
  listings dir hdir := by
    have hinj := ofNames_inj (show 1 ≤ 2 by omega) names_nil (show 1 ≤ 2 by omega) hdir
    have hroot : ("/" : String) = ofNames 1 [] := by decide
    by_cases hnil : dir = []
    · subst hnil
      decide
    · have hne : ofNames 1 [] ≠ ofNames 1 dir := fun h => hnil (hinj.mp h).2.symm
      simp [empty, Assoc.get?, hroot, hne, hnil, firstNames]
  dirs_normal path h := by
    obtain rfl : path = "/" := by simpa [empty, Assoc.hasKey_iff_mem, Assoc.keys] using h
    exact ⟨[], names_nil, by decide⟩

theorem addName_ne_nil (name : String) (names : List String) : addName name names ≠ [] :=
  List.ne_nil_of_mem (mem_addName.mpr (Or.inl rfl))

/-- A write preserves the invariant. -/
theorem Written.write {path content : String} (h : tree.Written files)
    (hbelow : isBelowRoot path = true) (hw : tree.write path content = .ok tree') :
    tree'.Written (files ++ [(path, content)]) := by
  obtain ⟨hnames, hne, hpath⟩ := normalize_of_isBelowRoot hbelow
  have hone : IsRoot 1 := Or.inl rfl
  refine ⟨fun other => ?_, fun dir hdir => ?_, fun other hother => ?_⟩
  · rw [(write_eq_ok_iff.mp hw).2.1, lastText?_concat, ← h.texts]
    split
    next heq => rw [← heq, Assoc.get?_put_self]
    next hother => exact Assoc.get?_put_of_ne (Ne.symm hother) _ _
  · rw [get?_dirs_write hw hone hnames hpath hne hone hdir, if_pos rfl, h.listings dir hdir,
      firstNames_concat]
    cases nextAfter dir (segments path) with
    | none => rfl
    | some s =>
      -- what is no directory yet starts from the empty listing, as its first names do
      have hold : (if dir = [] ∨ firstNames files dir ≠ [] then some (firstNames files dir)
          else none).getD [] = firstNames files dir := by
        split
        next => rfl
        next hno => rw [not_or, not_not] at hno; exact hno.2.symm
      simp only [hold, addName_ne_nil, ne_eq, not_false_eq_true, or_true, if_true]
  · rcases (hasKey_dirs_write hw).mp hother with hother | hother
    · rw [hpath] at hother
      exact mem_keys_lineage hone hnames hother
    · exact h.dirs_normal other hother

/-- Files below the root can be written, and their tree holds them. -/
theorem exists_written (h : ∀ file ∈ files, isBelowRoot file.1 = true) :
    ∃ tree, ofFiles files = .ok tree ∧ tree.Written files := by
  induction files using List.reverseRecOn with
  | nil => exact ⟨.empty, rfl, written_empty⟩
  | append_singleton files file ih =>
    obtain ⟨tree, hok, hwritten⟩ := ih fun other hother => h other (List.mem_append_left _ hother)
    have hbelow := h file (List.mem_append_right _ List.mem_cons_self)
    obtain ⟨hnames, -, hpath⟩ := normalize_of_isBelowRoot hbelow
    obtain ⟨tree', hw⟩ := exists_write_of_names hnames hpath tree file.2
    exact ⟨tree', ofFiles_concat_eq_ok_iff.mpr ⟨tree, hok, hw⟩, hwritten.write hbelow hw⟩

theorem written_ofFiles (h : ∀ file ∈ files, isBelowRoot file.1 = true)
    (htree : ofFiles files = .ok tree) : tree.Written files := by
  obtain ⟨written, hok, hwritten⟩ := exists_written h
  obtain rfl : written = tree := Except.ok.inj (hok.symm.trans htree)
  exact hwritten

/-! ### The answers -/

/-- What a tree answers when it holds a list of files. The answers are for all ways to write a path. -/
structure Records (files : List (String × String)) (tree : MemoryTree) : Prop where
  /-- A file is read with the text that was last written under the same normal form. -/
  contents_iff : ∀ path text, namesDirectory path = false →
    (tree.contents path = .ok text ↔ lastText? files (normalize path) = some text)
  /-- A directory above a file is one, and lists the next name on the way to the file. -/
  above : ∀ file ∈ files, ∀ dir s rest path, segments file.1 = dir ++ s :: rest →
    normalize path = ofNames 1 dir →
      tree.isDir path = true ∧ ∃ names, tree.entries path = .ok names ∧ String.ofList s ∈ names
  /-- A listing has every name once, and none is empty. -/
  distinct : ∀ path names, tree.entries path = .ok names → names.Nodup ∧ "" ∉ names
  /-- A listing is in the order in which its names first came. -/
  ordered : ∀ path names, tree.entries path = .ok names → names = firstNames files (segments path)
  /-- Writing a file once more changes no listing, and makes no directory. -/
  rewritten : ∀ file ∈ files, ∀ path text, normalize path = normalize file.1 →
    ∃ tree', tree.write path text = .ok tree' ∧ tree'.dirs = tree.dirs
  /-- What a directory lists is there. -/
  listed_there : ∀ path names, tree.entries path = .ok names →
    ∀ name ∈ names, tree.isThere (join path name) = true
  /-- A directory below the root lists something, and is listed itself. -/
  below : ∀ path, tree.isDir path = true → normalize path ≠ "/" →
    (∃ names, tree.entries path = .ok names ∧ names ≠ [])
      ∧ ∃ names, tree.entries (parent (normalize path)) = .ok names
          ∧ baseName (normalize path) ∈ names

variable {path : String} {names : List String} {dir : List Segment}

/-- What a directory lists, and which paths are directories. -/
theorem Written.entries_eq_ok_iff (h : tree.Written files) :
    tree.entries path = .ok names
      ↔ ∃ dir, Names dir ∧ normalize path = ofNames 1 dir ∧ names = firstNames files dir
          ∧ (dir = [] ∨ names ≠ []) := by
  rw [MemoryTree.entries_eq_ok_iff]
  constructor
  · intro hget
    obtain ⟨dir, hdir, hpath⟩ := h.dirs_normal _ (Assoc.hasKey_iff_get?.mpr ⟨names, hget⟩)
    rw [hpath, h.listings dir hdir] at hget
    split at hget
    next hlists =>
      obtain rfl := Option.some.inj hget
      exact ⟨dir, hdir, hpath, rfl, hlists⟩
    next => simp at hget
  · rintro ⟨dir, hdir, hpath, rfl, hlists⟩
    rw [hpath, h.listings dir hdir, if_pos hlists]

/-- The names that follow a directory on the way to files below the root are names. -/
theorem isName_of_mem_firstNames (hbelow : ∀ file ∈ files, isBelowRoot file.1 = true)
    {name : String} (h : name ∈ firstNames files dir) :
    ∃ s, IsName s ∧ name = String.ofList s := by
  obtain ⟨file, hfile, s, hnext, rfl⟩ := mem_firstNames.mp h
  obtain ⟨rest, hrest⟩ := nextAfter_eq_some.mp hnext
  obtain ⟨hnames, -, -⟩ := normalize_of_isBelowRoot (hbelow file hfile)
  exact ⟨s, hnames s (by simp [hrest]), rfl⟩

theorem Written.isThere_join (h : tree.Written files) (hreach : tree.Reachable)
    (hbelow : ∀ file ∈ files, isBelowRoot file.1 = true) (hentries : tree.entries path = .ok names)
    {name : String} (hmem : name ∈ names) : tree.isThere (join path name) = true := by
  have hone : IsRoot 1 := Or.inl rfl
  obtain ⟨dir, hdir, hpath, rfl, -⟩ := h.entries_eq_ok_iff.mp hentries
  obtain ⟨s, hs, rfl⟩ := isName_of_mem_firstNames hbelow hmem
  have hget := MemoryTree.entries_eq_ok_iff.mp hentries
  rw [hpath] at hget
  have hholds : tree.Holds (ofNames 1 (dir ++ [s])) := by
    rcases hreach.sound.listed 1 dir _ _ hone hdir hget hmem with ⟨-, hempty⟩ | ⟨t, -, heq, hholds⟩
    · exact absurd hempty (ofList_ne_empty hs)
    · rwa [String.ofList_inj.mp heq]
  have hall : Names (dir ++ [s]) := hdir.concat hs
  rw [join_name hone hdir hpath hs, isThere, isDir, normalize_ofNames hone hall, namesDirectory,
    toList_ofNames]
  rcases hholds with hfile | hdir
  · simp [hfile, getLast?_ofSegments_ne 1 dir hs]
  · simp [hdir]

/-- A directory below the root is listed in its parent. -/
theorem Written.listed_in_parent (h : tree.Written files) {front : List Segment} {t : Segment}
    (hdir : Names (front ++ [t])) (hlists : firstNames files (front ++ [t]) ≠ []) :
    ∃ names, tree.entries (parent (ofNames 1 (front ++ [t]))) = .ok names
      ∧ baseName (ofNames 1 (front ++ [t])) ∈ names := by
  have hone : IsRoot 1 := Or.inl rfl
  obtain ⟨hfront, ht⟩ := names_append.mp hdir
  have ht := names_singleton.mp ht
  obtain ⟨name, hname⟩ := List.exists_mem_of_ne_nil _ hlists
  obtain ⟨file, hfile, s, hnext, -⟩ := mem_firstNames.mp hname
  obtain ⟨rest, hrest⟩ := nextAfter_eq_some.mp hnext
  have hlisted : String.ofList t ∈ firstNames files front :=
    mem_firstNames.mpr ⟨file, hfile, t, nextAfter_eq_some.mpr ⟨s :: rest, by simp [hrest]⟩, rfl⟩
  rw [parent_ofNames hone hfront ht, baseName_ofNames hone ht]
  exact ⟨_, h.entries_eq_ok_iff.mpr ⟨front, hfront, normalize_ofNames hone hfront, rfl,
    Or.inr (List.ne_nil_of_mem hlisted)⟩, hlisted⟩

theorem Written.records (h : tree.Written files) (hreach : tree.Reachable)
    (hbelow : ∀ file ∈ files, isBelowRoot file.1 = true) : tree.Records files where
  contents_iff path text hslash := by
    rw [contents_eq_ok_iff, h.texts, and_iff_left hslash]
  above file hfile dir s rest path hsegments hpath := by
    obtain ⟨hnames, -, -⟩ := normalize_of_isBelowRoot (hbelow file hfile)
    rw [hsegments] at hnames
    have hmem : String.ofList s ∈ firstNames files dir :=
      mem_firstNames.mpr ⟨file, hfile, s, nextAfter_eq_some.mpr ⟨rest, hsegments⟩, rfl⟩
    have hentries : tree.entries path = .ok (firstNames files dir) :=
      h.entries_eq_ok_iff.mpr ⟨dir, (names_append.mp hnames).1, hpath, rfl,
        Or.inr (List.ne_nil_of_mem hmem)⟩
    exact ⟨entries_isOk_iff.mp ⟨_, hentries⟩, _, hentries, hmem⟩
  distinct path names hentries := by
    refine ⟨hreach.nodup_listing (MemoryTree.entries_eq_ok_iff.mp hentries), fun hempty => ?_⟩
    obtain ⟨dir, -, -, rfl, -⟩ := h.entries_eq_ok_iff.mp hentries
    obtain ⟨s, hs, heq⟩ := isName_of_mem_firstNames hbelow hempty
    exact ofList_ne_empty hs heq.symm
  ordered path names hentries := by
    obtain ⟨dir, hdir, hpath, rfl, -⟩ := h.entries_eq_ok_iff.mp hentries
    rw [segments_eq (Or.inl rfl) hdir hpath]
  rewritten file hfile path text hsame := by
    obtain ⟨hnames, -, hpath⟩ := normalize_of_isBelowRoot (hbelow file hfile)
    obtain ⟨tree', hw⟩ := exists_write_of_names hnames (hsame.trans hpath) tree text
    refine ⟨tree', hw, hreach.dirs_write ?_ hw⟩
    rw [Assoc.hasKey, h.texts, lastText?_isSome]
    exact ⟨file, hfile, hsame.symm⟩
  listed_there path names hentries _ hmem := h.isThere_join hreach hbelow hentries hmem
  below path hisDir hroot := by
    obtain ⟨names, hentries⟩ := entries_isOk_iff.mpr hisDir
    obtain ⟨dir, hdir, hpath, rfl, hlists⟩ := h.entries_eq_ok_iff.mp hentries
    have hne : dir ≠ [] := by
      rintro rfl
      exact hroot (hpath.trans (by decide))
    have hlists := hlists.resolve_left hne
    refine ⟨⟨_, hentries, hlists⟩, ?_⟩
    obtain ⟨front, t, rfl⟩ := (List.eq_nil_or_concat' dir).resolve_left hne
    rw [hpath]
    exact h.listed_in_parent hdir hlists

/-- Files that have a name below the root are written one after the other without fail, and the tree
answers as they say. -/
theorem ofFiles_records (files : List (String × String))
    (h : ∀ file ∈ files, isBelowRoot file.1 = true) :
    ∃ tree, ofFiles files = .ok tree ∧ tree.Records files := by
  obtain ⟨tree, hok, hwritten⟩ := exists_written h
  exact ⟨tree, hok, hwritten.records (reachable_ofFiles hok) h⟩

/-- Three writes to two files, the second of them in a directory below that of the first. -/
theorem records_two_files :
    (∀ file ∈ [("/p/a", "1"), ("/p/b/c", "2"), ("/p/b/../a", "3")], isBelowRoot file.1 = true)
      ∧ ∃ tree, ofFiles [("/p/a", "1"), ("/p/b/c", "2"), ("/p/b/../a", "3")] = .ok tree
          ∧ tree.Records [("/p/a", "1"), ("/p/b/c", "2"), ("/p/b/../a", "3")] :=
  ⟨by decide, ofFiles_records _ (by decide)⟩

end MemoryTree

end PackageLint
