import PackageLint.Proofs.InnerReadings
import PackageLint.Proofs.Searches

/-!
# A package in a tree of its own

A package is a list of files below a directory that is not given. Written below some directory it makes
a tree, and what this tree answers about the paths within the directory can be said without the
directory: a file has the text that was written last, a directory lists the next names on the ways to
files, in the order in which they first came.

Above the directory the tree has nothing but the way to it.

## Main definitions

* `Package` — a list of files, each with the way to it
* `Package.text?`, `Package.isDir`, `Package.listing` — what a package holds
* `Package.Lies` — a tree that holds a package in a directory and nothing else

## Main results

* `Package.exists_lies` — every package can be written below a directory
* `Package.Lies.text?_at`, `Package.Lies.isDir_at`, `Package.Lies.names_at` — the answers of the tree
* `Package.Lies.height_le` — the directories of the tree are enough for every walk
-/

namespace PackageLint

open PackageLint.Path MemoryTree

/-- The files of a package: the way to each, and its text. -/
structure Package where
  files : List (Inner × String)
  named : ∀ file ∈ files, file.1.names ≠ []

namespace Package

/-- The files of a package in a directory. -/
def filesAt (package : Package) (d : Dir) : List (String × String) :=
  package.files.map fun file => (d.at file.1, file.2)

/-- Whether a tree holds a package in a directory and nothing else. -/
def Lies (package : Package) (d : Dir) (tree : MemoryTree) : Prop :=
  ofFiles (package.filesAt d) = .ok tree

/-! ### What a package holds -/

/-- What is known of the text at some names once a file is written. -/
def rewrite (names : List Segment) (text : Option String) (file : Inner × String) :
    Option String :=
  if file.1.names = names then some file.2 else text

/-- The text of the file that some names lead to. -/
def text? (package : Package) (names : List Segment) : Option String :=
  package.files.foldl (rewrite names) none

/-- What a directory lists once the file is written that some names lead to. -/
def relist (dir : List Segment) (listing : List String) (names : List Segment) : List String :=
  match nextAfter dir names with
  | some s => addName (String.ofList s) listing
  | none => listing

/-- The names that a directory of a package lists. -/
def listing (package : Package) (dir : List Segment) : List String :=
  package.files.foldl (fun listing file => relist dir listing file.1.names) []

/-- Whether some names lead to a directory of a package. -/
def isDir (package : Package) (dir : List Segment) : Bool :=
  package.files.any fun file => (nextAfter dir file.1.names).isSome

/-- The number of names on the longest way. -/
def height (package : Package) : Nat := (package.files.map fun file => file.1.names.length).foldr max 0

variable {package : Package}

theorem length_le_height {file : Inner × String} (h : file ∈ package.files) :
    file.1.names.length ≤ package.height :=
  List.le_max_of_le' 0 (List.mem_map_of_mem h) le_rfl

/-- A directory is less deep than some file. -/
theorem length_lt_height {dir : List Segment} (h : package.isDir dir = true) :
    dir.length < package.height := by
  obtain ⟨file, hfile, hnext⟩ := List.any_eq_true.mp h
  obtain ⟨s, hs⟩ := Option.isSome_iff_exists.mp hnext
  obtain ⟨rest, hrest⟩ := nextAfter_eq_some.mp hs
  have hle := length_le_height hfile
  rw [hrest, List.length_append, List.length_cons] at hle
  omega

theorem mem_relist {dir names : List Segment} {listing : List String} {name : String}
    (hn : Names names) (h : name ∈ relist dir listing names) :
    name ∈ listing ∨ ∃ s, IsName s ∧ name = String.ofList s := by
  rw [relist] at h
  split at h
  next s hs =>
    obtain ⟨rest, hrest⟩ := nextAfter_eq_some.mp hs
    rcases mem_addName.mp h with rfl | h
    · exact Or.inr ⟨s, hn s (by simp [hrest]), rfl⟩
    · exact Or.inl h
  next => exact Or.inl h

/-- What a directory of a package lists are names. -/
theorem isName_of_mem_listing {dir : List Segment} {name : String}
    (h : name ∈ package.listing dir) : ∃ s, IsName s ∧ name = String.ofList s := by
  have hfold : ∀ (files : List (Inner × String)) (listing : List String),
      name ∈ files.foldl (fun listing file => relist dir listing file.1.names) listing →
        name ∈ listing ∨ ∃ s, IsName s ∧ name = String.ofList s := by
    intro files
    induction files with
    | nil => exact fun _ h => Or.inl h
    | cons file rest ih =>
      intro listing h
      rcases ih _ h with h | h
      · exact mem_relist file.1.isNames h
      · exact Or.inr h
  exact (hfold package.files [] h).resolve_left List.not_mem_nil

theorem relist_eq_self {dir names : List Segment} {listing : List String}
    (h : (nextAfter dir names).isSome = false) : relist dir listing names = listing := by
  have hnone : nextAfter dir names = none := by simpa using h
  rw [relist, hnone]

theorem listing_of_not_isDir {dir : List Segment} (h : package.isDir dir = false) :
    package.listing dir = [] := by
  have hfold : ∀ files : List (Inner × String),
      (files.any fun file => (nextAfter dir file.1.names).isSome) = false →
        files.foldl (fun listing file => relist dir listing file.1.names) [] = [] := by
    intro files
    induction files with
    | nil => exact fun _ => rfl
    | cons file rest ih =>
      intro h
      obtain ⟨hfile, hrest⟩ := Bool.or_eq_false_iff.mp h
      rw [List.foldl_cons, relist_eq_self hfile, ih hrest]
  exact hfold _ h

/-- Nothing is listed as deep as the longest way leads. -/
theorem listing_of_height_le {dir : List Segment} (h : package.height ≤ dir.length) :
    package.listing dir = [] := by
  refine listing_of_not_isDir (Bool.eq_false_iff.mpr fun hdir => ?_)
  exact absurd (length_lt_height hdir) (by omega)

/-! ### Writing a package -/

theorem exists_write {d : Dir} (hd : d.slashes = 1) (i : Inner) (text : String)
    (tree : MemoryTree) : ∃ tree', tree.write (d.at i) text = .ok tree' := by
  refine exists_write_of_names (d.names_within i) ?_ tree text
  rw [d.normalize_at, hd]

theorem exists_foldlM_write {d : Dir} (hd : d.slashes = 1) (files : List (Inner × String))
    (tree : MemoryTree) :
    ∃ tree', (files.map fun file => (d.at file.1, file.2)).foldlM
      (fun tree file => tree.write file.1 file.2) tree = .ok tree' := by
  induction files generalizing tree with
  | nil => exact ⟨tree, rfl⟩
  | cons file rest ih =>
    obtain ⟨next, hnext⟩ := exists_write hd file.1 file.2 tree
    obtain ⟨tree', h⟩ := ih next
    refine ⟨tree', ?_⟩
    rw [List.map_cons, List.foldlM_cons, hnext]
    exact h

/-- Every package can be written below every directory that starts with one slash. -/
theorem exists_lies (package : Package) {d : Dir} (hd : d.slashes = 1) :
    ∃ tree, package.Lies d tree :=
  exists_foldlM_write hd package.files .empty

/-- What is kept by every write of a package holds of its tree. -/
theorem Lies.induction {d : Dir} {tree : MemoryTree} {P : List (Inner × String) → MemoryTree → Prop}
    (h : package.Lies d tree) (hempty : P [] .empty)
    (hwrite : ∀ files file before after, file ∈ package.files →
      before.write (d.at file.1) file.2 = .ok after → P files before → P (files ++ [file]) after) :
    P package.files tree := by
  have hfold : ∀ (rest done : List (Inner × String)) (before : MemoryTree),
      (∀ file ∈ rest, file ∈ package.files) →
      (rest.map fun file => (d.at file.1, file.2)).foldlM
        (fun tree file => tree.write file.1 file.2) before = .ok tree →
      P done before → P (done ++ rest) tree := by
    intro rest
    induction rest with
    | nil =>
      intro done before _ hok hdone
      obtain rfl : before = tree := by simpa [pure, Except.pure] using hok
      simpa using hdone
    | cons file rest ih =>
      intro done before hmem hok hdone
      obtain ⟨hfile, hrest⟩ := List.forall_mem_cons.mp hmem
      rw [List.map_cons, List.foldlM_cons] at hok
      cases hnext : before.write (d.at file.1) file.2 with
      | error e => simp [hnext, bind, Except.bind] at hok
      | ok next =>
        rw [hnext] at hok
        have := ih (done ++ [file]) next hrest hok (hwrite done file before next hfile hnext hdone)
        simpa using this
  simpa using hfold package.files [] .empty (fun _ => id) h hempty

/-! ### What its tree holds -/

variable {d : Dir} {tree : MemoryTree}

/-- The texts of a package are those of its tree. -/
theorem Lies.get?_files (h : package.Lies d tree) {names : List Segment} (hn : Names names) :
    Assoc.get? (ofNames d.slashes (d.names ++ names)) tree.files = package.text? names := by
  refine h.induction
    (P := fun files tree => Assoc.get? (ofNames d.slashes (d.names ++ names)) tree.files
      = files.foldl (rewrite names) none) rfl ?_
  intro files file before after _ hwrite hbefore
  have hall : Names (d.names ++ names) := d.isNames.append hn
  obtain ⟨-, hfiles, -⟩ := write_eq_ok_iff.mp hwrite
  rw [hfiles, d.normalize_at, List.foldl_append, List.foldl_cons, List.foldl_nil, ← hbefore, rewrite]
  split
  next heq => rw [heq, Assoc.get?_put_self]
  next hne =>
    refine Assoc.get?_put_of_ne ?_ _ _
    rw [Ne, ofNames_inj d.isRoot.le hall d.isRoot.le (d.names_within file.1)]
    simpa using Ne.symm hne

/-- Every file of the tree is one of the package. -/
theorem Lies.file_within (h : package.Lies d tree) {path : String}
    (hkey : Assoc.hasKey path tree.files = true) :
    ∃ file ∈ package.files, path = ofNames d.slashes (d.names ++ file.1.names) := by
  revert hkey
  refine h.induction (P := fun _ tree => Assoc.hasKey path tree.files = true →
    ∃ file ∈ package.files, path = ofNames d.slashes (d.names ++ file.1.names)) ?_ ?_
  · intro hkey
    simp [empty, Assoc.hasKey] at hkey
  · intro files file before after hfile hwrite hbefore hkey
    rcases (hasKey_files_write hwrite).mp hkey with rfl | hkey
    · exact ⟨file, hfile, d.normalize_at file.1⟩
    · exact hbefore hkey

theorem nextAfter_append (front dir names : List Segment) :
    nextAfter (front ++ dir) (front ++ names) = nextAfter dir names := by
  induction front with
  | nil => rfl
  | cons a front ih => simp [nextAfter, ih]

variable {j : Nat} {dir : List Segment}

/-- The directories of the tree: those on the way to a file, and the root that every tree has. -/
theorem Lies.hasKey_dirs (h : package.Lies d tree) (hj : IsRoot j) (hd : Names dir) :
    Assoc.hasKey (ofNames j dir) tree.dirs = true
      ↔ (j = 1 ∧ dir = []) ∨ (j = d.slashes ∧
          ∃ file ∈ package.files, (nextAfter dir (d.names ++ file.1.names)).isSome = true) := by
  refine h.induction
    (P := fun files tree => Assoc.hasKey (ofNames j dir) tree.dirs = true
      ↔ (j = 1 ∧ dir = []) ∨ (j = d.slashes ∧
          ∃ file ∈ files, (nextAfter dir (d.names ++ file.1.names)).isSome = true)) ?_ ?_
  · have hroot : ("/" : String) = ofNames 1 [] := by decide
    have hinj := ofNames_inj hj.le hd (show 1 ≤ 2 by omega) names_nil
    rw [Assoc.hasKey_iff_mem]
    simp [empty, Assoc.keys, hroot, hinj]
  · intro files file before after hfile hwrite hbefore
    have hne : d.names ++ file.1.names ≠ [] := by simp [package.named file hfile]
    rw [hasKey_dirs_write hwrite, hbefore, d.normalize_at, ← Assoc.hasKey_iff_mem, Assoc.hasKey,
      get?_lineage d.isRoot (d.names_within file.1) hne hj hd]
    by_cases hjd : j = d.slashes
    · simp only [hjd, if_true, Option.isSome_map, List.mem_append, List.mem_singleton, true_and]
      constructor
      · rintro (hnext | hroot | ⟨other, hmem, hnext⟩)
        · exact Or.inr ⟨file, Or.inr rfl, hnext⟩
        · exact Or.inl hroot
        · exact Or.inr ⟨other, Or.inl hmem, hnext⟩
      · rintro (hroot | ⟨other, hmem | rfl, hnext⟩)
        · exact Or.inr (Or.inl hroot)
        · exact Or.inr (Or.inr ⟨other, hmem, hnext⟩)
        · exact Or.inl hnext
    · simp [hjd]

/-- What a directory of the tree lists. -/
theorem Lies.getD_get?_dirs (h : package.Lies d tree) (hj : IsRoot j) (hd : Names dir) :
    (Assoc.get? (ofNames j dir) tree.dirs).getD []
      = if j = d.slashes then
          package.files.foldl
            (fun listing file => relist dir listing (d.names ++ file.1.names)) []
        else [] := by
  refine h.induction
    (P := fun files tree => (Assoc.get? (ofNames j dir) tree.dirs).getD []
      = if j = d.slashes then
          files.foldl (fun listing file => relist dir listing (d.names ++ file.1.names)) []
        else []) ?_ ?_
  · have hempty : (Assoc.get? (ofNames j dir) MemoryTree.empty.dirs).getD [] = [] := by
      simp only [empty, Assoc.get?]
      split <;> rfl
    rw [hempty]
    split <;> rfl
  · intro files file before after hfile hwrite hbefore
    have hne : d.names ++ file.1.names ≠ [] := by simp [package.named file hfile]
    rw [get?_dirs_write hwrite d.isRoot (d.names_within file.1) (d.normalize_at file.1) hne hj hd]
    by_cases hjd : j = d.slashes
    · rw [if_pos hjd] at hbefore ⊢
      rw [if_pos hjd, List.foldl_append, List.foldl_cons, List.foldl_nil, ← hbefore, relist]
      cases nextAfter dir (d.names ++ file.1.names) <;> rfl
    · rw [if_neg hjd] at hbefore ⊢
      rw [if_neg hjd]
      exact hbefore

/-! ### What its tree answers -/

theorem names_eq_getD (tree : MemoryTree) (path : String) :
    tree.toFileTree.names path = (Assoc.get? (normalize path) tree.dirs).getD [] := by
  change ((tree.entries path).toOption).getD [] = _
  rw [entries]
  cases Assoc.get? (normalize path) tree.dirs <;> rfl

theorem Lies.text?_at (h : package.Lies d tree) (i : Inner) :
    tree.toFileTree.text? (d.at i) = if i.slash then none else package.text? i.names := by
  have hget := h.get?_files i.isNames
  have hslash : namesDirectory (d.at i) = i.slash := by
    rw [Bool.eq_iff_iff, namesDirectory, decide_eq_true_iff, d.getLast?_at]
  refine Option.ext fun text => ?_
  rw [FileTree.text?_eq_some]
  change tree.contents (d.at i) = .ok text ↔ _
  rw [contents_eq_ok_iff, d.normalize_at, hget, hslash]
  cases i.slash <;> simp

theorem Lies.isDir_of_normalize (h : package.Lies d tree) {path : String} (hd : Names dir)
    (hpath : normalize path = ofNames d.slashes dir) :
    tree.toFileTree.isDir path = true
      ↔ (d.slashes = 1 ∧ dir = []) ∨
          ∃ file ∈ package.files, (nextAfter dir (d.names ++ file.1.names)).isSome = true := by
  change Assoc.hasKey (normalize path) tree.dirs = true ↔ _
  rw [hpath, h.hasKey_dirs d.isRoot hd]
  simp

theorem Lies.names_of_normalize (h : package.Lies d tree) {path : String} (hd : Names dir)
    (hpath : normalize path = ofNames d.slashes dir) :
    tree.toFileTree.names path
      = package.files.foldl
          (fun listing file => relist dir listing (d.names ++ file.1.names)) [] := by
  rw [names_eq_getD, hpath, h.getD_get?_dirs d.isRoot hd, if_pos rfl]

/-- Some names below the directory. -/
theorem Lies.isDir_within (h : package.Lies d tree) (hne : package.files ≠ []) {path : String}
    (hd : Names dir) (hpath : normalize path = ofNames d.slashes (d.names ++ dir)) :
    tree.toFileTree.isDir path = package.isDir dir := by
  rw [Bool.eq_iff_iff, h.isDir_of_normalize (d.isNames.append hd) hpath, isDir,
    List.any_eq_true]
  simp only [nextAfter_append]
  refine ⟨fun hor => hor.elim (fun hroot => ?_) id, Or.inr⟩
  obtain ⟨file, hfile⟩ := List.exists_mem_of_ne_nil _ hne
  obtain ⟨-, rfl⟩ := List.append_eq_nil_iff.mp hroot.2
  refine ⟨file, hfile, ?_⟩
  obtain ⟨s, rest, hnames⟩ := List.exists_cons_of_ne_nil (package.named file hfile)
  rw [hnames]
  rfl

theorem Lies.names_within (h : package.Lies d tree) {path : String}
    (hd : Names dir) (hpath : normalize path = ofNames d.slashes (d.names ++ dir)) :
    tree.toFileTree.names path = package.listing dir := by
  rw [h.names_of_normalize (d.isNames.append hd) hpath]
  simp only [relist, nextAfter_append]
  rfl

theorem Lies.isDir_at (h : package.Lies d tree) (hne : package.files ≠ []) (i : Inner) :
    tree.toFileTree.isDir (d.at i) = package.isDir i.names :=
  h.isDir_within hne i.isNames (d.normalize_at i)

theorem Lies.names_at (h : package.Lies d tree) (i : Inner) :
    tree.toFileTree.names (d.at i) = package.listing i.names :=
  h.names_within i.isNames (d.normalize_at i)

theorem Lies.isThere_at (h : package.Lies d tree) (hne : package.files ≠ []) (i : Inner) :
    tree.toFileTree.isThere (d.at i)
      = (!i.slash && (package.text? i.names).isSome || package.isDir i.names) := by
  have hslash : namesDirectory (d.at i) = i.slash := by
    rw [Bool.eq_iff_iff, namesDirectory, decide_eq_true_iff, d.getLast?_at]
  have hdir : tree.isDir (d.at i) = package.isDir i.names := h.isDir_at hne i
  change tree.isThere (d.at i) = _
  rw [isThere, hslash, d.normalize_at, Assoc.hasKey, h.get?_files i.isNames, hdir]

/-! ### The package directory and what is above it -/

theorem normalize_path (d : Dir) : normalize d.path = ofNames d.slashes (d.names ++ []) := by
  rw [Dir.path, normalize_ofNames d.isRoot d.isNames, List.append_nil]

theorem isDir_root (hne : package.files ≠ []) : package.isDir [] = true := by
  obtain ⟨file, hfile⟩ := List.exists_mem_of_ne_nil _ hne
  obtain ⟨s, rest, hnames⟩ := List.exists_cons_of_ne_nil (package.named file hfile)
  refine List.any_eq_true.mpr ⟨file, hfile, ?_⟩
  rw [hnames]
  rfl

theorem Lies.isDir_path (h : package.Lies d tree) (hne : package.files ≠ []) :
    tree.toFileTree.isDir d.path = true := by
  rw [h.isDir_within hne names_nil (normalize_path d), isDir_root hne]

theorem Lies.names_path (h : package.Lies d tree) :
    tree.toFileTree.names d.path = package.listing [] :=
  h.names_within names_nil (normalize_path d)

theorem Lies.isThere_path (h : package.Lies d tree) (hne : package.files ≠ []) :
    tree.toFileTree.isThere d.path = true := by
  have hdir : tree.isDir d.path = true := h.isDir_path hne
  change tree.isThere d.path = true
  rw [isThere, hdir, Bool.or_true]

/-- A path whose normal form is not that of a file cannot be read. -/
theorem Lies.text?_eq_none (h : package.Lies d tree) {path : String} {names : List Segment}
    (hn : Names names) (hpath : normalize path = ofNames d.slashes names)
    (hout : ∀ file ∈ package.files, names ≠ d.names ++ file.1.names) :
    tree.toFileTree.text? path = none := by
  refine FileTree.text?_eq_none.mpr ?_
  rintro ⟨text, htext⟩
  obtain ⟨hget, -⟩ := contents_eq_ok_iff.mp (htext : tree.contents path = .ok text)
  obtain ⟨file, hfile, heq⟩ := h.file_within (Assoc.hasKey_iff_get?.mpr ⟨text, hget⟩)
  rw [hpath, ofNames_inj d.isRoot.le hn d.isRoot.le (d.names_within file.1)] at heq
  exact hout file hfile heq.2

theorem Lies.text?_path (h : package.Lies d tree) : tree.toFileTree.text? d.path = none := by
  refine h.text?_eq_none d.isNames (normalize_ofNames d.isRoot d.isNames) ?_
  intro file hfile heq
  exact package.named file hfile (by simpa using heq)

theorem ofSegments_append_last (k : Nat) (front : List Segment) (s ending : Segment) :
    ofSegments k (front ++ [s]) ++ ending = ofSegments k (front ++ [s ++ ending]) := by
  by_cases hfront : front = []
  · subst hfront
    simp [ofSegments, List.intercalate]
  · rw [ofSegments_concat hfront, ofSegments_concat hfront]
    simp

/-- Beside the package directory there is nothing. -/
theorem Lies.text?_beside (h : package.Lies d tree) (hroot : d.names ≠ []) {ending : String}
    (hending : IsName ending.toList) : tree.toFileTree.text? (d.path ++ ending) = none := by
  obtain ⟨front, s, hnames, hfront, hs⟩ := d.isNames.exists_concat hroot
  have hlast : IsName (s ++ ending.toList) := hending.append hs.no_slash
  have hall : Names (front ++ [s ++ ending.toList]) := hfront.concat hlast
  have hpath : d.path ++ ending = ofNames d.slashes (front ++ [s ++ ending.toList]) := by
    refine String.toList_inj.mp ?_
    rw [String.toList_append, Dir.path, toList_ofNames, toList_ofNames, hnames,
      ofSegments_append_last]
  refine h.text?_eq_none hall (by rw [hpath, normalize_ofNames d.isRoot hall]) ?_
  intro file _ heq
  rw [hnames, List.append_assoc, List.append_cancel_left_eq, List.singleton_append,
    List.cons.injEq] at heq
  exact hending.ne_nil (by simpa using heq.1)

/-- The directories above list the next name on the way. -/
theorem Lies.above (h : package.Lies d tree) (hne : package.files ≠ []) {front rest : List Segment}
    {s : Segment} (hnames : d.names = front ++ s :: rest) {path : String}
    (hpath : normalize path = ofNames d.slashes front) :
    tree.toFileTree.isDir path = true ∧ tree.toFileTree.names path = [String.ofList s] := by
  have hfront : Names front := (names_append.mp (hnames ▸ d.isNames)).1
  have hnext : ∀ names, nextAfter front (d.names ++ names) = some s := fun names =>
    nextAfter_eq_some.mpr ⟨rest ++ names, by simp [hnames]⟩
  refine ⟨?_, ?_⟩
  · obtain ⟨file, hfile⟩ := List.exists_mem_of_ne_nil _ hne
    exact (h.isDir_of_normalize hfront hpath).mpr
      (Or.inr ⟨file, hfile, by rw [hnext]; rfl⟩)
  · rw [h.names_of_normalize hfront hpath]
    simp only [relist, hnext]
    have hfold : ∀ files : List (Inner × String),
        files.foldl (fun listing _ => addName (String.ofList s) listing) [String.ofList s]
          = [String.ofList s] := by
      intro files
      induction files with
      | nil => rfl
      | cons file files ih =>
        have hadd : addName (String.ofList s) [String.ofList s] = [String.ofList s] := by
          simp [addName]
        rw [List.foldl_cons, hadd, ih]
    cases hfiles : package.files with
    | nil => exact absurd hfiles hne
    | cons file files =>
      rw [List.foldl_cons]
      exact hfold files

/-- The tree has a directory for every name on the way to a file. -/
theorem Lies.length_le_depth (h : package.Lies d tree) {file : Inner × String}
    (hfile : file ∈ package.files) :
    d.names.length + file.1.names.length ≤ tree.toFileTree.depth := by
  have hall := d.names_within file.1
  rw [← List.length_append]
  refine length_le_dirs d.isRoot hall (Nat.le_succ _) fun m hm => ?_
  have hfront : Names ((d.names ++ file.1.names).take m) := fun s hs =>
    hall s (List.take_subset _ _ hs)
  rw [h.hasKey_dirs d.isRoot hfront]
  refine Or.inr ⟨rfl, file, hfile, Option.isSome_iff_exists.mpr
    ⟨(d.names ++ file.1.names).get ⟨m, hm⟩, ?_⟩⟩
  exact nextAfter_eq_some.mpr ⟨(d.names ++ file.1.names).drop (m + 1), by simp⟩

/-- The directories of the tree are enough for a walk from the root through the longest way. -/
theorem Lies.height_le (h : package.Lies d tree) (hne : package.files ≠ []) :
    d.names.length + package.height ≤ tree.toFileTree.depth := by
  obtain ⟨file, hfile⟩ := List.exists_mem_of_ne_nil _ hne
  have hdir := h.length_le_depth hfile
  have hheight : package.height ≤ tree.toFileTree.depth - d.names.length := by
    refine List.max_le_of_forall_le _ _ fun length hmem => ?_
    obtain ⟨other, hother, rfl⟩ := List.mem_map.mp hmem
    have := h.length_le_depth hother
    omega
  omega

end Package

end PackageLint
