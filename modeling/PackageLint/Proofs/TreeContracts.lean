import PackageLint.FileTree.Disk
import PackageLint.Proofs.MemoryTrees
import PackageLint.Proofs.Reads

/-!
# The contract of file trees

Everything that looks at a package trusts that the answers about a path fit together: a text can be
read from the paths that are there without being directories, and names can be listed from the
directories. Both kinds of trees keep the second half at every path. The first half has one exception
in each.

A tree in memory derives its directories from the ways to its files and does not exclude that a file
was written to the place of a directory. Such a path is read, and is a directory as well.

A disk drops empty and `.` segments of a path before it reads a file, but walks along all segments
otherwise, and no segment leads on from a file. So a file is read also where its path goes on with a
slash, though nothing is there by that path. No other path sets the two walks apart, for on the way
through directories such segments stay in place.

## Main definitions

* `FileTree.ConsistentAt` — the contract at a path
* `MemoryTree.Overlaps` — the paths of files that are directories too
* `Path.endsInPlace` — the paths whose last segment is empty or `.`

## Main results

* `Disk.walk_eq_ok_iff` — the walk along all segments and the one along those that lead somewhere
* `MemoryTree.consistentAt_iff`, `Disk.consistentAt_iff` — the contract of each kind of tree
* `FileTree.contract_iff` — of both
-/

namespace PackageLint

/-- The answers about a path fit together. -/
structure FileTree.ConsistentAt (tree : FileTree) (path : String) : Prop where
  /-- What can be read are the paths that are there and no directories. -/
  readable : (∃ text, tree.contents path = .ok text)
    ↔ tree.isThere path = true ∧ tree.isDir path = false
  /-- What can be listed are the directories. -/
  listable : (∃ names, tree.entries path = .ok names) ↔ tree.isDir path = true

/-! ### Trees in memory -/

namespace MemoryTree

open PackageLint.Path

variable {files : List (String × String)} {tree : MemoryTree} {path : String}

/-- A normal path that was written to as a file, and is the root or leads to another file. -/
def Overlaps (files : List (String × String)) (path : String) : Prop :=
  (∃ file ∈ files, Path.normalize file.1 = path)
    ∧ (path = "/" ∨ ∃ file ∈ files, path ∈ ancestors (Path.normalize file.1))

instance (files : List (String × String)) (path : String) : Decidable (Overlaps files path) :=
  inferInstanceAs (Decidable (_ ∧ _))

theorem keys_lineage (path : String) : Assoc.keys (lineage path) = ancestors path := by
  simp only [Assoc.keys, lineage]
  exact List.map_fst_zip (by simp)

/-- The files of a tree are those that were written. -/
theorem hasKey_files_ofFiles (h : ofFiles files = .ok tree) :
    Assoc.hasKey path tree.files = true ↔ ∃ file ∈ files, Path.normalize file.1 = path := by
  induction files using List.reverseRecOn generalizing tree with
  | nil =>
    obtain rfl : MemoryTree.empty = tree := Except.ok.inj h
    simp [empty, Assoc.hasKey]
  | append_singleton files file ih =>
    obtain ⟨before, hbefore, hw⟩ := ofFiles_concat_eq_ok_iff.mp h
    rw [hasKey_files_write hw, ih hbefore]
    simp only [List.mem_append, List.mem_singleton, or_and_right, exists_or, exists_eq_left]
    rw [or_comm, eq_comm]

/-- The directories of a tree are the root and those above its files. -/
theorem hasKey_dirs_ofFiles (h : ofFiles files = .ok tree) :
    Assoc.hasKey path tree.dirs = true
      ↔ path = "/" ∨ ∃ file ∈ files, path ∈ ancestors (Path.normalize file.1) := by
  induction files using List.reverseRecOn generalizing tree with
  | nil =>
    obtain rfl : MemoryTree.empty = tree := Except.ok.inj h
    simp [empty, Assoc.hasKey_iff_mem, Assoc.keys]
  | append_singleton files file ih =>
    obtain ⟨before, hbefore, hw⟩ := ofFiles_concat_eq_ok_iff.mp h
    rw [hasKey_dirs_write hw, ih hbefore, keys_lineage]
    simp only [List.mem_append, List.mem_singleton, or_and_right, exists_or, exists_eq_left]
    rw [or_comm, or_assoc]

theorem contents_isOk_iff :
    (∃ text, tree.contents path = .ok text)
      ↔ namesDirectory path = false ∧ Assoc.hasKey (Path.normalize path) tree.files = true := by
  simp only [contents_eq_ok_iff, exists_and_right]
  rw [and_comm, Assoc.hasKey_iff_get?]

/-- A tree in memory keeps the contract except where a file is a directory too. -/
theorem consistentAt_iff (h : ofFiles files = .ok tree) (path : String) :
    tree.toFileTree.ConsistentAt path
      ↔ ¬(namesDirectory path = false ∧ Overlaps files (Path.normalize path)) := by
  have hfile : Assoc.hasKey (Path.normalize path) tree.files = true ↔ _ := hasKey_files_ofFiles h
  have hdir : tree.isDir path = true ↔ _ := hasKey_dirs_ofFiles h
  rw [Overlaps, ← hfile, ← hdir]
  have hreadable : (∃ text, tree.contents path = .ok text) ↔ _ := contents_isOk_iff
  constructor
  · rintro ⟨hread, -⟩ ⟨hslash, hkey, hisDir⟩
    have hno := (hread.mp (hreadable.mpr ⟨hslash, hkey⟩)).2
    exact absurd hisDir (Bool.eq_false_iff.mp hno)
  · intro hno
    refine ⟨hreadable.trans ?_, entries_isOk_iff⟩
    change _ ↔ tree.isThere path = true ∧ tree.isDir path = false
    rw [isThere]
    cases hslash : namesDirectory path <;>
      cases hkey : Assoc.hasKey (Path.normalize path) tree.files <;>
        cases hisDir : tree.isDir path <;> simp_all

end MemoryTree

/-! ### Disks -/

namespace Path

/-- Whether a segment leads somewhere. -/
def leads (segment : String) : Bool := segment ≠ "" && segment ≠ "."

/-- Whether the last segment of a path is empty or `.`. -/
def endsInPlace (path : String) : Bool :=
  (Text.splitString '/' path).getLast?.any fun segment => !leads segment

theorem leadingSegments_eq (path : String) :
    leadingSegments path = (Text.splitString '/' path).filter leads := rfl

end Path

namespace Disk

open PackageLint.Path

variable {disk : Disk} {path : String}

theorem walk_file {place : Place} {bytes : List UInt8} {segments : List String} {entry : Entry} :
    disk.walk path (.file place bytes) segments = .ok entry
      ↔ segments = [] ∧ entry = .file place bytes := by
  cases segments <;> simp [walk, eq_comm]

theorem step?_in_place {segment : String} (h : leads segment = false) (dir : Place) :
    disk.step? dir segment = some (.dir dir) := by
  have h : segment = "" ∨ segment = "." := by
    simpa [leads, Classical.or_iff_not_imp_left] using h
  rw [step?, if_pos (by simpa using h)]

/-- The segments that stay in place can be dropped from a walk, as long as it does not end with one
of them at a file. -/
theorem walk_eq_ok_iff (start entry : Entry) (segments : List String) :
    disk.walk path start segments = .ok entry
      ↔ disk.walk path start (segments.filter leads) = .ok entry
        ∧ ((∃ place bytes, entry = .file place bytes) →
            ∀ last ∈ segments.getLast?, leads last = true) := by
  induction segments generalizing start with
  | nil => simp
  | cons segment rest ih =>
    cases hleads : leads segment with
    | false =>
      rw [List.filter_cons_of_neg (by simp [hleads])]
      cases start with
      | file place bytes =>
        -- nothing leads on from a file, and what is left out here ends the path
        rw [walk_file, walk_file]
        simp only [reduceCtorEq, false_and, false_iff, not_and, and_imp]
        rintro hnone rfl hlast
        have hall : ∀ s ∈ segment :: rest, leads s = false := by
          intro s hs
          rcases List.mem_cons.mp hs with rfl | hs
          · exact hleads
          · exact Bool.eq_false_iff.mpr (List.filter_eq_nil_iff.mp hnone s hs)
        obtain ⟨last, hmem⟩ : ∃ last, (segment :: rest).getLast? = some last :=
          ⟨_, List.getLast?_eq_some_getLast (List.cons_ne_nil _ _)⟩
        have hfalse := hall last (List.mem_of_getLast? hmem)
        rw [hlast ⟨place, bytes, rfl⟩ last hmem] at hfalse
        exact absurd hfalse (by decide)
      | dir dir =>
        rw [walk, step?_in_place hleads]
        simp only
        rw [ih]
        cases rest with
        | nil =>
          -- the walk ends in the directory, so it is at no file
          simp only [List.filter_nil, walk, Except.ok.injEq]
          refine and_congr_right fun hentry => ?_
          subst hentry
          simp
        | cons next rest => rw [List.getLast?_cons_cons]
    | true =>
      rw [List.filter_cons_of_pos hleads]
      cases start with
      | file place bytes => simp [walk_file]
      | dir dir =>
        rw [walk, walk]
        cases disk.step? dir segment with
        | none => simp
        | some next =>
          simp only
          rw [ih]
          cases rest with
          | nil => simp [hleads]
          | cons second rest => rw [List.getLast?_cons_cons]

/-- A text is read from the files that the tidy path leads to. -/
theorem contents_isOk_iff :
    (∃ text, disk.contents path = .ok text)
      ↔ ∃ place bytes, disk.findTidy path = .ok (.file place bytes) := by
  rw [contents, Disk.bytes]
  cases disk.findTidy path with
  | error e => simp [Except.map]
  | ok entry => cases entry <;> simp [Except.map]

theorem isThere_not_isDir_iff :
    disk.isThere path = true ∧ disk.isDir path = false
      ↔ ∃ place bytes, disk.find path = .ok (.file place bytes) := by
  rw [isThere, isDir]
  cases disk.find path with
  | error e => simp
  | ok entry => cases entry <;> simp

theorem entries_isOk_iff :
    (∃ names, disk.entries path = .ok names) ↔ disk.isDir path = true := by
  rw [entries, isDir]
  cases disk.find path with
  | error e => simp
  | ok entry => cases entry <;> simp

theorem endsInPlace_eq_false_iff :
    endsInPlace path = false
      ↔ ∀ last ∈ (Text.splitString '/' path).getLast?, leads last = true := by
  rw [endsInPlace]
  cases (Text.splitString '/' path).getLast? <;> simp

/-- A path leads to a file when it does so tidied, and its last segment is not dropped then. -/
theorem find_eq_file_iff {place : Place} {bytes : List UInt8} :
    disk.find path = .ok (.file place bytes)
      ↔ disk.findTidy path = .ok (.file place bytes) ∧ endsInPlace path = false := by
  rw [find, findTidy, leadingSegments_eq]
  by_cases hempty : path = ""
  · -- the empty path is tidied to one that stays where it starts
    subst hempty
    have hnone : (Text.splitString '/' "").filter leads = [] := by decide
    rw [if_pos rfl, if_neg (by decide), hnone, walk]
    simp [startOf]
  · rw [if_neg hempty]
    cases holdsNul path with
    | true => simp
    | false =>
      simp only [Bool.false_eq_true, if_false]
      rw [walk_eq_ok_iff, endsInPlace_eq_false_iff]
      simp

/-- A disk keeps the contract except where it reads a file by a path that goes on after it. -/
theorem consistentAt_iff (disk : Disk) (path : String) :
    disk.toFileTree.ConsistentAt path
      ↔ ¬((∃ text, disk.contents path = .ok text) ∧ endsInPlace path = true) := by
  have hreadable : (∃ text, disk.contents path = .ok text) ↔ _ := contents_isOk_iff
  have hthere : disk.isThere path = true ∧ disk.isDir path = false
      ↔ (∃ text, disk.contents path = .ok text) ∧ endsInPlace path = false := by
    rw [isThere_not_isDir_iff, hreadable]
    simp only [find_eq_file_iff, exists_and_right]
  constructor
  · rintro ⟨hread, -⟩ ⟨htext, hends⟩
    have hno := (hthere.mp (hread.mp htext)).2
    rw [hends] at hno
    exact absurd hno (by decide)
  · intro hno
    refine ⟨?_, entries_isOk_iff⟩
    change (∃ text, disk.contents path = .ok text)
      ↔ disk.isThere path = true ∧ disk.isDir path = false
    rw [hthere]
    refine ⟨fun htext => ⟨htext, ?_⟩, And.left⟩
    exact Bool.eq_false_iff.mpr fun hends => hno ⟨htext, hends⟩

end Disk

/-! ### Both -/

/-- The contract of file trees, for a tree in memory after any writes and for any disk: it holds at
every path, except at the files in memory that are directories too, and at the files on the disk whose
path ends with a slash or a `.` segment. -/
theorem FileTree.contract_iff {files : List (String × String)} {tree : MemoryTree}
    (h : MemoryTree.ofFiles files = .ok tree) (disk : Disk) (path : String) :
    (tree.toFileTree.ConsistentAt path
        ↔ ¬(MemoryTree.namesDirectory path = false
            ∧ MemoryTree.Overlaps files (Path.normalize path)))
      ∧ (disk.toFileTree.ConsistentAt path
        ↔ ¬((∃ text, disk.contents path = .ok text) ∧ Path.endsInPlace path = true)) :=
  ⟨MemoryTree.consistentAt_iff h path, disk.consistentAt_iff path⟩

/-- A file in memory that is the directory of another one, and a file on a disk that is read in spite
of a slash behind its name. -/
theorem FileTree.overlap_and_slash_inconsistent :
    ∃ tree, MemoryTree.ofFiles [("/a", "1"), ("/a/b", "2")] = .ok tree
      ∧ ¬tree.toFileTree.ConsistentAt "/a"
      ∧ ¬(Disk.toFileTree { files := [(["a"], [0x78])] }).ConsistentAt "/a/" := by
  obtain ⟨tree, h⟩ : ∃ tree, MemoryTree.ofFiles [("/a", "1"), ("/a/b", "2")] = .ok tree := ⟨_, rfl⟩
  refine ⟨tree, h, ?_, ?_⟩
  · rw [(FileTree.contract_iff h {} "/a").1, not_not]
    decide
  · rw [(FileTree.contract_iff h { files := [(["a"], [0x78])] } "/a/").2, not_not]
    exact ⟨⟨_, rfl⟩, by decide⟩

end PackageLint
