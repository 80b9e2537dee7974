import PackageLint.Proofs.InnerReadings
import PackageLint.Proofs.Searches

/-!
# What a list of all files tells

A list of files is asked two things: whether it has a path, and whether some file of it starts with a
path, both compared as texts. With all files of a tree in the list the answers tell what the tree holds,
as long as the paths are in normal form, up to a slash at their end: a file that can be read is in the
list, and for every directory the list has a file below it.

The second rests on an invariant of trees in memory. Directories come into being with a file below them
and are never removed, so that every name that a directory lists is the next one on the way to a file.

## Main definitions

* `Path.IsInner` — a path within some directory, in normal form up to a slash at its end

## Main results

* `MemoryTree.Reachable.file_of_listed`, `MemoryTree.Reachable.file_of_dir` — the invariant
* `MemoryTree.hasKey_of_readable` — files that can be read are in the list
* `MemoryTree.Reachable.exists_hasStart` — what is there is told by the start of a file
* `MemoryTree.Reachable.found_listing` — a walk that is led by the list finds what any walk finds
-/

namespace PackageLint

/-! ### Paths within directories -/

namespace Path

/-- A path within some directory. -/
def IsInner (path : String) : Prop := ∃ (d : Dir) (i : Inner), path = d.at i

/-- What is put below a path is put below its normal form. -/
theorem join_normalize (base part : String) : join (normalize base) part = join base part := by
  refine String.toList_inj.mp ?_
  rw [toList_join, toList_join, joinChars_eq, joinChars_eq, normalize, String.toList_ofList,
    normalizeChars_appendPart _ (head?_stripLeading '/' part.toList)]

/-- The empty text, put below a path, is its normal form. -/
theorem join_empty (base : String) : join base "" = normalize base := by
  refine String.toList_inj.mp ?_
  rw [toList_join, joinChars_eq, if_neg (by decide)]
  exact (normalizeChars_trailing base.toList).trans String.toList_ofList.symm

/-- A value that descends, put below a path from a root, is a path within that. -/
theorem exists_join_eq_at {base value : String} (h : isRooted base = true) (hv : Descends value) :
    ∃ d : Dir, join base value = d.at (.ofValue value hv) := by
  obtain ⟨k, names, hk, hnames, hnormal⟩ := normalize_eq_ofNames (isRooted_iff.mp h)
  refine ⟨⟨k, names, hk, hnames⟩, ?_⟩
  rw [← join_normalize, hnormal, ← Dir.join_eq_at _ hv]
  rfl

/-- What is put below a path from a root is a path within the root. -/
theorem isInner_join {base : String} (h : isRooted base = true) (part : String) :
    IsInner (join base part) := by
  let below := appendPart base.toList (Text.stripLeading '/' part.toList)
  have hroot : rootSlashes (String.ofList below).toList ≠ 0 := by
    rw [String.toList_ofList, rootSlashes_appendPart _ (head?_stripLeading '/' part.toList)]
    exact isRooted_iff.mp h
  obtain ⟨k, names, hk, hnames, hnormal⟩ := normalize_eq_ofNames hroot
  have hchars : normalizeChars below = ofSegments k names := by
    simpa [normalize] using congrArg String.toList hnormal
  let d : Dir := { slashes := k, names := [], isRoot := hk, isNames := names_nil }
  by_cases hnone : names = [] ∧ part.toList.getLast? ≠ some '/'
  · -- the root itself has the form of a directory
    refine ⟨d, { names := [], slash := true, isNames := names_nil, leads := Or.inr rfl }, ?_⟩
    refine String.toList_inj.mp ?_
    rw [toList_join, joinChars_eq, if_neg hnone.2, Dir.toList_at_eq, if_pos rfl]
    change normalizeChars below = _
    rw [hchars, hnone.1]
    rcases hk with rfl | rfl <;> decide
  · refine ⟨d, { names, slash := part.toList.getLast? = some '/', isNames := hnames, leads := ?_ }, ?_⟩
    · rw [decide_eq_true_eq]
      tauto
    · refine String.toList_inj.mp ?_
      have hd : ofSegments d.slashes (d.names ++ names) = normalizeChars below := hchars.symm
      rw [toList_join, joinChars_eq, Dir.toList_at_eq, hd]
      simp only [decide_eq_true_eq]
      rfl

/-- The files that legacy resolution tries in place of a path are paths within directories too. -/
theorem IsInner.candidates {path : String} (h : IsInner path) :
    ∀ candidate ∈ Context.candidates path Context.legacyExtensions, IsInner candidate := by
  obtain ⟨d, i, rfl⟩ := h
  obtain ⟨j, hj⟩ := exists_at_append i isName_script
  have hscript : Context.extend (d.at i) ".js" = d.at j := by
    rw [← hj]
    simp [Context.extend, Text.hasStart]
  intro candidate hmem
  simp only [Context.candidates, Context.legacyExtensions, List.map_cons, List.map_nil,
    List.mem_cons, List.not_mem_nil, or_false] at hmem
  rcases hmem with rfl | rfl | rfl
  · exact ⟨d, i, rfl⟩
  · exact ⟨d, j, hscript⟩
  · exact ⟨d, _, d.extend_index i⟩

end Path

namespace MemoryTree

open PackageLint.Path

variable {tree : MemoryTree}

/-! ### The way to a file -/

/-- What the way to a path lists in a directory: the empty name in a root that is the path itself, or
the name that follows the directory. -/
theorem next_of_lineage {k j : Nat} {names dir : List Segment} {name : String} (hk : IsRoot k)
    (hnames : Names names) (hj : IsRoot j) (hdir : Names dir)
    (h : Assoc.get? (ofNames j dir) (lineage (ofNames k names)) = some name) :
    j = k ∧ ((names = [] ∧ dir = [] ∧ name = "")
      ∨ ∃ s rest, names = dir ++ s :: rest ∧ name = String.ofList s) := by
  by_cases hnone : names = []
  · subst hnone
    rw [lineage_root hk, Assoc.get?] at h
    split at h
    next heq =>
      obtain ⟨rfl, rfl⟩ := (ofNames_inj hk.le names_nil hj.le hdir).mp heq
      exact ⟨rfl, Or.inl ⟨rfl, rfl, (Option.some.inj h).symm⟩⟩
    next => simp at h
  · rw [get?_lineage hk hnames hnone hj hdir] at h
    split at h
    next hjk =>
      obtain ⟨s, hnext, rfl⟩ := Option.map_eq_some_iff.mp h
      obtain ⟨rest, hrest⟩ := nextAfter_eq_some.mp hnext
      exact ⟨hjk, Or.inr ⟨s, rest, hrest, rfl⟩⟩
    next => simp at h

/-- Every name that a directory lists is the next one on the way to a file. -/
theorem Reachable.file_of_listed (h : tree.Reachable) {dir name : String} {listing : List String}
    (hget : Assoc.get? dir tree.dirs = some listing) (hmem : name ∈ listing) :
    ∃ path, Assoc.hasKey path tree.files = true ∧ Assoc.get? dir (lineage path) = some name := by
  induction h generalizing listing with
  | empty =>
    have hentry := Assoc.mem_of_get? hget
    obtain ⟨-, rfl⟩ : dir = "/" ∧ listing = [] := by simpa [MemoryTree.empty] using hentry
    simp at hmem
  | write _ hw ih =>
    rcases listed_write hw hget hmem with ⟨old, hold, hmem⟩ | hstep
    · obtain ⟨path, hpath, hstep⟩ := ih hold hmem
      exact ⟨path, (hasKey_files_write hw).mpr (Or.inr hpath), hstep⟩
    · exact ⟨_, (hasKey_files_write hw).mpr (Or.inl rfl), hstep⟩

/-- A name that a directory lists leads to a file: to the directory itself where a root is written to, and
else to a file below it. -/
theorem Reachable.file_of_name (h : tree.Reachable) {dir name : String}
    (hmem : name ∈ tree.toFileTree.names dir) :
    ∃ k names, IsRoot k ∧ Names names ∧ normalize dir = ofNames k names
      ∧ ((names = [] ∧ name = "" ∧ Assoc.hasKey (ofNames k []) tree.files = true)
        ∨ ∃ s rest, IsName s ∧ name = String.ofList s
            ∧ Assoc.hasKey (ofNames k (names ++ s :: rest)) tree.files = true) := by
  obtain ⟨k, names, hk, hnames, hnormal, -⟩ := h.sound.name_cases hmem
  obtain ⟨listing, hget, hmem⟩ := listing_of_mem_names hmem
  obtain ⟨path, hpath, hstep⟩ := h.file_of_listed hget hmem
  obtain ⟨j, segments, hj, hsegments, rfl⟩ := h.sound.file_normal path hpath
  rw [hnormal] at hstep
  refine ⟨k, names, hk, hnames, hnormal, ?_⟩
  obtain ⟨rfl, ⟨rfl, rfl, rfl⟩ | ⟨s, rest, rfl, rfl⟩⟩ := next_of_lineage hj hsegments hk hnames hstep
  · exact Or.inl ⟨rfl, rfl, hpath⟩
  · exact Or.inr ⟨s, rest, (names_cons.mp (names_append.mp hsegments).2).1, rfl, hpath⟩

/-- Every directory but the root is on the way to a file. -/
theorem Reachable.file_of_dir (h : tree.Reachable) {dir : String}
    (hdir : Assoc.hasKey dir tree.dirs = true) (hne : dir ≠ "/") :
    ∃ path name, Assoc.hasKey path tree.files = true
      ∧ Assoc.get? dir (lineage path) = some name := by
  induction h with
  | empty =>
    have hroot : dir = "/" := by simpa [MemoryTree.empty, Assoc.hasKey_iff_mem, Assoc.keys] using hdir
    exact absurd hroot hne
  | write _ hw ih =>
    rcases (hasKey_dirs_write hw).mp hdir with hstep | hdir
    · obtain ⟨name, hname⟩ := Assoc.hasKey_iff_get?.mp (Assoc.hasKey_iff_mem.mpr hstep)
      exact ⟨_, name, (hasKey_files_write hw).mpr (Or.inl rfl), hname⟩
    · obtain ⟨path, name, hpath, hstep⟩ := ih hdir
      exact ⟨path, name, (hasKey_files_write hw).mpr (Or.inr hpath), hstep⟩

/-! ### Files in the list -/

/-- A path within a directory that can be read is the path of a file. -/
theorem hasKey_of_readable {path : String} (h : IsInner path) (hread : tree.toFileTree.Readable path) :
    Assoc.hasKey path tree.files = true := by
  obtain ⟨d, i, rfl⟩ := h
  obtain ⟨text, htext⟩ := hread
  obtain ⟨hget, hslash⟩ := contents_eq_ok_iff.mp htext
  have hi : i.slash = false := by
    refine Bool.eq_false_iff.mpr fun hi => ?_
    rw [namesDirectory, (d.getLast?_at i).mpr hi] at hslash
    simp at hslash
  rw [d.normalize_at, ← d.at_eq_ofNames i hi] at hget
  exact Assoc.hasKey_iff_get?.mpr ⟨text, hget⟩

/-- What is there, below the root, is a file that starts with its path or has one below it. -/
theorem Reachable.exists_hasStart (h : tree.Reachable) {d : Dir} {i : Inner} (hi : i.names ≠ [])
    (hthere : tree.isThere (d.at i) = true) :
    ∃ path, Assoc.hasKey path tree.files = true ∧ Text.hasStart path (d.at i) = true := by
  have hfull : d.names ++ i.names ≠ [] := by simp [hi]
  rw [isThere, isDir, d.normalize_at, Bool.or_eq_true, Bool.and_eq_true, Bool.not_eq_true'] at hthere
  rcases hthere with ⟨hslash, hfile⟩ | hdir
  · have hi : i.slash = false := by
      refine Bool.eq_false_iff.mpr fun hi => ?_
      rw [namesDirectory, (d.getLast?_at i).mpr hi] at hslash
      simp at hslash
    rw [← d.at_eq_ofNames i hi] at hfile
    exact ⟨_, hfile, List.isPrefixOf_iff_prefix.mpr List.prefix_rfl⟩
  · have hroot : ofNames d.slashes (d.names ++ i.names) ≠ "/" := by
      intro heq
      have hinj := ofNames_inj d.isRoot.le (d.names_within i) (j := 1) (by omega) names_nil
      exact hfull (hinj.mp (heq.trans (by decide))).2
    obtain ⟨path, name, hpath, hstep⟩ := h.file_of_dir hdir hroot
    obtain ⟨k, names, hk, hnames, rfl⟩ := h.sound.file_normal path hpath
    obtain ⟨rfl, ⟨-, hnone, -⟩ | ⟨s, rest, rfl, -⟩⟩ :=
      next_of_lineage hk hnames d.isRoot (d.names_within i) hstep
    · exact absurd hnone hfull
    · refine ⟨_, hpath, List.isPrefixOf_iff_prefix.mpr ?_⟩
      rw [toList_ofNames, d.toList_at_eq]
      split
      · -- a slash behind the directory is the one before the next name
        obtain ⟨front, last, hlast, -, hs⟩ := (d.names_within i).exists_concat hfull
        rw [appendPart_nil (ofSegments_ne_nil d.isRoot _), if_neg (by
          rw [hlast]
          exact getLast?_ofSegments_ne _ front hs)]
        have hnext := ofSegments_append_front d.slashes (d.names ++ i.names ++ [s]) rest
        rw [ofSegments_concat hfull, List.append_assoc, List.singleton_append] at hnext
        refine List.IsPrefix.trans ?_ hnext
        exact ⟨s, by simp⟩
      · exact ofSegments_append_front _ _ _

/-! ### Walks led by the list -/

/-- What a walk finds is a path within a directory. -/
theorem Sound.isInner_of_mem_found (h : tree.Sound) {search : Subpath.Search} {bound : Nat}
    {dir path : String} (hmem : path ∈ tree.toFileTree.found search bound dir) : IsInner path := by
  induction bound generalizing dir with
  | zero => simp [FileTree.found] at hmem
  | succ bound ih =>
    obtain ⟨name, hname, ⟨hmem, -⟩ | ⟨rfl, -⟩⟩ := FileTree.mem_found_succ hmem
    · exact ih hmem
    · obtain ⟨k, names, hk, hnames, hnormal, -⟩ := h.name_cases hname
      refine isInner_join ?_ name
      rw [← isRooted_normalize, hnormal]
      exact isRooted_ofNames hk hnames

/-- What a search finds is a path within a directory. -/
theorem Sound.isInner_of_mem_expanded (h : tree.Sound) {depth : Nat} {search : Subpath.Search}
    {path : String} (hmem : path ∈ tree.toFileTree.expanded depth search) : IsInner path := by
  rw [FileTree.expanded] at hmem
  split at hmem
  · simp at hmem
  · split at hmem
    · exact h.isInner_of_mem_found hmem
    · simp at hmem

/-- What a directory lists leads to a file. -/
theorem Reachable.exists_hasStart_of_listed (h : tree.Reachable) {dir name : String}
    (hmem : name ∈ tree.toFileTree.names dir) :
    ∃ path, Assoc.hasKey path tree.files = true
      ∧ Text.hasStart path (join dir name) = true := by
  obtain ⟨k, names, hk, hnames, hnormal, ⟨rfl, rfl, hpath⟩ | ⟨s, rest, hs, rfl, hpath⟩⟩ :=
    h.file_of_name hmem <;> refine ⟨_, hpath, List.isPrefixOf_iff_prefix.mpr ?_⟩
  · -- the empty name leads to the root again
    rw [join_empty, hnormal]
  · rw [join_name hk hnames hnormal hs, toList_ofNames, toList_ofNames, List.append_cons names s rest]
    exact ofSegments_append_front _ _ _

variable {files : List String}

/-- A walk that is led by a list of all files finds what a walk without a list finds. -/
theorem Reachable.found_listing (h : tree.Reachable)
    (hfiles : ∀ path, Assoc.hasKey path tree.files = true → path ∈ files)
    (search : Subpath.Search) (bound : Nat) (dir : String) :
    tree.toFileTree.found { search with published := some files } bound dir
      = tree.toFileTree.found { search with published := none } bound dir := by
  induction bound generalizing dir with
  | zero => rfl
  | succ bound ih =>
    rw [FileTree.found, FileTree.found]
    refine List.flatMap_congr fun name hmem => ?_
    obtain ⟨path, hpath, hstart⟩ := h.exists_hasStart_of_listed hmem
    have hleads : Subpath.Search.leadsToPublished { search with published := some files }
        (join dir name) = true :=
      List.any_eq_true.mpr ⟨path, hfiles path hpath, hstart⟩
    simp only [hleads, ih]
    rfl

/-- A search that is led by a list of all files finds what a search without a list finds. -/
theorem Reachable.expanded_listing (h : tree.Reachable)
    (hfiles : ∀ path, Assoc.hasKey path tree.files = true → path ∈ files) (depth : Nat)
    (search : Subpath.Search) :
    tree.toFileTree.expanded depth { search with published := some files }
      = tree.toFileTree.expanded depth { search with published := none } := by
  rw [FileTree.expanded, FileTree.expanded]
  cases Pattern.topDir? search.pattern with
  | none => rfl
  | some dir => simp only [h.found_listing hfiles]

end MemoryTree

end PackageLint
