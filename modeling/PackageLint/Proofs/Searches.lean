import PackageLint.Proofs.MemoryTrees
import PackageLint.Proofs.Reads
import PackageLint.Subpath.Expand

/-!
# What a search finds

A search lists directories only, so on a tree that can list what it says are directories a search
never fails, and what it finds is a function of the tree. On trees in memory everything that is found
is a file that can be read: a directory lists only what is there, and what is there and no directory
is a file.

## Main definitions

* `FileTree.ListsDirs` — every directory can be listed
* `FileTree.found`, `FileTree.expanded` — what a walk and a search find

## Main results

* `Subpath.run_walk`, `Subpath.run_expand` — searches find that, and do not fail
* `MemoryTree.Sound.readable_of_mem_expanded` — what is found can be read
-/

namespace PackageLint

namespace FileTree

/-- Whether every directory can be listed. -/
def ListsDirs (tree : FileTree) : Prop :=
  ∀ dir, tree.isDir dir = true → ∃ names, tree.entries dir = .ok names

/-- The names in a directory; none where there is no directory. -/
def names (tree : FileTree) (dir : String) : List String := ((tree.entries dir).toOption).getD []

/-- The files that a walk through a directory finds. The bound counts nested directories. -/
def found (tree : FileTree) (search : Subpath.Search) : Nat → String → List String
  | 0, _ => []
  | bound + 1, dir =>
    (tree.names dir).flatMap fun name =>
      let path := Path.join dir name
      if search.leadsToPublished path then
        if tree.isDir path then
          if search.skipped.contains name then [] else tree.found search bound path
        else if search.finds path then [path] else []
      else []

/-- The files of a pattern. -/
def expanded (tree : FileTree) (depth : Nat) (search : Subpath.Search) : List String :=
  match Pattern.topDir? search.pattern with
  | none => []
  | some dir => if tree.isDir dir then tree.found search depth dir else []

/-- What a walk comes upon under one name of a directory. -/
theorem mem_found_succ {tree : FileTree} {search : Subpath.Search} {bound : Nat}
    {dir path : String} (h : path ∈ tree.found search (bound + 1) dir) :
    ∃ name ∈ tree.names dir,
      path ∈ tree.found search bound (Path.join dir name) ∧ tree.isDir (Path.join dir name) = true
        ∨ path = Path.join dir name ∧ tree.isDir path = false ∧ search.finds path = true := by
  obtain ⟨name, hname, hpath⟩ := List.mem_flatMap.mp h
  refine ⟨name, hname, ?_⟩
  simp only at hpath
  split at hpath
  · cases hdir : tree.isDir (Path.join dir name) with
    | true =>
      rw [if_pos hdir] at hpath
      split at hpath
      · simp at hpath
      · exact Or.inl ⟨hpath, rfl⟩
    | false =>
      rw [if_neg (by simp [hdir])] at hpath
      split at hpath
      next hfinds =>
        obtain rfl := List.mem_singleton.mp hpath
        exact Or.inr ⟨rfl, hdir, hfinds⟩
      next => simp at hpath
  · simp at hpath

end FileTree

namespace Subpath

variable {tree : FileTree} {α β : Type}

theorem run_collect {f : α → Check (List β)} {g : α → List β} {items : List α}
    (h : ∀ a ∈ items, (f a).run tree = ⟨[], .ok (g a)⟩) :
    (collect f items).run tree = ⟨[], .ok (items.flatMap g)⟩ := by
  induction items with
  | nil => rfl
  | cons a rest ih =>
    obtain ⟨ha, hrest⟩ := List.forall_mem_cons.mp h
    rw [collect, Check.bind_eq, Check.run_bind_of_quiet ha, Check.bind_eq,
      Check.run_bind_of_quiet (ih hrest)]
    rfl

/-- A walk through a directory finds its files, and does not fail. -/
theorem run_walk (h : tree.ListsDirs) (search : Search) (bound : Nat) {dir : String}
    (hd : tree.isDir dir = true) :
    (walk search bound dir).run tree = ⟨[], .ok (tree.found search bound dir)⟩ := by
  induction bound generalizing dir with
  | zero => rfl
  | succ bound ih =>
    obtain ⟨names, hnames⟩ := h dir hd
    have hread : (Check.readDir dir).run tree = ⟨[], .ok names⟩ := by
      simp [Check.readDir, Check.run, FileTree.answer, hnames]
    rw [walk, Check.bind_eq, Check.run_bind_of_quiet hread, FileTree.found, FileTree.names, hnames]
    refine run_collect fun name _ => ?_
    simp only
    split
    · rw [Check.bind_eq, Check.run_isDir_bind]
      split
      next hdir =>
        split
        · rfl
        · exact ih hdir
      next => split <;> rfl
    · rfl

/-- A search finds the files of its pattern, and does not fail. -/
theorem run_expand (h : tree.ListsDirs) (depth : Nat) (search : Search) :
    (expand depth search).run tree = ⟨[], .ok (tree.expanded depth search)⟩ := by
  rw [expand, FileTree.expanded]
  cases Pattern.topDir? search.pattern with
  | none => rfl
  | some dir =>
    simp only [Check.bind_eq, Check.run_isDir_bind]
    split
    next hdir => exact run_walk h search depth hdir
    next => rfl

variable {P : Diagnostic → Prop}

theorem only_collect {f : α → Check (List β)} (h : ∀ a, (f a).Only P) (items : List α) :
    (collect f items).Only P := by
  induction items with
  | nil => exact .done trivial
  | cons a rest ih => exact (h a).bind fun _ _ => ih.bind fun _ _ => .done trivial

/-- Searches report nothing. -/
theorem only_walk (search : Search) (bound : Nat) (dir : String) :
    (walk search bound dir).Only P := by
  induction bound generalizing dir with
  | zero => exact .done trivial
  | succ bound ih =>
    refine (Check.only_readDir dir).bind fun names _ => only_collect (fun name => ?_) names
    simp only
    split
    · refine (Check.only_isDir _).bind fun isDir _ => ?_
      split
      · split
        · exact .done trivial
        · exact ih _
      · split <;> exact .done trivial
    · exact .done trivial

theorem only_expand (depth : Nat) (search : Search) : (expand depth search).Only P := by
  rw [expand]
  split
  · exact .done trivial
  · refine (Check.only_isDir _).bind fun isDir _ => ?_
    split
    · exact only_walk search depth _
    · exact .done trivial

end Subpath

/-! ### Trees in memory -/

namespace MemoryTree

theorem listsDirs (tree : MemoryTree) : tree.toFileTree.ListsDirs := by
  intro dir hd
  obtain ⟨names, hnames⟩ := Assoc.hasKey_iff_get?.mp (hd : tree.isDir dir = true)
  refine ⟨names, ?_⟩
  change tree.entries dir = _
  rw [entries, hnames]

/-- The names in a directory are those that it lists. -/
theorem listing_of_mem_names {tree : MemoryTree} {dir name : String}
    (h : name ∈ tree.toFileTree.names dir) :
    ∃ listing, Assoc.get? (Path.normalize dir) tree.dirs = some listing ∧ name ∈ listing := by
  change name ∈ ((tree.entries dir).toOption).getD [] at h
  rw [entries] at h
  cases hget : Assoc.get? (Path.normalize dir) tree.dirs with
  | none => simp [hget, Except.toOption] at h
  | some listing => exact ⟨listing, rfl, by simpa [hget, Except.toOption] using h⟩

/-- What is listed is the empty name, in a root, or the name of a file or directory. -/
theorem Sound.name_cases {tree : MemoryTree} (h : tree.Sound) {dir name : String}
    (hmem : name ∈ tree.toFileTree.names dir) :
    ∃ k names, Path.IsRoot k ∧ Path.Names names ∧ Path.normalize dir = Path.ofNames k names
      ∧ ((names = [] ∧ name = "")
        ∨ ∃ s, Path.IsName s ∧ name = String.ofList s ∧ tree.Holds (Path.ofNames k (names ++ [s]))) := by
  obtain ⟨listing, hget, hmem⟩ := listing_of_mem_names hmem
  obtain ⟨k, names, hk, hnames, hnormal⟩ :=
    h.dir_normal _ (Assoc.hasKey_iff_get?.mpr ⟨listing, hget⟩)
  exact ⟨k, names, hk, hnames, hnormal, h.listed k names listing name hk hnames (hnormal ▸ hget) hmem⟩

/-- What is listed and is no directory can be read. -/
theorem Sound.readable_of_listed {tree : MemoryTree} (h : tree.Sound) {dir name : String}
    (hmem : name ∈ tree.toFileTree.names dir)
    (hd : tree.toFileTree.isDir (Path.join dir name) = false) :
    tree.toFileTree.Readable (Path.join dir name) := by
  have hdir : Assoc.hasKey (Path.normalize (Path.join dir name)) tree.dirs = false := hd
  obtain ⟨k, names, hk, hnames, hnormal, ⟨rfl, rfl⟩ | ⟨s, hs, rfl, hholds⟩⟩ := h.name_cases hmem
  · -- the empty name leads to the directory itself
    obtain ⟨listing, hget, -⟩ := listing_of_mem_names hmem
    have hself : Path.normalize (Path.join dir "") = Path.normalize dir := by
      rw [Path.normalize_join, Path.normalize]
      exact congrArg String.ofList (Path.normalizeChars_trailing dir.toList)
    rw [hself, Assoc.hasKey_iff_get?.mpr ⟨listing, hget⟩] at hdir
    simp at hdir
  · have hall : Path.Names (names ++ [s]) := hnames.concat hs
    have hjoin := Path.join_name hk hnames hnormal hs
    rw [hjoin, Path.normalize_ofNames hk hall] at hdir
    obtain ⟨content, hcontent⟩ :=
      Assoc.hasKey_iff_get?.mp (hholds.resolve_right (by simp [hdir]))
    have hlast : namesDirectory (Path.ofNames k (names ++ [s])) = false := by
      simpa [namesDirectory] using Path.getLast?_ofSegments_ne k names hs
    rw [hjoin]
    exact ⟨content, contents_eq_ok_iff.mpr
      ⟨by rw [Path.normalize_ofNames hk hall, hcontent], hlast⟩⟩

/-- What a walk finds can be read. -/
theorem Sound.readable_of_mem_found {tree : MemoryTree} (h : tree.Sound) {search : Subpath.Search}
    {bound : Nat} {dir path : String} (hmem : path ∈ tree.toFileTree.found search bound dir) :
    tree.toFileTree.Readable path := by
  induction bound generalizing dir with
  | zero => simp [FileTree.found] at hmem
  | succ bound ih =>
    obtain ⟨name, hname, ⟨hmem, -⟩ | ⟨rfl, hd, -⟩⟩ := FileTree.mem_found_succ hmem
    · exact ih hmem
    · exact h.readable_of_listed hname hd

/-- What a search finds can be read. -/
theorem Sound.readable_of_mem_expanded {tree : MemoryTree} (h : tree.Sound) {depth : Nat}
    {search : Subpath.Search} {path : String}
    (hmem : path ∈ tree.toFileTree.expanded depth search) : tree.toFileTree.Readable path := by
  rw [FileTree.expanded] at hmem
  split at hmem
  · simp at hmem
  · split at hmem
    · exact h.readable_of_mem_found hmem
    · simp at hmem

end MemoryTree

end PackageLint
