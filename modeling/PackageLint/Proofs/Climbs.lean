import PackageLint.Proofs.WrittenTrees

/-!
# Where a write ends

A write lists the new file in its directory, that directory in the one above it, and goes on until it
has come to the root `/`. Nothing but that path stops it, so it has to be asked whether every way up
comes there. A path that is not absolute is refused before the climb. A path with two slashes at its
start keeps them in its normal form, and so does every directory above it: the climb comes to `//`,
which is its own parent, and stays there.

The root can be written to as well. It is its own parent too, and what it lists on the way to itself
is the name that follows its slash, the empty one. From then on it lists itself, by a name that no
later write removes.

## Main definitions

* `MemoryTree.Clean` — no directory lists the empty name or itself
* `MemoryTree.Settles` — a write refuses its path, or it ends and leaves a clean tree

## Main results

* `MemoryTree.Reachable.clean_iff_named` — the trees that are clean
* `MemoryTree.Reachable.clean_write` — the writes that keep a tree clean
* `MemoryTree.climb_of_hasStart` — where two slashes stand at the start, no climb ends
* `MemoryTree.settles_iff` — the writes that settle, and what the others do
-/

namespace PackageLint

namespace Path

variable {k : Nat} {names : List Segment}

/-- Two slashes at the start of a normal path are those of its root. -/
theorem hasStart_ofNames (hk : IsRoot k) (h : Names names) :
    Text.hasStart (ofNames k names) "//" = true ↔ k = 2 := by
  have hhead := head?_intercalate (fun s hs => (h s hs).no_slash) fun s hs => (h s hs).ne_nil
  rw [Text.hasStart, toList_ofNames, ofSegments]
  rcases hk with rfl | rfl
  · cases hinter : ['/'].intercalate names with
    | nil => simp
    | cons c rest =>
      have hc : c ≠ '/' := by simpa [hinter] using hhead
      simp [List.isPrefixOf, Ne.symm hc]
  · simp [List.replicate_succ]

/-- A text that starts with two slashes starts with one. -/
theorem isRooted_of_hasStart {path : String} (h : Text.hasStart path "//" = true) :
    isRooted path = true := by
  rw [Text.hasStart, List.isPrefixOf_iff_prefix] at h
  rw [isRooted, Text.hasStart, List.isPrefixOf_iff_prefix]
  exact (List.prefix_append ['/'] ['/']).trans h

/-- A path is below the root `/` when its normal form goes from there through names. -/
theorem isBelowRoot_iff {path : String} :
    isBelowRoot path = true
      ↔ ∃ names, Names names ∧ names ≠ [] ∧ normalize path = ofNames 1 names := by
  constructor
  · intro h
    exact ⟨_, normalize_of_isBelowRoot h⟩
  · rintro ⟨names, hnames, hne, hpath⟩
    have hone : IsRoot 1 := Or.inl rfl
    have hslashes : Text.hasStart (ofNames 1 names) "//" = false := by
      rw [Bool.eq_false_iff, Ne, hasStart_ofNames hone hnames]
      omega
    have hchars : (ofNames 1 names).toList = '/' :: ['/'].intercalate names := by
      simp [ofSegments]
    rw [Text.hasStart, hchars] at hslashes
    rw [isBelowRoot, hpath, hchars]
    cases hinter : ['/'].intercalate names with
    | nil =>
      refine absurd ((ofNames_eq_root_iff hone hnames).mp ?_).2 hne
      rw [ofNames, ofSegments, hinter]
      rfl
    | cons c rest =>
      have hc : '/' ≠ c := by simpa [hinter, List.isPrefixOf] using hslashes
      simpa using hc.symm

end Path

namespace MemoryTree

open PackageLint.Path

variable {tree tree' : MemoryTree} {path content : String}

/-! ### How a write ends -/

/-- A path that is not absolute is refused, and the tree is left as it was. -/
theorem afterWrite_of_not_isRooted (h : isRooted (normalize path) = false) (tree : MemoryTree)
    (content : String) :
    tree.afterWrite path content = (tree, .error (.notAbsolute (normalize path))) := by
  simp [afterWrite, h]

/-- What a write leaves when it ends well is the tree that was written. -/
theorem write_eq_ok_iff_afterWrite :
    tree.write path content = .ok tree' ↔ tree.afterWrite path content = (tree', .ok ()) := by
  rw [write]
  obtain ⟨left, _ | ⟨⟩⟩ := tree.afterWrite path content <;> simp [Except.map]

/-! ### Clean trees -/

/-- No directory lists the empty name, and none lists itself. -/
def Clean (tree : MemoryTree) : Prop :=
  ∀ dir listing, tree.entries dir = .ok listing →
    ∀ name ∈ listing, name ≠ "" ∧ normalize (join dir name) ≠ normalize dir

/-- Files are written below the root `/`, or to it. -/
theorem Reachable.file_from_root (h : tree.Reachable) {key : String}
    (hkey : Assoc.hasKey key tree.files = true) : ∃ names, Names names ∧ key = ofNames 1 names := by
  induction h with
  | empty => simp [MemoryTree.empty, Assoc.hasKey] at hkey
  | write _ hw ih =>
    rcases (hasKey_files_write hw).mp hkey with rfl | hkey
    · exact (write_eq_ok_iff.mp hw).1
    · exact ih hkey

/-- The root lists the empty name once it has been written to. -/
theorem Reachable.root_lists_empty (h : tree.Reachable)
    (hroot : Assoc.hasKey "/" tree.files = true) :
    ∃ listing, tree.entries "/" = .ok listing ∧ "" ∈ listing := by
  have hnormal : normalize "/" = "/" := by decide
  have hstep : Assoc.get? "/" (lineage "/") = some "" := by decide
  obtain ⟨listing, hget, hmem⟩ := h.listed_lineage hroot hstep
  exact ⟨listing, entries_eq_ok_iff.mpr (hnormal.symm ▸ hget), hmem⟩

/-- The trees that are clean are those where nothing was written to the root. -/
theorem Reachable.clean_iff_named (h : tree.Reachable) : tree.Clean ↔ tree.Named := by
  constructor
  · intro hclean key hkey hname
    have hfile := Assoc.hasKey_iff_mem.mpr hkey
    obtain ⟨names, hnames, rfl⟩ := h.file_from_root hfile
    have hone : IsRoot 1 := Or.inl rfl
    rcases List.eq_nil_or_concat' names with rfl | ⟨front, s, rfl⟩
    · have hroot : ofNames 1 [] = "/" := by decide
      obtain ⟨listing, hentries, hmem⟩ := h.root_lists_empty (hroot ▸ hfile)
      exact (hclean _ _ hentries _ hmem).1 rfl
    · have hs := names_singleton.mp (names_append.mp hnames).2
      rw [baseName_ofNames hone hs] at hname
      exact ofList_ne_empty hs hname
  · intro hnamed dir listing hentries name hmem
    have hget := entries_eq_ok_iff.mp hentries
    obtain ⟨k, names, hk, hnames, hdir⟩ :=
      h.sound.dir_normal _ (Assoc.hasKey_iff_get?.mpr ⟨listing, hget⟩)
    have hlisted : name ∈ tree.toFileTree.names dir := by
      change name ∈ ((tree.entries dir).toOption).getD []
      rw [hentries]
      exact hmem
    obtain ⟨s, hs, rfl⟩ := h.isName_of_mem_names hnamed hlisted
    have hchild : Names (names ++ [s]) := hnames.concat hs
    refine ⟨ofList_ne_empty hs, ?_⟩
    rw [join_name hk hnames hdir hs, normalize_ofNames hk hchild, hdir, Ne,
      ofNames_inj hk.le hchild hk.le hnames]
    simp

/-- A write below the root keeps a tree clean, and no write makes a tree clean. -/
theorem Reachable.clean_write (h : tree.Reachable) (hw : tree.write path content = .ok tree') :
    tree'.Clean ↔ isBelowRoot path = true ∧ tree.Clean := by
  have hone : IsRoot 1 := Or.inl rfl
  obtain ⟨names, hnames, hpath⟩ := (write_eq_ok_iff.mp hw).1
  have hbelow : isBelowRoot path = true ↔ baseName (normalize path) ≠ "" := by
    rw [isBelowRoot_iff, hpath]
    rcases List.eq_nil_or_concat' names with rfl | ⟨front, s, rfl⟩
    · have hroot : baseName (ofNames 1 []) = "" := by decide
      simp only [hroot, ne_eq, not_true_eq_false, iff_false]
      rintro ⟨others, hothers, hne, heq⟩
      exact hne ((ofNames_inj hone.le hnames hone.le hothers).mp heq).2.symm
    · have hs := names_singleton.mp (names_append.mp hnames).2
      rw [baseName_ofNames hone hs]
      exact ⟨fun _ => ofList_ne_empty hs, fun _ => ⟨_, hnames, by simp, rfl⟩⟩
  rw [(h.write hw).clean_iff_named, h.clean_iff_named, hbelow]
  simp only [Named, ← Assoc.hasKey_iff_mem, hasKey_files_write hw, forall_eq_or_imp]

/-! ### Two slashes -/

/-- The climb from a path that keeps two slashes stays at them. -/
theorem climb_of_hasStart (h : Text.hasStart (normalize path) "//" = true) (bound : Nat)
    (dirs : Assoc (List String)) :
    climb bound dirs (normalize path) (parent (normalize path)) = none := by
  obtain ⟨k, names, hk, hnames, hpath⟩ := normalize_rooted (isRooted_of_hasStart h)
  rw [hpath] at h ⊢
  obtain rfl := (hasStart_ofNames hk hnames).mp h
  obtain ⟨front, hfront, hparent⟩ := exists_parent_ofNames hk hnames
  rw [hparent, climb_eq_none hfront]

theorem afterWrite_of_hasStart (h : Text.hasStart (normalize path) "//" = true)
    (tree : MemoryTree) (content : String) :
    (tree.afterWrite path content).2 = .error (.endless (normalize path)) := by
  simp [afterWrite, isRooted_of_hasStart h, climb_of_hasStart h]

/-- Any other absolute path is written. -/
theorem exists_write_of_isRooted (hrooted : isRooted (normalize path) = true)
    (hslashes : Text.hasStart (normalize path) "//" = false) (tree : MemoryTree)
    (content : String) : ∃ left, tree.write path content = .ok left := by
  obtain ⟨k, names, hk, hnames, hpath⟩ := normalize_rooted hrooted
  have htwo : k ≠ 2 := by
    rwa [hpath, ← Bool.not_eq_true, hasStart_ofNames hk hnames] at hslashes
  obtain rfl := hk.resolve_right htwo
  exact exists_write_of_names hnames hpath tree content

/-! ### Writes -/

/-- A write settles when it is refused and leaves the tree as it was, as it should where the path is
not absolute, or when it ends and leaves a clean tree. -/
def Settles (tree : MemoryTree) (path content : String) : Prop :=
  (isRooted (normalize path) = false
      ∧ tree.afterWrite path content = (tree, .error (.notAbsolute (normalize path))))
    ∨ ∃ left, tree.afterWrite path content = (left, .ok ()) ∧ left.Clean

/-- The writes that settle are those of paths that are not absolute, and those of paths below the
root `/` to a clean tree. -/
theorem Reachable.settles_iff_below (h : tree.Reachable) (path content : String) :
    tree.Settles path content
      ↔ isRooted (normalize path) = false ∨ isBelowRoot path = true ∧ tree.Clean := by
  cases hrooted : isRooted (normalize path) with
  | false => simp [Settles, hrooted, afterWrite_of_not_isRooted hrooted]
  | true =>
    cases hslashes : Text.hasStart (normalize path) "//" with
    | false =>
      obtain ⟨left, hw⟩ := exists_write_of_isRooted hrooted hslashes tree content
      simp [Settles, hrooted, write_eq_ok_iff_afterWrite.mp hw, h.clean_write hw]
    | true =>
      have hends (left : MemoryTree) : tree.afterWrite path content ≠ (left, .ok ()) := by
        intro heq
        have := afterWrite_of_hasStart hslashes tree content
        simp [heq] at this
      have hbelow : isBelowRoot path = false := by
        rw [Bool.eq_false_iff, Ne, isBelowRoot_iff]
        rintro ⟨names, hnames, -, hpath⟩
        rw [hpath, hasStart_ofNames (Or.inl rfl) hnames] at hslashes
        omega
      simp [Settles, hrooted, hbelow, hends]

/-- The writes that settle are those of paths that are not absolute, and those of paths below the
root `/` to a clean tree. Where two slashes stand at the start, no bound on the way up is enough. Where
the path is the root itself, the write ends, and the root lists the empty name. -/
theorem settles_iff (h : tree.Reachable) (path content : String) :
    (tree.Settles path content
        ↔ isRooted (normalize path) = false ∨ isBelowRoot path = true ∧ tree.Clean)
      ∧ (Text.hasStart (normalize path) "//" = true →
          (tree.afterWrite path content).2 = .error (.endless (normalize path))
            ∧ ∀ bound, climb bound tree.dirs (normalize path) (parent (normalize path)) = none)
      ∧ (normalize path = "/" → ∃ left listing, tree.afterWrite path content = (left, .ok ())
          ∧ left.entries "/" = .ok listing ∧ "" ∈ listing) := by
  refine ⟨h.settles_iff_below path content, fun hslashes => ?_, fun hroot => ?_⟩
  · exact ⟨afterWrite_of_hasStart hslashes tree content,
      fun bound => climb_of_hasStart hslashes bound tree.dirs⟩
  · have hrooted : isRooted (normalize path) = true := by
      rw [hroot]
      decide
    have hslashes : Text.hasStart (normalize path) "//" = false := by
      rw [hroot]
      decide
    obtain ⟨left, hw⟩ := exists_write_of_isRooted hrooted hslashes tree content
    have hfile : Assoc.hasKey "/" left.files = true :=
      (hasKey_files_write hw).mpr (Or.inl hroot.symm)
    obtain ⟨listing, hentries, hmem⟩ := (h.write hw).root_lists_empty hfile
    exact ⟨left, listing, write_eq_ok_iff_afterWrite.mp hw, hentries, hmem⟩

/-- Below the root of the empty tree a write settles. At the root it ends and the root lists the empty
name; with two slashes at the start it does not end. -/
theorem root_write_unsettled :
    Reachable .empty ∧ empty.Settles "/a" "x" ∧ ¬empty.Settles "/" "x" ∧ ¬empty.Settles "//a" "x"
      ∧ ∀ bound, climb bound empty.dirs (normalize "//a") (parent (normalize "//a")) = none := by
  have hempty : Reachable .empty := .empty
  have hclean : empty.Clean := hempty.clean_iff_named.mpr (by decide)
  refine ⟨hempty, (settles_iff hempty "/a" "x").1.mpr (Or.inr ⟨by decide, hclean⟩), ?_, ?_,
    ((settles_iff hempty "//a" "x").2.1 (by decide)).2⟩
  · rw [(settles_iff hempty "/" "x").1]
    have hrooted : isRooted (normalize "/") = true := by decide
    have hbelow : isBelowRoot "/" = false := by decide
    simp [hrooted, hbelow]
  · rw [(settles_iff hempty "//a" "x").1]
    have hrooted : isRooted (normalize "//a") = true := by decide
    have hbelow : isBelowRoot "//a" = false := by decide
    simp [hrooted, hbelow]

end MemoryTree

end PackageLint
