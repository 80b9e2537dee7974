import PackageLint.Proofs.LeafFailures
import PackageLint.Proofs.RelocatedSearches
import PackageLint.Proofs.RepeatedWildcards
import PackageLint.Proofs.WrittenTrees

/-!
# What a walk finds, and in which order

A search walks through the directory that its pattern starts with, and asks at every file whether it
matches. What it finds should be told without a walk: the files below the directory, each by its own
path, unless the way to it from there leads through a directory that is skipped. For a tree of files
that were written below the root this is so. A file is reached by the names on its way, and every
prefix of a way is listed, so that none is missed; a name is listed once, so that none comes twice.

The order is that of the listings. Two files part at some directory, and the one comes first whose
next name is listed first there. Nothing is said about a file that lies below another: of these the
upper one is a directory too, and no walk finds it.

## Where a walk starts

The directory that decides which skipped names count is the text in front of the last separator
before the wildcards. A backslash is a separator, as it is where paths are matched: with `/d/a\b*`
the walk starts in `/d/a`, and is there even when `a` is skipped. The results are for texts without
line feeds, since a walk looks for a separator in the first line only.

## Main definitions

* `Pattern.IsTopDir` — the text in front of the last separator before the wildcards
* `Subpath.Search.Passes` — the test that a path has to pass by itself
* `MemoryTree.Sought` — the ways from a directory to the files that are to be found below it
* `MemoryTree.ListedBefore` — the order of two files
* `MemoryTree.Exact` — a list of just these files, each once and in this order
* `MemoryTree.FindsExactly` — a search that finds such a list

## Main results

* `MemoryTree.Written.mem_found_iff` — what a walk finds, by induction on its bound
* `MemoryTree.Reachable.pairwise_found` — the order in which it is found
* `MemoryTree.expand_exact` — both for a search
-/

namespace PackageLint

/-! ### The directory of a pattern -/

namespace Pattern

/-- The text in front of the last separator before the first wildcard of a pattern. What separates
is a parameter. -/
def IsTopDir (separates : Char → Bool) (pattern top : String) : Prop :=
  '*' ∉ top.toList ∧ ∃ sep name rest, pattern.toList = top.toList ++ sep :: (name ++ rest)
    ∧ separates sep = true ∧ (∀ c ∈ name, c ≠ '*' ∧ separates c = false)
    ∧ (rest = [] ∨ rest.head? = some '*')

/-- The head of a pattern is what comes before its first wildcard. -/
theorem head_ofChars {front rest : List Char} (hfront : '*' ∉ front)
    (hrest : rest = [] ∨ rest.head? = some '*') : (ofChars (front ++ rest)).head = front := by
  rw [ofChars, Text.split_append hfront]
  rcases hrest with rfl | hrest
  · simp [Text.split]
  · obtain ⟨rest, rfl⟩ := List.head?_eq_some_iff.mp hrest
    simp [Text.split]

/-- A search starts in the directory of its pattern, unless that is empty. -/
theorem topDir?_eq_some {pattern top : String} (h : IsTopDir isSeparator pattern top)
    (hline : '\n' ∉ top.toList) (hne : top ≠ "") : topDir? pattern = some top := by
  obtain ⟨hstar, sep, name, rest, hpattern, hsep, hname, hrest⟩ := h
  have hsepStar : sep ≠ '*' := by
    rintro rfl
    simp [isSeparator] at hsep
  have hsepLine : sep ≠ '\n' := by
    rintro rfl
    simp [isSeparator] at hsep
  have hhead : (ofText pattern).head = top.toList ++ sep :: name := by
    have hfront : '*' ∉ top.toList ++ sep :: name := by
      rw [List.mem_append, List.mem_cons, not_or, not_or]
      exact ⟨hstar, Ne.symm hsepStar, fun hmem => (hname _ hmem).1 rfl⟩
    rw [ofText, hpattern, ← List.cons_append, ← List.append_assoc, head_ofChars hfront hrest]
  -- the first line of the head still holds all up to the separator
  have hfirst : (top.toList ++ sep :: name).takeWhile (· ≠ '\n')
      = top.toList ++ sep :: name.takeWhile (· ≠ '\n') := by
    rw [List.takeWhile_append_of_pos, List.takeWhile_cons_of_pos (by simpa using hsepLine)]
    intro c hc
    simpa using fun heq : c = '\n' => hline (heq ▸ hc)
  have hafter : ∀ c ∈ (name.takeWhile (· ≠ '\n')).reverse, (!isSeparator c) = true := by
    intro c hc
    have hmem := List.takeWhile_subset _ (List.mem_reverse.mp hc)
    rw [(hname c hmem).2]
    rfl
  have hdrop : ((top.toList ++ sep :: name).takeWhile (· ≠ '\n')).reverse.dropWhile
      (fun c => !isSeparator c) = sep :: top.toList.reverse := by
    rw [hfirst, List.reverse_append, List.reverse_cons, List.append_assoc,
      List.dropWhile_append_of_pos hafter, List.singleton_append,
      List.dropWhile_cons_of_neg (by simp [hsep])]
  have hsome : topDirChars? (ofText pattern).head = some top.toList := by
    rw [hhead, topDirChars?, hdrop]
    simp [hne]
  rw [topDir?, hsome, Option.map_some, String.ofList_toList]

end Pattern

/-! ### The test of a path -/

namespace Subpath.Search

/-- Whether a null key of the map matches the key of the search with a text put in. -/
def Hides (search : Search) (text : String) : Prop :=
  ∃ key entries nullKey, search.key = some key ∧ search.tree = some (.map entries)
    ∧ (nullKey, ConditionTree.exclusion) ∈ entries
    ∧ (Pattern.ofText nullKey).accepts (substitute key text) = true

/-- A path matches with equal captures, and what is captured is not hidden. -/
structure Passes (search : Search) (hidden : String → Prop) (path : String) : Prop where
  uniform : Pattern.MatchesUniformly (Path.slashed search.pattern) (Path.slashed path)
  shown : ∀ captures,
    (Pattern.ofText (Path.slashed search.pattern)).captures? (Path.slashed path) = some captures →
      ∀ s ∈ captures, ¬hidden s

variable {search : Search} {path : String}

theorem mem_nullKeys {tree : ConditionTree} {pattern : Pattern} :
    pattern ∈ nullKeys tree
      ↔ ∃ entries nullKey, tree = .map entries ∧ (nullKey, ConditionTree.exclusion) ∈ entries
          ∧ pattern = Pattern.ofText nullKey := by
  cases tree with
  | map entries =>
    simp only [nullKeys, List.mem_filterMap, Prod.exists, ConditionTree.map.injEq]
    constructor
    · rintro ⟨key, node, hmem, hpattern⟩
      split at hpattern
      · exact ⟨entries, key, rfl, hmem, (Option.some.inj hpattern).symm⟩
      · simp at hpattern
    · rintro ⟨_, key, rfl, hmem, rfl⟩
      exact ⟨key, .exclusion, hmem, rfl⟩
  | _ => simp [nullKeys]

/-- A search hides by the null keys of its map, unless its own key is empty. -/
theorem hides_iff {text : String} :
    search.hides text = true ↔ search.key ≠ some "" ∧ search.Hides text := by
  rw [hides, List.any_eq_true, hidingKeys]
  split
  next key tree hkey htree =>
    rw [hkey, Option.getD_some, Hides, htree, hkey]
    by_cases hempty : key = ""
    · simp [hempty]
    · simp only [hempty, if_false, mem_nullKeys, Option.some.injEq, ne_eq, not_false_eq_true,
        true_and]
      constructor
      · rintro ⟨pattern, ⟨entries, nullKey, rfl, hmem, rfl⟩, haccepts⟩
        exact ⟨key, entries, nullKey, rfl, rfl, hmem, haccepts⟩
      · rintro ⟨key, entries, nullKey, rfl, rfl, hmem, haccepts⟩
        exact ⟨_, ⟨entries, nullKey, rfl, hmem, rfl⟩, haccepts⟩
  next hno =>
    simp only [List.not_mem_nil, false_and, exists_false, false_iff, not_and]
    rintro - ⟨key, entries, nullKey, hkey, htree, -⟩
    exact hno key _ hkey htree

/-- The test of a search. -/
theorem finds_iff_passes :
    search.finds path = true
      ↔ search.Passes (fun s => search.key ≠ some "" ∧ search.Hides s) path := by
  have hshown (s : String) :
      search.hides s = false ↔ ¬(search.key ≠ some "" ∧ search.Hides s) := by
    rw [← hides_iff, Bool.not_eq_true]
  rw [finds_iff]
  constructor
  · rintro ⟨huniform, hall⟩
    exact ⟨huniform, fun captures hcaptures s hs => (hshown s).mp (hall captures hcaptures s hs)⟩
  · rintro ⟨huniform, hall⟩
    exact ⟨huniform, fun captures hcaptures s hs => (hshown s).mpr (hall captures hcaptures s hs)⟩

end Subpath.Search

namespace MemoryTree

open PackageLint.Path

/-! ### What is to be found -/

/-- A way from a directory to a file that is to be found: no directory on the way is skipped, and
the file is none itself and passes a test. -/
structure Sought (tree : MemoryTree) (skipped : List String) (passes : String → Prop)
    (top names : List Segment) : Prop where
  isNames : Names names
  ne_nil : names ≠ []
  walked : ∀ s ∈ names.dropLast, String.ofList s ∉ skipped
  readable : tree.toFileTree.Readable (ofNames 1 (top ++ names))
  not_dir : tree.isDir (ofNames 1 (top ++ names)) = false
  passed : passes (ofNames 1 (top ++ names))

/-- The ways to two paths part at a directory, which lists the next name on the first way before
that on the second. -/
def ListedBefore (tree : MemoryTree) (path path' : String) : Prop :=
  ∃ front s t rest rest' listing, Names (front ++ s :: rest) ∧ Names (front ++ t :: rest')
    ∧ path = ofNames 1 (front ++ s :: rest) ∧ path' = ofNames 1 (front ++ t :: rest')
    ∧ tree.entries (ofNames 1 front) = .ok listing
    ∧ [String.ofList s, String.ofList t].Sublist listing

/-- A list of the files that are to be found below a directory, and of nothing else, each once, in
the order of the listings. -/
structure Exact (tree : MemoryTree) (skipped : List String) (passes : String → Prop)
    (top : List Segment) (found : List String) : Prop where
  mem_iff : ∀ path, path ∈ found
    ↔ ∃ names, tree.Sought skipped passes top names ∧ path = ofNames 1 (top ++ names)
  nodup : found.Nodup
  ordered : found.Pairwise tree.ListedBefore

/-- A search ends, and finds just the files that are to be found below a directory. -/
def FindsExactly (tree : MemoryTree) (search : Subpath.Search) (hidden : String → Prop)
    (top : String) : Prop :=
  ∃ found,
    (∀ bound, tree.toFileTree.depth ≤ bound →
      (Subpath.expand bound search).run tree.toFileTree = ⟨[], .ok found⟩)
      ∧ tree.Exact search.skipped (search.Passes hidden) (segments top) found

variable {files : List (String × String)} {tree : MemoryTree} {search : Subpath.Search}
  {top names rest : List Segment} {s : Segment} {dir path : String} {bound : Nat}

/-! ### A tree of files -/

/-- A directory lists the names that follow it on the ways to the files. -/
theorem Written.names_eq (h : tree.Written files) (htop : Names top)
    (hdir : normalize dir = ofNames 1 top) : tree.toFileTree.names dir = firstNames files top := by
  rw [Package.names_eq_getD, hdir, h.listings top htop]
  split
  next => rfl
  next hno =>
    rw [not_or, not_not] at hno
    exact hno.2.symm

theorem Written.isDir_iff (h : tree.Written files) (hnames : Names names) (hne : names ≠ []) :
    tree.isDir (ofNames 1 names) = true ↔ firstNames files names ≠ [] := by
  rw [isDir, normalize_ofNames (Or.inl rfl) hnames, Assoc.hasKey_iff_get?, h.listings names hnames]
  by_cases hlists : firstNames files names = [] <;> simp [hlists, hne]

theorem Written.readable_iff (h : tree.Written files)
    (hbelow : ∀ file ∈ files, isBelowRoot file.1 = true) (hnames : Names (names ++ [s])) :
    tree.toFileTree.Readable (ofNames 1 (names ++ [s]))
      ↔ ∃ file ∈ files, segments file.1 = names ++ [s] := by
  have hone : IsRoot 1 := Or.inl rfl
  have hs : IsName s := names_singleton.mp (names_append.mp hnames).2
  have hslash : namesDirectory (ofNames 1 (names ++ [s])) = false := by
    rw [namesDirectory, toList_ofNames]
    simpa using getLast?_ofSegments_ne 1 names hs
  have hreadable : tree.toFileTree.Readable (ofNames 1 (names ++ [s]))
      ↔ (lastText? files (ofNames 1 (names ++ [s]))).isSome = true := by
    rw [Option.isSome_iff_exists]
    refine exists_congr fun text => ?_
    change tree.contents _ = .ok text ↔ _
    rw [contents_eq_ok_iff, normalize_ofNames hone hnames, h.texts, and_iff_left hslash]
  rw [hreadable, lastText?_isSome]
  refine exists_congr fun file => and_congr_right fun hfile => ?_
  obtain ⟨hsegments, -, hpath⟩ := normalize_of_isBelowRoot (hbelow file hfile)
  rw [hpath, ofNames_inj hone.le hsegments hone.le hnames]
  exact and_iff_right rfl

/-- What can be read below a directory is listed there by the first name on the way. -/
theorem Written.mem_firstNames_of_readable (h : tree.Written files)
    (hbelow : ∀ file ∈ files, isBelowRoot file.1 = true) (hnames : Names (top ++ s :: rest))
    (hread : tree.toFileTree.Readable (ofNames 1 (top ++ s :: rest))) :
    String.ofList s ∈ firstNames files top := by
  obtain ⟨front, t, hway⟩ := (List.eq_nil_or_concat' (top ++ s :: rest)).resolve_left (by simp)
  rw [hway] at hread hnames
  obtain ⟨file, hfile, hsegments⟩ := (h.readable_iff hbelow hnames).mp hread
  exact mem_firstNames.mpr
    ⟨file, hfile, s, nextAfter_eq_some.mpr ⟨rest, hsegments.trans hway.symm⟩, rfl⟩

/-! ### One step of a walk -/

/-- A walk without a list of published files finds, under a name, what is to be found below a
directory that is not skipped, or the path itself. -/
theorem mem_foundUnder_iff (hpublished : search.published = none) {name : String} :
    path ∈ tree.foundUnder search bound dir name
      ↔ (tree.isDir (join dir name) = true ∧ name ∉ search.skipped
            ∧ path ∈ tree.toFileTree.found search bound (join dir name))
          ∨ (tree.isDir (join dir name) = false ∧ search.finds (join dir name) = true
            ∧ path = join dir name) := by
  have hleads : search.leadsToPublished (join dir name) = true := by
    rw [Subpath.Search.leadsToPublished, hpublished]
  simp only [foundUnder, hleads, if_true]
  cases tree.isDir (join dir name) with
  | true =>
    by_cases hskipped : name ∈ search.skipped <;> simp [hskipped]
  | false =>
    cases search.finds (join dir name) <;> simp

variable {passes : String → Prop} {skipped : List String}

/-- What is to be found by a way of one name. -/
theorem sought_singleton :
    tree.Sought skipped passes top [s]
      ↔ IsName s ∧ tree.toFileTree.Readable (ofNames 1 (top ++ [s]))
          ∧ tree.isDir (ofNames 1 (top ++ [s])) = false ∧ passes (ofNames 1 (top ++ [s])) := by
  constructor
  · intro h
    exact ⟨names_singleton.mp h.isNames, h.readable, h.not_dir, h.passed⟩
  · rintro ⟨hs, hread, hdir, hpassed⟩
    exact ⟨names_singleton.mpr hs, by simp, by simp, hread, hdir, hpassed⟩

/-- What is to be found by a way of more names is to be found below the first of them. -/
theorem sought_cons (hrest : rest ≠ []) :
    tree.Sought skipped passes top (s :: rest)
      ↔ IsName s ∧ String.ofList s ∉ skipped ∧ tree.Sought skipped passes (top ++ [s]) rest := by
  have happend : top ++ s :: rest = top ++ [s] ++ rest := by simp
  have hlast : (s :: rest).dropLast = s :: rest.dropLast := List.dropLast_cons_of_ne_nil hrest
  constructor
  · rintro ⟨hnames, -, hwalked, hread, hdir, hpassed⟩
    rw [happend] at hread hdir hpassed
    rw [hlast, List.forall_mem_cons] at hwalked
    obtain ⟨hs, hnames⟩ := names_cons.mp hnames
    exact ⟨hs, hwalked.1, hnames, hrest, hwalked.2, hread, hdir, hpassed⟩
  · rintro ⟨hs, hskipped, hnames, -, hwalked, hread, hdir, hpassed⟩
    rw [← happend] at hread hdir hpassed
    refine ⟨names_cons.mpr ⟨hs, hnames⟩, List.cons_ne_nil _ _, ?_, hread, hdir, hpassed⟩
    rw [hlast, List.forall_mem_cons]
    exact ⟨hskipped, hwalked⟩

/-- The directories on the way to a file. -/
theorem Written.isDir_of_readable (h : tree.Written files)
    (hbelow : ∀ file ∈ files, isBelowRoot file.1 = true) (hnames : Names (names ++ s :: rest))
    (hne : names ≠ []) (hread : tree.toFileTree.Readable (ofNames 1 (names ++ s :: rest))) :
    tree.isDir (ofNames 1 names) = true :=
  (h.isDir_iff (names_append.mp hnames).1 hne).mpr
    (List.ne_nil_of_mem (h.mem_firstNames_of_readable hbelow hnames hread))

/-! ### Walks -/

/-- A walk finds what is to be found by ways that are not longer than its bound. -/
theorem Written.mem_found_iff (h : tree.Written files) (hreach : tree.Reachable)
    (hbelow : ∀ file ∈ files, isBelowRoot file.1 = true) (hpublished : search.published = none)
    (htop : Names top) (hdir : normalize dir = ofNames 1 top) :
    path ∈ tree.toFileTree.found search bound dir
      ↔ ∃ names, tree.Sought search.skipped (fun path => search.finds path = true) top names
          ∧ names.length ≤ bound ∧ path = ofNames 1 (top ++ names) := by
  have hone : IsRoot 1 := Or.inl rfl
  induction bound generalizing dir top with
  | zero =>
    simp only [FileTree.found, List.not_mem_nil, false_iff, not_exists, not_and]
    intro names hsought hlength
    exact absurd (List.length_eq_zero_iff.mp (Nat.le_zero.mp hlength)) hsought.ne_nil
  | succ bound ih =>
    rw [found_succ, List.mem_flatMap]
    constructor
    · rintro ⟨name, hname, hpath⟩
      have hlisted := hname
      rw [h.names_eq htop hdir] at hname
      obtain ⟨s, hs, rfl⟩ := isName_of_mem_firstNames hbelow hname
      have hjoin := join_name hone htop hdir hs
      have hchild : Names (top ++ [s]) := htop.concat hs
      rcases (mem_foundUnder_iff hpublished).mp hpath with
        ⟨-, hskipped, hfound⟩ | ⟨hno, hfinds, rfl⟩
      · rw [hjoin] at hfound
        obtain ⟨rest, hsought, hlength, rfl⟩ :=
          (ih hchild (normalize_ofNames hone hchild)).mp hfound
        refine ⟨s :: rest, (sought_cons hsought.ne_nil).mpr ⟨hs, hskipped, hsought⟩,
          Nat.succ_le_succ hlength, by simp⟩
      · have hread := hreach.sound.readable_of_listed hlisted hno
        rw [hjoin] at hread hno hfinds ⊢
        exact ⟨[s], sought_singleton.mpr ⟨hs, hread, hno, hfinds⟩, by simp, rfl⟩
    · rintro ⟨names, hsought, hlength, rfl⟩
      obtain ⟨s, rest, rfl⟩ := List.exists_cons_of_ne_nil hsought.ne_nil
      have hall : Names (top ++ s :: rest) := htop.append hsought.isNames
      have hs : IsName s := (names_cons.mp hsought.isNames).1
      have hjoin := join_name hone htop hdir hs
      have hchild : Names (top ++ [s]) := htop.concat hs
      have hlisted := h.mem_firstNames_of_readable hbelow hall hsought.readable
      refine ⟨String.ofList s, by rwa [h.names_eq htop hdir], ?_⟩
      rw [mem_foundUnder_iff hpublished, hjoin]
      cases rest with
      | nil => exact Or.inr ⟨hsought.not_dir, hsought.passed, rfl⟩
      | cons t rest =>
        obtain ⟨-, hskipped, hbelowChild⟩ := (sought_cons (by simp)).mp hsought
        have hway : top ++ s :: t :: rest = top ++ [s] ++ t :: rest := by simp
        have hisDir :=
          h.isDir_of_readable hbelow (hway ▸ hall) (by simp) hbelowChild.readable
        have hfound := (ih hchild (normalize_ofNames hone hchild)).mpr
          ⟨t :: rest, hbelowChild, Nat.le_of_succ_le_succ hlength, congrArg _ hway⟩
        exact Or.inl ⟨hisDir, hskipped, hfound⟩

/-- A walk finds files in the order of the listings. -/
theorem Reachable.pairwise_found (h : tree.Reachable) (hnamed : tree.Named)
    (search : Subpath.Search) (bound : Nat) (htop : Names top)
    (hdir : normalize dir = ofNames 1 top) :
    (tree.toFileTree.found search bound dir).Pairwise tree.ListedBefore := by
  have hone : IsRoot 1 := Or.inl rfl
  induction bound generalizing dir top with
  | zero => exact List.Pairwise.nil
  | succ bound ih =>
    rw [found_succ, List.pairwise_flatMap]
    constructor
    · intro name hname
      obtain ⟨s, hs, rfl⟩ := h.isName_of_mem_names hnamed hname
      have hchild : Names (top ++ [s]) := htop.concat hs
      have hbelow := ih hchild (normalize_ofNames hone hchild)
      rw [← join_name hone htop hdir hs] at hbelow
      rw [foundUnder]
      split
      · split
        · split
          · exact List.Pairwise.nil
          · exact hbelow
        · split
          · exact List.pairwise_singleton _ _
          · exact List.Pairwise.nil
      · exact List.Pairwise.nil
    · -- what is found under two names parts here
      rw [List.pairwise_iff_forall_sublist]
      intro name other hsub path hpath path' hpath'
      have hname : name ∈ tree.toFileTree.names dir := hsub.subset (by simp)
      have hother : other ∈ tree.toFileTree.names dir := hsub.subset (by simp)
      obtain ⟨s, hs, rfl⟩ := h.isName_of_mem_names hnamed hname
      obtain ⟨t, ht, rfl⟩ := h.isName_of_mem_names hnamed hother
      obtain ⟨rest, hrest, rfl⟩ := h.exists_of_mem_foundUnder hnamed hone htop hdir hs hpath
      obtain ⟨rest', hrest', rfl⟩ := h.exists_of_mem_foundUnder hnamed hone htop hdir ht hpath'
      obtain ⟨listing, hget, -⟩ := listing_of_mem_names hname
      refine ⟨top, s, t, rest, rest', listing, hrest, hrest', rfl, rfl, ?_, ?_⟩
      · rw [entries_eq_ok_iff, normalize_ofNames hone htop, ← hdir, hget]
      · rwa [Package.names_eq_getD, hget, Option.getD_some] at hsub

/-! ### Searches -/

/-- Files below the root have names. -/
theorem Written.named (h : tree.Written files)
    (hbelow : ∀ file ∈ files, isBelowRoot file.1 = true) : tree.Named := by
  have hone : IsRoot 1 := Or.inl rfl
  intro path hpath
  have htext : (lastText? files path).isSome = true := by
    rw [← h.texts]
    exact Assoc.hasKey_iff_mem.mpr hpath
  obtain ⟨file, hfile, rfl⟩ := lastText?_isSome.mp htext
  obtain ⟨hnames, hne, heq⟩ := normalize_of_isBelowRoot (hbelow file hfile)
  obtain ⟨front, s, hsegments⟩ := (List.eq_nil_or_concat' _).resolve_left hne
  have hs : IsName s := hnames s (by simp [hsegments])
  rw [heq, hsegments, baseName_ofNames hone hs]
  simpa [← String.toList_inj] using hs.ne_nil

/-- The way to a file is not longer than the number of directories. -/
theorem Sought.length_le (hsought : tree.Sought skipped passes top names) (h : tree.Written files)
    (hreach : tree.Reachable) (hbelow : ∀ file ∈ files, isBelowRoot file.1 = true)
    (htop : Names top) : names.length ≤ tree.toFileTree.depth := by
  have hone : IsRoot 1 := Or.inl rfl
  obtain ⟨front, s, rfl⟩ := (List.eq_nil_or_concat' names).resolve_left hsought.ne_nil
  have hway : top ++ (front ++ [s]) = (top ++ front) ++ s :: [] := by simp
  have hread := hsought.readable
  have hall : Names (top ++ (front ++ [s])) := htop.append hsought.isNames
  rw [hway] at hread hall
  have hfront : Names (top ++ front) := (names_append.mp hall).1
  have hlisted := h.mem_firstNames_of_readable hbelow hall hread
  rw [← h.names_eq hfront (normalize_ofNames hone hfront)] at hlisted
  have hlt := hreach.length_lt_of_mem_names hone hfront (normalize_ofNames hone hfront) hlisted
  have hdepth : tree.toFileTree.depth = tree.dirs.length := rfl
  rw [List.length_append] at hlt
  rw [List.length_append, List.length_singleton]
  omega

/-- A directory of a tree of files lies below the root, by its segments. -/
theorem Written.normalize_of_isDir (h : tree.Written files) (hdir : tree.isDir dir = true) :
    Names (segments dir) ∧ normalize dir = ofNames 1 (segments dir) := by
  obtain ⟨names, hnames, hpath⟩ := h.dirs_normal _ hdir
  rw [segments_eq (Or.inl rfl) hnames hpath]
  exact ⟨hnames, hpath⟩

theorem Written.ne_empty_of_isDir (h : tree.Written files) (hdir : tree.isDir dir = true) :
    dir ≠ "" := by
  rintro rfl
  obtain ⟨names, -, hpath⟩ := h.dirs_normal _ hdir
  have hhead := congrArg (fun path : String => path.toList.head?) hpath
  have hempty : (normalize "").toList.head? = some '.' := by decide
  simp [hempty, ofSegments] at hhead

/-- A tree of files below the root is searched without fail, and from the depth of the tree on the
bound of the search does not matter. Without a list of published files, what is found are the files
below the directory in front of the last separator before the wildcards that are no directories, to
which no skipped directory leads from there, and which match with equal captures that are not hidden
by a null key; an empty key hides nothing. They are found once each, in the order of the listings.
-/
theorem expand_exact (hbelow : ∀ file ∈ files, isBelowRoot file.1 = true)
    (htree : ofFiles files = .ok tree) (hpublished : search.published = none) {top : String}
    (htop : Pattern.IsTopDir Pattern.isSeparator search.pattern top) (hline : '\n' ∉ top.toList)
    (hdir : tree.isDir top = true) :
    tree.FindsExactly search (fun s => search.key ≠ some "" ∧ search.Hides s) top := by
  obtain ⟨written, hok, h⟩ := exists_written hbelow
  obtain rfl : written = tree := Except.ok.inj (hok.symm.trans htree)
  have hreach := reachable_ofFiles htree
  have hnamed := h.named hbelow
  obtain ⟨hnames, hnormal⟩ := h.normalize_of_isDir hdir
  have hexpanded : written.toFileTree.expanded written.toFileTree.depth search
      = written.toFileTree.found search written.toFileTree.depth top := by
    have hisDir : written.toFileTree.isDir top = true := hdir
    simp only [FileTree.expanded, Pattern.topDir?_eq_some htop hline (h.ne_empty_of_isDir hdir),
      hisDir, if_true]
  have hpasses : (fun path => search.finds path = true)
      = search.Passes fun s => search.key ≠ some "" ∧ search.Hides s :=
    funext fun path => propext Subpath.Search.finds_iff_passes
  refine ⟨written.toFileTree.expanded written.toFileTree.depth search, fun bound hbound => ?_, ?_⟩
  · rw [Subpath.run_expand written.listsDirs, hreach.expanded_eq_of_le hnamed search hbound]
  · rw [hexpanded, ← hpasses]
    refine ⟨fun path => ?_, hreach.nodup_found hnamed search _ (Or.inl rfl) hnames hnormal,
      hreach.pairwise_found hnamed search _ hnames hnormal⟩
    rw [h.mem_found_iff hreach hbelow hpublished hnames hnormal]
    refine exists_congr fun names => and_congr_right fun hsought => ?_
    exact and_iff_right (hsought.length_le h hreach hbelow hnames)

/-- Of three files, one is below a skipped directory and one is hidden by a null key. -/
theorem expand_exact_sources :
    let files := [("/p/src/a/x.js", ""), ("/p/src/skip/y.js", ""), ("/p/src/a/internal/z.js", "")]
    let search : Subpath.Search :=
      { pattern := "/p/src/*.js", key := some "./*", skipped := ["skip"]
        tree := some (.map [("./*", .leaf "./src/*.js"), ("./a/internal/*", .exclusion)]) }
    (∀ file ∈ files, isBelowRoot file.1 = true) ∧ search.published = none
      ∧ Pattern.IsTopDir Pattern.isSeparator search.pattern "/p/src" ∧ '\n' ∉ "/p/src".toList
      ∧ ∃ tree, ofFiles files = .ok tree ∧ tree.isDir "/p/src" = true
          ∧ tree.FindsExactly search (fun s => search.key ≠ some "" ∧ search.Hides s) "/p/src"
          ∧ tree.toFileTree.expanded tree.toFileTree.depth search = ["/p/src/a/x.js"] := by
  intro files search
  let tree : MemoryTree :=
    { files := [("/p/src/a/x.js", ""), ("/p/src/skip/y.js", ""), ("/p/src/a/internal/z.js", "")]
      dirs := [("/", ["p"]), ("/p/src/a", ["x.js", "internal"]), ("/p/src", ["a", "skip"]),
        ("/p", ["src"]), ("/p/src/skip", ["y.js"]), ("/p/src/a/internal", ["z.js"])] }
  have hbelow : ∀ file ∈ files, isBelowRoot file.1 = true := by decide
  have htree : ofFiles files = .ok tree := by cbv
  have htop : Pattern.IsTopDir Pattern.isSeparator search.pattern "/p/src" :=
    ⟨by decide, '/', [], "*.js".toList, by decide, by decide, by simp, by decide⟩
  have hdir : tree.isDir "/p/src" = true := by decide
  exact ⟨hbelow, rfl, htop, by decide, tree, htree, hdir,
    expand_exact hbelow htree rfl htop (by decide) hdir, by decide⟩

/-! ### Where slashes alone do not tell -/

/-- What a search finds is what is to be found. -/
theorem FindsExactly.mem_iff {hidden : String → Prop} {top : String}
    (h : tree.FindsExactly search hidden top) :
    path ∈ tree.toFileTree.expanded tree.toFileTree.depth search
      ↔ ∃ names, tree.Sought search.skipped (search.Passes hidden) (segments top) names
          ∧ path = ofNames 1 (segments top ++ names) := by
  obtain ⟨found, hrun, hexact⟩ := h
  have hfound := hrun _ le_rfl
  rw [Subpath.run_expand tree.listsDirs] at hfound
  simp only [Outcome.mk.injEq, Except.ok.injEq, true_and] at hfound
  rw [hfound]
  exact hexact.mem_iff path

/-- The files below the directory in front of the last slash, less those that null keys hide, are
not what a search finds. -/
def FindsOthers (files : List (String × String)) (search : Subpath.Search) (top : String) : Prop :=
  ∃ tree, ofFiles files = .ok tree ∧ tree.isDir top = true
    ∧ Pattern.IsTopDir (· = '/') search.pattern top ∧ ¬tree.FindsExactly search search.Hides top

/-- A search for the files `b*.js` of a directory, which skips that directory. -/
def backslashed : Subpath.Search := { pattern := "/d/a\\b*.js", skipped := ["a"] }

/-- A search in a directory with a line feed, which skips the directories of that name. -/
def lineFed : Subpath.Search := { pattern := "/d/x\ny/*", skipped := ["x\ny"] }

/-- A search for an empty key, which is null. -/
def emptyKeyed : Subpath.Search :=
  { pattern := "/d/*", key := some "", tree := some (.map [("", .exclusion)]) }

/-- Behind a backslash the walk starts in a directory that is skipped. -/
theorem findsOthers_backslashed : FindsOthers [("/d/a/bc.js", "")] backslashed "/d" := by
  let tree : MemoryTree :=
    { files := [("/d/a/bc.js", "")]
      dirs := [("/", ["d"]), ("/d/a", ["bc.js"]), ("/d", ["a"])] }
  refine ⟨tree, by cbv, by decide, ?_, fun h => ?_⟩
  · exact ⟨by decide, '/', ['a', '\\', 'b'], ['*', '.', 'j', 's'], by decide, rfl, by simp,
      by decide⟩
  · -- the file is found, and its way leads through the skipped directory
    have hfound : "/d/a/bc.js"
        ∈ tree.toFileTree.expanded tree.toFileTree.depth backslashed := by decide
    obtain ⟨names, hsought, hpath⟩ := h.mem_iff.mp hfound
    have hway : ("/d/a/bc.js" : String)
        = ofNames 1 (segments "/d" ++ ["a".toList, "bc.js".toList]) := by
      decide
    have hnames : Names (segments "/d" ++ names) :=
      names_append.mpr ⟨by decide, hsought.isNames⟩
    obtain ⟨-, hsegments⟩ := (ofNames_inj (by omega) (by decide) (by omega) hnames).mp
      (hway.symm.trans hpath)
    obtain rfl := List.append_cancel_left hsegments
    exact hsought.walked "a".toList (by decide) (by decide)

/-- A directory with a line feed is no start, so that it can be skipped. -/
theorem findsOthers_lineFed : FindsOthers [("/d/x\ny/a.js", "")] lineFed "/d/x\ny" := by
  let tree : MemoryTree :=
    { files := [("/d/x\ny/a.js", "")]
      dirs := [("/", ["d"]), ("/d/x\ny", ["a.js"]), ("/d", ["x\ny"])] }
  refine ⟨tree, by cbv, by decide, ?_, fun h => ?_⟩
  · exact ⟨by decide, '/', [], ['*'], by decide, rfl, by simp, by decide⟩
  · -- the file is to be found, and is not
    have hpasses : lineFed.Passes lineFed.Hides "/d/x\ny/a.js" := by
      refine ⟨⟨["a.js"], by decide, by simp⟩, ?_⟩
      rintro captures - s - ⟨key, -, -, hkey, -⟩
      simp [lineFed] at hkey
    have hsought : tree.Sought lineFed.skipped (lineFed.Passes lineFed.Hides)
        (segments "/d/x\ny") ["a.js".toList] :=
      sought_singleton.mpr ⟨by decide, ⟨"", by decide⟩, by decide, hpasses⟩
    exact absurd (h.mem_iff.mpr ⟨_, hsought, rfl⟩) (by decide)

/-- A null key matches the empty key of the search, and does not hide. -/
theorem findsOthers_emptyKeyed : FindsOthers [("/d/a.js", "")] emptyKeyed "/d" := by
  let tree : MemoryTree :=
    { files := [("/d/a.js", "")], dirs := [("/", ["d"]), ("/d", ["a.js"])] }
  refine ⟨tree, by cbv, by decide, ?_, fun h => ?_⟩
  · exact ⟨by decide, '/', [], ['*'], by decide, rfl, by simp, by decide⟩
  · have hfound : "/d/a.js"
        ∈ tree.toFileTree.expanded tree.toFileTree.depth emptyKeyed := by decide
    obtain ⟨names, hsought, hpath⟩ := h.mem_iff.mp hfound
    have hpassed := hsought.passed
    rw [← hpath] at hpassed
    exact hpassed.shown ["a.js"] (by decide) "a.js" (by decide)
      ⟨"", _, "", rfl, rfl, List.mem_singleton.mpr rfl, by decide⟩

/-- The directory in front of the last slash decides neither where a backslash separates nor where
it holds a line feed itself, and a search with an empty key hides nothing. -/
theorem expand_not_exact :
    FindsOthers [("/d/a/bc.js", "")] backslashed "/d"
      ∧ FindsOthers [("/d/x\ny/a.js", "")] lineFed "/d/x\ny"
      ∧ FindsOthers [("/d/a.js", "")] emptyKeyed "/d" :=
  ⟨findsOthers_backslashed, findsOthers_lineFed, findsOthers_emptyKeyed⟩

end MemoryTree

end PackageLint
