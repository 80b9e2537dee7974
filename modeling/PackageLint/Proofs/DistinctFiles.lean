import PackageLint.Proofs.ListedFiles

/-!
# A search finds no file twice

A directory lists every name once, and what a walk finds below two names lies on two ways. So a walk
finds each file once, as long as it does not come upon a directory again. It can do so in one case: a
file that is written to a root has no name, and the root then lists the empty name, which leads back to
it. Trees where every file has a name are free of this.

## Main definitions

* `MemoryTree.Named` — every file has a name

## Main results

* `flatMap_eq_of_count` — what one item contributes
* `MemoryTree.Reachable.nodup_listing` — a directory lists every name once
* `MemoryTree.Reachable.exists_of_mem_found` — what a walk finds lies below its start
* `MemoryTree.Reachable.nodup_expanded` — a search finds every file once
* `MemoryTree.Sound.hasKey_of_mem_expanded` — what a search finds are files, by their normal paths
-/

namespace PackageLint

/-- Where one item alone contributes, its contribution is repeated as often as the item. -/
theorem flatMap_eq_of_count {α β : Type} [DecidableEq α] {items : List α} {f : α → List β} {a : α}
    (hothers : ∀ b ∈ items, b ≠ a → f b = []) :
    items.flatMap f = (List.replicate (items.count a) (f a)).flatten := by
  induction items with
  | nil => rfl
  | cons b rest ih =>
    have ih := ih fun c hc => hothers c (List.mem_cons_of_mem _ hc)
    rw [List.flatMap_cons, ih]
    by_cases hb : b = a
    · subst hb
      rw [List.count_cons_self, List.replicate_succ, List.flatten_cons]
    · rw [hothers b List.mem_cons_self hb, List.nil_append, List.count_cons_of_ne hb]

/-- Among different items of which one alone contributes, that one contributes once. -/
theorem flatMap_eq_of_nodup {α β : Type} [DecidableEq α] {items : List α} (h : items.Nodup)
    {f : α → List β} {a : α} (hothers : ∀ b ∈ items, b ≠ a → f b = []) :
    items.flatMap f = if a ∈ items then f a else [] := by
  rw [flatMap_eq_of_count hothers, h.count]
  split
  · rw [List.replicate_one, List.flatten_singleton]
  · rfl

namespace MemoryTree

open PackageLint.Path

/-- Every file has a name; none is written to a root. -/
def Named (tree : MemoryTree) : Prop := ∀ path ∈ Assoc.keys tree.files, Path.baseName path ≠ ""

instance (tree : MemoryTree) : Decidable tree.Named := inferInstanceAs (Decidable (∀ _ ∈ _, _))

variable {tree : MemoryTree}

/-! ### Listings -/

theorem nodup_addName {name : String} {names : List String} (h : names.Nodup) :
    (addName name names).Nodup := by
  rw [addName]
  split
  next => exact h
  next hno =>
    have hmem : name ∉ names := fun hmem => hno (List.contains_iff_mem.mpr hmem)
    rw [← List.concat_eq_append]
    exact h.concat hmem

/-- A directory lists every name once. -/
theorem Reachable.nodup_listing (h : tree.Reachable) {dir : String} {listing : List String}
    (hget : Assoc.get? dir tree.dirs = some listing) : listing.Nodup := by
  induction h generalizing listing with
  | empty =>
    have hentry := Assoc.mem_of_get? hget
    obtain ⟨-, rfl⟩ : dir = "/" ∧ listing = [] := by simpa [MemoryTree.empty] using hentry
    exact List.nodup_nil
  | @write tree tree' path content _ hw ih =>
    obtain ⟨⟨names, hnames, hpath⟩, -, hdirs⟩ := write_eq_ok_iff.mp hw
    have hk : IsRoot 1 := Or.inl rfl
    rw [hdirs, get?_foldl_addEntry (hpath ▸ nodup_keys_lineage hk hnames)] at hget
    split at hget
    · -- what was listed before, with one more name
      obtain rfl := Option.some.inj hget
      refine nodup_addName ?_
      cases hold : Assoc.get? dir tree.dirs with
      | none => exact List.nodup_nil
      | some old => exact ih hold
    · exact ih hget

theorem Reachable.nodup_names (h : tree.Reachable) (dir : String) :
    (tree.toFileTree.names dir).Nodup := by
  change ((tree.entries dir).toOption.getD []).Nodup
  rw [entries]
  cases hget : Assoc.get? (normalize dir) tree.dirs with
  | none => exact List.nodup_nil
  | some listing => exact h.nodup_listing hget

/-- Where every file has a name, what directories list are names. -/
theorem Reachable.isName_of_mem_names (h : tree.Reachable) (hnamed : tree.Named) {dir name : String}
    (hmem : name ∈ tree.toFileTree.names dir) : ∃ s, IsName s ∧ name = String.ofList s := by
  obtain ⟨k, names, hk, -, -, ⟨-, -, hpath⟩ | ⟨s, rest, hs, rfl, -⟩⟩ := h.file_of_name hmem
  · refine absurd ?_ (hnamed _ (Assoc.hasKey_iff_mem.mp hpath))
    rcases hk with rfl | rfl <;> decide
  · exact ⟨s, hs, rfl⟩

/-! ### Walks -/

/-- What a walk finds under one name of a directory. -/
def foundUnder (tree : MemoryTree) (search : Subpath.Search) (bound : Nat) (dir name : String) :
    List String :=
  let path := join dir name
  if search.leadsToPublished path then
    if tree.isDir path then
      if search.skipped.contains name then [] else tree.toFileTree.found search bound path
    else if search.finds path then [path] else []
  else []

theorem found_succ (tree : MemoryTree) (search : Subpath.Search) (bound : Nat) (dir : String) :
    tree.toFileTree.found search (bound + 1) dir
      = (tree.toFileTree.names dir).flatMap (tree.foundUnder search bound dir) := rfl

variable {search : Subpath.Search} {bound : Nat} {dir name path : String}

theorem mem_foundUnder (h : path ∈ tree.foundUnder search bound dir name) :
    path ∈ tree.toFileTree.found search bound (join dir name) ∨ path = join dir name := by
  rw [foundUnder] at h
  split at h
  · split at h
    · split at h
      · simp at h
      · exact Or.inl h
    · split at h
      · exact Or.inr (List.mem_singleton.mp h)
      · simp at h
  · simp at h

theorem nodup_foundUnder (h : (tree.toFileTree.found search bound (join dir name)).Nodup) :
    (tree.foundUnder search bound dir name).Nodup := by
  rw [foundUnder]
  split
  · split
    · split
      · exact List.nodup_nil
      · exact h
    · split
      · exact List.nodup_singleton _
      · exact List.nodup_nil
  · exact List.nodup_nil

variable {k : Nat} {names : List Segment} {s : Segment}

/-- What a walk finds lies below its start. -/
theorem Reachable.exists_of_mem_found (h : tree.Reachable) (hnamed : tree.Named) (hk : IsRoot k)
    (hnames : Names names) (hdir : normalize dir = ofNames k names)
    (hmem : path ∈ tree.toFileTree.found search bound dir) :
    ∃ s rest, Names (names ++ s :: rest) ∧ path = ofNames k (names ++ s :: rest) := by
  induction bound generalizing dir names with
  | zero => simp [FileTree.found] at hmem
  | succ bound ih =>
    rw [found_succ] at hmem
    obtain ⟨name, hname, hmem⟩ := List.mem_flatMap.mp hmem
    obtain ⟨s, hs, rfl⟩ := h.isName_of_mem_names hnamed hname
    have hchild : Names (names ++ [s]) := hnames.concat hs
    have hjoin := join_name hk hnames hdir hs
    rcases mem_foundUnder hmem with hmem | rfl
    · rw [hjoin] at hmem
      obtain ⟨t, rest, hrest, rfl⟩ := ih hchild (normalize_ofNames hk hchild) hmem
      exact ⟨s, t :: rest, by simpa using hrest, by simp⟩
    · exact ⟨s, [], hchild, hjoin⟩

/-- What a walk finds under a name lies on the way through it. -/
theorem Reachable.exists_of_mem_foundUnder (h : tree.Reachable) (hnamed : tree.Named)
    (hk : IsRoot k) (hnames : Names names) (hdir : normalize dir = ofNames k names) (hs : IsName s)
    (hmem : path ∈ tree.foundUnder search bound dir (String.ofList s)) :
    ∃ rest, Names (names ++ s :: rest) ∧ path = ofNames k (names ++ s :: rest) := by
  have hchild : Names (names ++ [s]) := hnames.concat hs
  have hjoin := join_name hk hnames hdir hs
  rcases mem_foundUnder hmem with hmem | rfl
  · rw [hjoin] at hmem
    obtain ⟨t, rest, hrest, rfl⟩ :=
      h.exists_of_mem_found hnamed hk hchild (normalize_ofNames hk hchild) hmem
    exact ⟨t :: rest, by simpa using hrest, by simp⟩
  · exact ⟨[], hchild, hjoin⟩

/-- A walk finds every file once. -/
theorem Reachable.nodup_found (h : tree.Reachable) (hnamed : tree.Named) (search : Subpath.Search)
    (bound : Nat) (hk : IsRoot k) (hnames : Names names) (hdir : normalize dir = ofNames k names) :
    (tree.toFileTree.found search bound dir).Nodup := by
  induction bound generalizing dir names with
  | zero => exact List.nodup_nil
  | succ bound ih =>
    rw [found_succ]
    refine List.nodup_flatMap.mpr ⟨fun name hname => nodup_foundUnder ?_, ?_⟩
    · obtain ⟨s, hs, rfl⟩ := h.isName_of_mem_names hnamed hname
      have hchild : Names (names ++ [s]) := hnames.concat hs
      rw [join_name hk hnames hdir hs]
      exact ih hchild (normalize_ofNames hk hchild)
    · -- the ways through two names part there
      refine (h.nodup_names dir).imp_of_mem fun hname hother hne path hpath hpath' => hne ?_
      obtain ⟨s, hs, rfl⟩ := h.isName_of_mem_names hnamed hname
      obtain ⟨t, ht, rfl⟩ := h.isName_of_mem_names hnamed hother
      obtain ⟨rest, hrest, rfl⟩ := h.exists_of_mem_foundUnder hnamed hk hnames hdir hs hpath
      obtain ⟨rest', hrest', heq⟩ := h.exists_of_mem_foundUnder hnamed hk hnames hdir ht hpath'
      have hways := ((ofNames_inj hk.le hrest hk.le hrest').mp heq).2
      rw [(List.cons.inj (List.append_cancel_left hways)).1]

/-! ### Searches -/

/-- A search finds every file once. -/
theorem Reachable.nodup_expanded (h : tree.Reachable) (hnamed : tree.Named) (depth : Nat)
    (search : Subpath.Search) : (tree.toFileTree.expanded depth search).Nodup := by
  rw [FileTree.expanded]
  split
  next => exact List.nodup_nil
  next dir _ =>
    split
    next hdir =>
      obtain ⟨k, names, hk, hnames, hnormal⟩ := h.sound.dir_normal _ hdir
      exact h.nodup_found hnamed search depth hk hnames hnormal
    next => exact List.nodup_nil

/-- What a search finds are files, by their normal paths. -/
theorem Sound.hasKey_of_mem_expanded (h : tree.Sound) {depth : Nat}
    (hmem : path ∈ tree.toFileTree.expanded depth search) : Assoc.hasKey path tree.files = true :=
  hasKey_of_readable (h.isInner_of_mem_expanded hmem) (h.readable_of_mem_expanded hmem)

/-- The path of a file is its own normal form. -/
theorem Sound.normalize_of_hasKey (h : tree.Sound) (hfile : Assoc.hasKey path tree.files = true) :
    normalize path = path := by
  obtain ⟨k, names, hk, hnames, rfl⟩ := h.file_normal path hfile
  exact normalize_ofNames hk hnames

end MemoryTree

end PackageLint
