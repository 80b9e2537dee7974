import PackageLint.Proofs.Places
import PackageLint.Proofs.RootedPaths

/-!
# What trees in memory hold

A tree in memory is reached by writes. A write touches one file and the directories above it, and in
each of these directories it lists one name, the next one on the way to the file. From this the
invariant of all reachable trees follows: whatever a directory lists is there. The walks that look
for the files of a pattern rely on it.

The root may be written to as if it were a file; it then lists the empty name, which leads nowhere.

## Main definitions

* `Path.nextAfter` — the name that follows an initial segment
* `MemoryTree.Reachable` — the trees that writes lead to
* `MemoryTree.Sound` — the invariant

## Main results

* `MemoryTree.get?_dirs_write` — what a write changes in a directory
* `MemoryTree.Sound.write` — a write preserves the invariant
* `MemoryTree.Reachable.sound` — the invariant of reachable trees
* `MemoryTree.Reachable.dirs_write` — giving a file another text leaves the directories as they are
-/

namespace PackageLint

/-! ### Keys of association lists -/

namespace Assoc

variable {α : Type} {key other : String} {value : α} {entries : Assoc α}

theorem hasKey_iff_mem : hasKey key entries = true ↔ key ∈ keys entries := by
  induction entries with
  | nil => simp [hasKey, keys]
  | cons entry rest ih =>
    obtain ⟨k, v⟩ := entry
    by_cases hk : k = key
    · simp [hasKey, get?, keys, hk]
    · simp only [hasKey, get?, if_neg hk, keys, List.map_cons, List.mem_cons, Ne.symm hk,
        false_or] at ih ⊢
      exact ih

theorem hasKey_put : hasKey other (put key value entries) = true
    ↔ other = key ∨ hasKey other entries = true := by
  rw [hasKey_iff_mem, hasKey_iff_mem, mem_keys_put]

theorem hasKey_iff_get? : hasKey key entries = true ↔ ∃ value, get? key entries = some value :=
  Option.isSome_iff_exists

/-- Storing what is there changes nothing. -/
theorem put_eq_self (h : get? key entries = some value) : put key value entries = entries := by
  induction entries with
  | nil => simp at h
  | cons entry rest ih =>
    obtain ⟨k, v⟩ := entry
    rw [get?] at h
    rw [put]
    split at h
    next hk => rw [if_pos hk, ← Option.some.inj h, hk]
    next hk => rw [if_neg hk, ih h]

end Assoc

/-! ### The way to a path -/

namespace Path

/-- The name that follows an initial segment of a list of names. -/
def nextAfter : List Segment → List Segment → Option Segment
  | [], s :: _ => some s
  | a :: front, b :: names => if a = b then nextAfter front names else none
  | _, [] => none

theorem nextAfter_eq_some {front names : List Segment} {s : Segment} :
    nextAfter front names = some s ↔ ∃ rest, names = front ++ s :: rest := by
  induction front generalizing names with
  | nil => cases names <;> simp [nextAfter]
  | cons a front ih =>
    cases names with
    | nil => simp [nextAfter]
    | cons b names =>
      rw [nextAfter]
      split
      next heq => simp [ih, heq]
      next hne => simp [Ne.symm hne]

theorem nextAfter_concat (front names : List Segment) (s : Segment) :
    nextAfter front (names ++ [s]) = if front = names then some s else nextAfter front names := by
  induction front generalizing names with
  | nil => cases names <;> simp [nextAfter]
  | cons a front ih =>
    cases names with
    | nil => cases front <;> simp [nextAfter]
    | cons b names =>
      rw [List.cons_append, nextAfter, nextAfter, ih]
      by_cases hab : a = b <;> simp [hab]

theorem nextAfter_self (names : List Segment) : nextAfter names names = none := by
  induction names with
  | nil => rfl
  | cons a names ih => simp [nextAfter, ih]

end Path

namespace MemoryTree

open PackageLint.Path

variable {k : Nat} {names : List Segment} {s : Segment}

/-- The directories above a normal path, each with the name that it lists on the way there. -/
def lineage (path : String) : List (String × String) :=
  let parents := Path.ancestors path
  parents.zip ((path :: parents).map Path.baseName)

theorem lineage_root (hk : IsRoot k) : lineage (ofNames k []) = [(ofNames k [], "")] := by
  rcases hk with rfl | rfl <;> decide

theorem lineage_ofNames (hk : IsRoot k) (h : Names names) (hs : IsName s) :
    lineage (ofNames k (names ++ [s]))
      = (ofNames k names, String.ofList s) ::
          if names = [] then [] else lineage (ofNames k names) := by
  simp only [lineage, ancestors_ofNames hk h hs, List.map_cons, baseName_ofNames hk hs]
  rcases List.eq_nil_or_concat' names with rfl | ⟨front, t, rfl⟩
  · simp
  · obtain ⟨hfront, ht⟩ := names_append.mp h
    rw [ancestors_ofNames hk hfront (names_singleton.mp ht)]
    simp

/-- What the directories above a path list on the way to it. -/
theorem get?_lineage (hk : IsRoot k) (h : Names names) (hne : names ≠ []) {j : Nat}
    {dir : List Segment} (hj : IsRoot j) (hd : Names dir) :
    Assoc.get? (ofNames j dir) (lineage (ofNames k names))
      = if j = k then (nextAfter dir names).map String.ofList else none := by
  induction names using List.reverseRecOn with
  | nil => exact absurd rfl hne
  | append_singleton front t ih =>
    obtain ⟨hfront, ht⟩ := names_append.mp h
    rw [lineage_ofNames hk hfront (names_singleton.mp ht), Assoc.get?, nextAfter_concat]
    have hinj := ofNames_inj hk.le hfront hj.le hd
    by_cases heq : ofNames k front = ofNames j dir
    · obtain ⟨rfl, rfl⟩ := hinj.mp heq
      simp
    · rw [if_neg heq]
      by_cases hjk : j = k
      · subst hjk
        have hdir : dir ≠ front := fun h => heq (hinj.mpr ⟨rfl, h.symm⟩)
        by_cases hf : front = []
        · subst hf
          cases dir with
          | nil => exact absurd rfl hdir
          | cons a rest => simp [nextAfter]
        · simp only [if_neg hf, ih hfront hf, if_neg hdir]
      · by_cases hf : front = []
        · simp [hf, hjk]
        · simp only [if_neg hf, ih hfront hf, if_neg hjk]

theorem nodup_keys_lineage (hk : IsRoot k) (h : Names names) :
    (Assoc.keys (lineage (ofNames k names))).Nodup := by
  induction names using List.reverseRecOn with
  | nil => simp [lineage_root hk, Assoc.keys]
  | append_singleton front t ih =>
    obtain ⟨hfront, ht⟩ := names_append.mp h
    rw [lineage_ofNames hk hfront (names_singleton.mp ht), Assoc.keys, List.map_cons]
    by_cases hf : front = []
    · simp [hf]
    · rw [if_neg hf]
      refine List.nodup_cons.mpr ⟨fun hmem => ?_, ih hfront⟩
      obtain ⟨value, hget⟩ := Assoc.hasKey_iff_get?.mp (Assoc.hasKey_iff_mem.mpr hmem)
      rw [get?_lineage hk hfront hf hk hfront, nextAfter_self] at hget
      simp at hget

/-! ### Writes -/

theorem mem_addName {name other : String} {names : List String} :
    other ∈ addName name names ↔ other = name ∨ other ∈ names := by
  rw [addName]
  split
  next h =>
    have h : name ∈ names := by simpa using h
    exact ⟨Or.inr, fun hor => hor.elim (fun heq => heq ▸ h) id⟩
  next => simp [or_comm]

theorem get?_addEntry (dirs : Assoc (List String)) (dir name other : String) :
    Assoc.get? other (addEntry dirs dir name)
      = if other = dir then some (addName name ((Assoc.get? dir dirs).getD []))
        else Assoc.get? other dirs := by
  rw [addEntry]
  split
  next h => rw [h, Assoc.get?_put_self]
  next h => exact Assoc.get?_put_of_ne h _ _

theorem get?_foldl_addEntry {steps : List (String × String)} (h : (Assoc.keys steps).Nodup)
    (dirs : Assoc (List String)) (dir : String) :
    Assoc.get? dir (steps.foldl (fun dirs step => addEntry dirs step.1 step.2) dirs)
      = match Assoc.get? dir steps with
        | some name => some (addName name ((Assoc.get? dir dirs).getD []))
        | none => Assoc.get? dir dirs := by
  induction steps generalizing dirs with
  | nil => rfl
  | cons step rest ih =>
    obtain ⟨d, name⟩ := step
    rw [Assoc.keys, List.map_cons, List.nodup_cons] at h
    rw [List.foldl_cons, ih h.2, get?_addEntry, Assoc.get?]
    by_cases hd : d = dir
    · subst hd
      have hnone : Assoc.get? d rest = none := by
        cases hget : Assoc.get? d rest with
        | none => rfl
        | some value =>
          exact absurd (Assoc.hasKey_iff_mem.mp (Assoc.hasKey_iff_get?.mpr ⟨_, hget⟩)) h.1
      simp [hnone]
    · rw [if_neg hd, if_neg (Ne.symm hd)]

/-- A climb from a directory below the root `/` lists the way to it. -/
theorem climb_ofNames (h : Names names) (dirs : Assoc (List String)) (child : String) {bound : Nat}
    (hb : names.length < bound) :
    climb bound dirs child (ofNames 1 names)
      = some ((if names = [] then [] else lineage (ofNames 1 names)).foldl
          (fun dirs step => addEntry dirs step.1 step.2)
          (addEntry dirs (ofNames 1 names) (baseName child))) := by
  have hone : IsRoot 1 := Or.inl rfl
  induction names using List.reverseRecOn generalizing dirs child bound with
  | nil =>
    obtain ⟨bound, rfl⟩ := Nat.exists_eq_succ_of_ne_zero (Nat.ne_zero_of_lt hb)
    have hroot : ofNames 1 [] = "/" := by decide
    rw [climb, if_pos hroot, if_pos rfl]
    rfl
  | append_singleton front s ih =>
    obtain ⟨bound, rfl⟩ := Nat.exists_eq_succ_of_ne_zero (Nat.ne_zero_of_lt hb)
    obtain ⟨hfront, hs⟩ := names_append.mp h
    have hs := names_singleton.mp hs
    have hlt : front.length < bound := by
      rw [List.length_append, List.length_singleton] at hb
      omega
    have hne : ofNames 1 (front ++ [s]) ≠ "/" := by simp [ofNames_eq_root_iff hone h]
    rw [climb, if_neg hne, if_neg (by simp), parent_ofNames hone hfront hs, ih hfront _ _ hlt,
      lineage_ofNames hone hfront hs, baseName_ofNames hone hs, List.foldl_cons]

/-- A climb from a path below the root `/` lists the way to it. -/
theorem climb_lineage (h : Names names) (dirs : Assoc (List String)) {bound : Nat}
    (hb : names.length < bound) :
    climb bound dirs (ofNames 1 names) (parent (ofNames 1 names))
      = some ((lineage (ofNames 1 names)).foldl
          (fun dirs step => addEntry dirs step.1 step.2) dirs) := by
  have hone : IsRoot 1 := Or.inl rfl
  rcases List.eq_nil_or_concat' names with rfl | ⟨front, s, rfl⟩
  · rw [parent_root hone, climb_ofNames names_nil dirs _ hb, lineage_root hone]
    rfl
  · obtain ⟨hfront, hs⟩ := names_append.mp h
    have hs := names_singleton.mp hs
    have hlt : front.length < bound := by
      rw [List.length_append] at hb
      omega
    rw [parent_ofNames hone hfront hs, climb_ofNames hfront dirs _ hlt,
      lineage_ofNames hone hfront hs, baseName_ofNames hone hs, List.foldl_cons]

/-- A path with two slashes at its start keeps them on the way up, so that a climb from there does not
come to the root `/`. -/
theorem climb_eq_none (h : Names names) (dirs : Assoc (List String)) (child : String) (bound : Nat) :
    climb bound dirs child (ofNames 2 names) = none := by
  have htwo : IsRoot 2 := Or.inr rfl
  induction bound generalizing names dirs child with
  | zero => rfl
  | succ bound ih =>
    have hne : ofNames 2 names ≠ "/" := by simp [ofNames_eq_root_iff htwo h]
    obtain ⟨front, hfront, hparent⟩ := exists_parent_ofNames htwo h
    rw [climb, if_neg hne, hparent]
    exact ih hfront _ _

/-- A write succeeds on the paths that start with one slash. -/
theorem write_eq_ok_iff {tree tree' : MemoryTree} {path content : String} :
    tree.write path content = .ok tree'
      ↔ (∃ names, Names names ∧ normalize path = ofNames 1 names)
        ∧ tree'.files = Assoc.put (normalize path) content tree.files
        ∧ tree'.dirs = (lineage (normalize path)).foldl
            (fun dirs step => addEntry dirs step.1 step.2) tree.dirs := by
  obtain ⟨files, dirs⟩ := tree'
  by_cases h : isRooted (normalize path) = true
  · obtain ⟨k, names, hk, hnames, hpath⟩ := normalize_rooted h
    obtain ⟨front, hfront, hparent⟩ := exists_parent_ofNames hk hnames
    have hone (others : List Segment) :
        Names others ∧ ofNames k names = ofNames 1 others ↔ k = 1 ∧ names = others := by
      constructor
      · rintro ⟨hothers, heq⟩
        exact (ofNames_inj hk.le hnames (by omega) hothers).mp heq
      · rintro ⟨rfl, rfl⟩
        exact ⟨hnames, rfl⟩
    have hrooted := isRooted_ofNames hk hnames
    simp only [write, afterWrite, hpath, hrooted, if_true, hone, exists_and_left, exists_eq',
      and_true]
    rcases hk with rfl | rfl
    · have hbound : names.length < (ofNames 1 names).length + 1 := by
        rw [← String.length_toList, toList_ofNames]
        exact Nat.lt_succ_of_le (length_le_ofSegments 1 hnames)
      simp only [climb_lineage hnames tree.dirs hbound, Except.map, Except.ok.injEq, mk.injEq,
        true_and]
      exact and_congr eq_comm eq_comm
    · simp [hparent, climb_eq_none hfront, Except.map]
  · have hno : ¬∃ names, Names names ∧ normalize path = ofNames 1 names := by
      rintro ⟨names, hnames, hpath⟩
      rw [hpath] at h
      exact h (isRooted_ofNames (Or.inl rfl) hnames)
    simp [write, afterWrite, h, hno, Except.map]

theorem exists_write_of_names {path : String} (h : Names names)
    (hpath : normalize path = ofNames 1 names) (tree : MemoryTree) (content : String) :
    ∃ tree', tree.write path content = .ok tree' := by
  let files := Assoc.put (normalize path) content tree.files
  let dirs := (lineage (normalize path)).foldl
    (fun dirs step => addEntry dirs step.1 step.2) tree.dirs
  refine ⟨⟨files, dirs⟩, write_eq_ok_iff.mpr ⟨⟨names, h, hpath⟩, ?_⟩⟩
  simp only [files, dirs, and_self]

/-- The trees that writes lead to. -/
inductive Reachable : MemoryTree → Prop
  | empty : Reachable .empty
  | write {tree tree' : MemoryTree} {path content : String} (h : Reachable tree)
      (hw : tree.write path content = .ok tree') : Reachable tree'

theorem reachable_foldlM {files : List (String × String)} {tree tree' : MemoryTree}
    (ht : tree.Reachable)
    (h : files.foldlM (fun tree file => tree.write file.1 file.2) tree = .ok tree') :
    tree'.Reachable := by
  induction files generalizing tree with
  | nil =>
    obtain rfl : tree = tree' := by simpa [pure, Except.pure] using h
    exact ht
  | cons file rest ih =>
    rw [List.foldlM_cons] at h
    cases hw : tree.write file.1 file.2 with
    | error e => simp [hw, bind, Except.bind] at h
    | ok next =>
      rw [hw] at h
      exact ih (ht.write hw) h

/-- The tree of a list of files is reached by writing them. -/
theorem reachable_ofFiles {files : List (String × String)} {tree : MemoryTree}
    (h : ofFiles files = .ok tree) : tree.Reachable :=
  reachable_foldlM .empty h

/-- A list of files is written when all but the last are, and then the last one. -/
theorem ofFiles_concat_eq_ok_iff {files : List (String × String)} {file : String × String}
    {tree' : MemoryTree} :
    ofFiles (files ++ [file]) = .ok tree'
      ↔ ∃ tree, ofFiles files = .ok tree ∧ tree.write file.1 file.2 = .ok tree' := by
  rw [ofFiles, List.foldlM_append, ← ofFiles]
  cases hfiles : ofFiles files with
  | error e => simp [bind, Except.bind]
  | ok tree =>
    cases hw : tree.write file.1 file.2 <;> simp [bind, Except.bind, pure, Except.pure, hw]

/-! ### The invariant -/

/-- Whether a path is that of a file or a directory. -/
def Holds (tree : MemoryTree) (path : String) : Prop :=
  Assoc.hasKey path tree.files = true ∨ Assoc.hasKey path tree.dirs = true

/-- The invariant of trees: paths are normal ones from a root, and what a directory lists is there. -/
structure Sound (tree : MemoryTree) : Prop where
  file_normal : ∀ path, Assoc.hasKey path tree.files = true →
    ∃ k names, IsRoot k ∧ Names names ∧ path = ofNames k names
  dir_normal : ∀ path, Assoc.hasKey path tree.dirs = true →
    ∃ k names, IsRoot k ∧ Names names ∧ path = ofNames k names
  listed : ∀ k dir listing name, IsRoot k → Names dir →
    Assoc.get? (ofNames k dir) tree.dirs = some listing → name ∈ listing →
      (dir = [] ∧ name = "")
        ∨ ∃ s, IsName s ∧ name = String.ofList s ∧ tree.Holds (ofNames k (dir ++ [s]))

theorem sound_empty : empty.Sound where
  file_normal := by simp [empty, Assoc.hasKey]
  dir_normal := by
    intro path h
    refine ⟨1, [], Or.inl rfl, names_nil, ?_⟩
    obtain rfl : path = "/" := by simpa [empty, Assoc.hasKey_iff_mem, Assoc.keys] using h
    decide
  listed := by
    intro k dir listing name _ _ hget hmem
    have hentry := Assoc.mem_of_get? hget
    obtain ⟨-, rfl⟩ : _ = "/" ∧ listing = [] := by simpa [empty] using hentry
    simp at hmem

/-- What a write changes in a directory: it lists the next name on the way to the file. -/
theorem get?_dirs_write {tree tree' : MemoryTree} {path content : String}
    (hw : tree.write path content = .ok tree') (hk : IsRoot k) (h : Names names)
    (hpath : normalize path = ofNames k names) (hne : names ≠ []) {j : Nat} {dir : List Segment}
    (hj : IsRoot j) (hd : Names dir) :
    Assoc.get? (ofNames j dir) tree'.dirs
      = match (if j = k then nextAfter dir names else none) with
        | some s =>
          some (addName (String.ofList s) ((Assoc.get? (ofNames j dir) tree.dirs).getD []))
        | none => Assoc.get? (ofNames j dir) tree.dirs := by
  obtain ⟨-, -, hdirs⟩ := write_eq_ok_iff.mp hw
  rw [hdirs, hpath, get?_foldl_addEntry (nodup_keys_lineage hk h), get?_lineage hk h hne hj hd]
  by_cases hjk : j = k
  · simp only [if_pos hjk]
    cases nextAfter dir names <;> rfl
  · simp only [if_neg hjk]

theorem hasKey_files_write {tree tree' : MemoryTree} {path content other : String}
    (hw : tree.write path content = .ok tree') :
    Assoc.hasKey other tree'.files = true
      ↔ other = normalize path ∨ Assoc.hasKey other tree.files = true := by
  rw [(write_eq_ok_iff.mp hw).2.1, Assoc.hasKey_put]

theorem hasKey_foldl_addEntry (steps : List (String × String)) (dirs : Assoc (List String))
    (dir : String) :
    Assoc.hasKey dir (steps.foldl (fun dirs step => addEntry dirs step.1 step.2) dirs) = true
      ↔ dir ∈ Assoc.keys steps ∨ Assoc.hasKey dir dirs = true := by
  induction steps generalizing dirs with
  | nil => simp [Assoc.keys]
  | cons step rest ih =>
    rw [List.foldl_cons, ih, addEntry, Assoc.hasKey_put]
    simp only [Assoc.keys, List.map_cons, List.mem_cons]
    tauto

theorem hasKey_dirs_write {tree tree' : MemoryTree} {path content other : String}
    (hw : tree.write path content = .ok tree') :
    Assoc.hasKey other tree'.dirs = true
      ↔ other ∈ Assoc.keys (lineage (normalize path)) ∨ Assoc.hasKey other tree.dirs = true := by
  rw [(write_eq_ok_iff.mp hw).2.2, hasKey_foldl_addEntry]

theorem Holds.write {tree tree' : MemoryTree} {path content other : String}
    (h : tree.Holds other) (hw : tree.write path content = .ok tree') : tree'.Holds other := by
  rcases h with h | h
  · exact Or.inl ((hasKey_files_write hw).mpr (Or.inr h))
  · exact Or.inr ((hasKey_dirs_write hw).mpr (Or.inr h))

theorem mem_keys_lineage (hk : IsRoot k) (h : Names names) {dir : String}
    (hmem : dir ∈ Assoc.keys (lineage (ofNames k names))) :
    ∃ front, Names front ∧ dir = ofNames k front := by
  induction names using List.reverseRecOn with
  | nil =>
    refine ⟨[], names_nil, ?_⟩
    simpa [lineage_root hk, Assoc.keys] using hmem
  | append_singleton front t ih =>
    obtain ⟨hfront, ht⟩ := names_append.mp h
    rw [lineage_ofNames hk hfront (names_singleton.mp ht), Assoc.keys, List.map_cons,
      List.mem_cons] at hmem
    rcases hmem with rfl | hmem
    · exact ⟨front, hfront, rfl⟩
    · by_cases hf : front = []
      · simp [hf] at hmem
      · rw [if_neg hf] at hmem
        exact ih hfront hmem

/-- What a directory lists after a write was there before, or it is the next name on the way. -/
theorem listed_write {tree tree' : MemoryTree} {path content dir name : String}
    {listing : List String} (hw : tree.write path content = .ok tree')
    (hget : Assoc.get? dir tree'.dirs = some listing) (hmem : name ∈ listing) :
    (∃ old, Assoc.get? dir tree.dirs = some old ∧ name ∈ old)
      ∨ Assoc.get? dir (lineage (normalize path)) = some name := by
  obtain ⟨⟨names, hnames, hpath⟩, -, hdirs⟩ := write_eq_ok_iff.mp hw
  have hk : IsRoot 1 := Or.inl rfl
  rw [hdirs, get?_foldl_addEntry (hpath ▸ nodup_keys_lineage hk hnames)] at hget
  cases hstep : Assoc.get? dir (lineage (normalize path)) with
  | none =>
    rw [hstep] at hget
    exact Or.inl ⟨listing, hget, hmem⟩
  | some added =>
    rw [hstep] at hget
    obtain rfl := Option.some.inj hget
    rcases mem_addName.mp hmem with rfl | hmem
    · exact Or.inr rfl
    · cases hold : Assoc.get? dir tree.dirs with
      | none => simp [hold] at hmem
      | some old => exact Or.inl ⟨old, rfl, by simpa [hold] using hmem⟩

/-- The next name on the way to a path leads to the path itself or to a directory above it. -/
theorem holds_next {tree tree' : MemoryTree} {path content : String}
    (hw : tree.write path content = .ok tree') (hk : IsRoot k) {dir rest : List Segment}
    (h : Names (dir ++ s :: rest)) (hpath : normalize path = ofNames k (dir ++ s :: rest)) :
    tree'.Holds (ofNames k (dir ++ [s])) := by
  cases rest with
  | nil => exact Or.inl ((hasKey_files_write hw).mpr (Or.inl hpath.symm))
  | cons t rest =>
    have hdir : Names (dir ++ [s]) := by
      obtain ⟨hd, hrest⟩ := names_append.mp h
      exact hd.concat ((names_cons.mp hrest).1)
    have hnext : nextAfter (dir ++ [s]) (dir ++ s :: t :: rest) = some t :=
      nextAfter_eq_some.mpr ⟨rest, by simp⟩
    refine Or.inr ((hasKey_dirs_write hw).mpr (Or.inl ?_))
    rw [hpath, ← Assoc.hasKey_iff_mem, Assoc.hasKey_iff_get?]
    exact ⟨String.ofList t, by rw [get?_lineage hk h (by simp) hk hdir, if_pos rfl, hnext]; rfl⟩

/-- A write preserves the invariant. -/
theorem Sound.write {tree tree' : MemoryTree} {path content : String} (h : tree.Sound)
    (hw : tree.write path content = .ok tree') : tree'.Sound := by
  obtain ⟨names, hnames, hpath⟩ := (write_eq_ok_iff.mp hw).1
  have hk : IsRoot 1 := Or.inl rfl
  refine ⟨?_, ?_, ?_⟩
  · intro other hother
    rcases (hasKey_files_write hw).mp hother with rfl | hother
    · exact ⟨1, names, hk, hnames, hpath⟩
    · exact h.file_normal other hother
  · intro other hother
    rcases (hasKey_dirs_write hw).mp hother with hother | hother
    · rw [hpath] at hother
      obtain ⟨front, hfront, rfl⟩ := mem_keys_lineage hk hnames hother
      exact ⟨1, front, hk, hfront, rfl⟩
    · exact h.dir_normal other hother
  · intro j dir listing name hj hd hget hmem
    rcases listed_write hw hget hmem with ⟨old, hold, hmem⟩ | hstep
    · refine (h.listed j dir old name hj hd hold hmem).imp id ?_
      rintro ⟨s, hs, rfl, hholds⟩
      exact ⟨s, hs, rfl, hholds.write hw⟩
    · rw [hpath] at hstep
      by_cases hne : names = []
      · subst hne
        rw [lineage_root hk, Assoc.get?] at hstep
        split at hstep
        next heq =>
          obtain ⟨-, rfl⟩ := (ofNames_inj hk.le names_nil hj.le hd).mp heq
          exact Or.inl ⟨rfl, (Option.some.inj hstep).symm⟩
        next => simp at hstep
      · rw [get?_lineage hk hnames hne hj hd] at hstep
        split at hstep
        next hjk =>
          subst hjk
          obtain ⟨s, hnext, rfl⟩ := Option.map_eq_some_iff.mp hstep
          obtain ⟨rest, rfl⟩ := nextAfter_eq_some.mp hnext
          have hs : IsName s := (names_cons.mp (names_append.mp hnames).2).1
          exact Or.inr ⟨s, hs, rfl, holds_next hw hj hnames hpath⟩
        next => simp at hstep

/-- The invariant of reachable trees. -/
theorem Reachable.sound {tree : MemoryTree} (h : tree.Reachable) : tree.Sound := by
  induction h with
  | empty => exact sound_empty
  | write _ hw ih => exact ih.write hw

/-- Directories along one way differ, so a tree has at least as many as it has of them. -/
theorem length_le_dirs {tree : MemoryTree} (hk : IsRoot k) (h : Names names) {n : Nat}
    (hn : n ≤ names.length + 1)
    (hdirs : ∀ m < n, Assoc.hasKey (ofNames k (names.take m)) tree.dirs = true) :
    n ≤ tree.dirs.length := by
  have hnames (m : Nat) : Names (names.take m) := h.of_subset (List.take_subset _ _)
  have hkeys : ((List.range n).map fun m => ofNames k (names.take m)) ⊆ Assoc.keys tree.dirs := by
    intro path hpath
    obtain ⟨m, hm, rfl⟩ := List.mem_map.mp hpath
    exact Assoc.hasKey_iff_mem.mp (hdirs m (List.mem_range.mp hm))
  have hnodup : ((List.range n).map fun m => ofNames k (names.take m)).Nodup := by
    refine (List.nodup_map_iff_inj_on List.nodup_range).mpr fun a ha b hb heq => ?_
    rw [ofNames_inj hk.le (hnames a) hk.le (hnames b)] at heq
    have hlength := congrArg List.length heq.2
    rw [List.mem_range] at ha hb
    simp only [List.length_take] at hlength
    omega
  have hle := (List.subperm_of_subset hnodup hkeys).length_le
  rwa [List.length_map, List.length_range, Assoc.keys, List.length_map] at hle

/-! ### Files that are written again -/

/-- The directories above a file list the way to it. -/
theorem Reachable.listed_lineage {tree : MemoryTree} (h : tree.Reachable) {path dir name : String}
    (hfile : Assoc.hasKey path tree.files = true) (hstep : Assoc.get? dir (lineage path) = some name) :
    ∃ names, Assoc.get? dir tree.dirs = some names ∧ name ∈ names := by
  induction h with
  | empty => simp [MemoryTree.empty, Assoc.hasKey] at hfile
  | @write tree tree' written content _ hw ih =>
    obtain ⟨⟨segments, hsegments, hpath⟩, -, hdirs⟩ := write_eq_ok_iff.mp hw
    have hk : IsRoot 1 := Or.inl rfl
    have hget := get?_foldl_addEntry (hpath ▸ nodup_keys_lineage hk hsegments) tree.dirs dir
    rw [← hdirs] at hget
    rcases (hasKey_files_write hw).mp hfile with rfl | hfile
    · rw [hstep] at hget
      exact ⟨_, hget, mem_addName.mpr (Or.inl rfl)⟩
    · obtain ⟨names, hnames, hmem⟩ := ih hfile
      rw [hnames] at hget
      cases hother : Assoc.get? dir (lineage (normalize written)) with
      | none =>
        rw [hother] at hget
        exact ⟨names, hget, hmem⟩
      | some other =>
        rw [hother] at hget
        exact ⟨_, hget, mem_addName.mpr (Or.inr hmem)⟩

/-- Listing what is listed changes nothing. -/
theorem foldl_addEntry_eq_self {dirs : Assoc (List String)} {steps : List (String × String)}
    (h : ∀ step ∈ steps, ∃ names, Assoc.get? step.1 dirs = some names ∧ step.2 ∈ names) :
    steps.foldl (fun dirs step => addEntry dirs step.1 step.2) dirs = dirs := by
  induction steps with
  | nil => rfl
  | cons step rest ih =>
    obtain ⟨⟨names, hnames, hmem⟩, hrest⟩ := List.forall_mem_cons.mp h
    have hself : addEntry dirs step.1 step.2 = dirs := by
      rw [addEntry, hnames, Option.getD_some, addName, if_pos (by simpa using hmem),
        Assoc.put_eq_self hnames]
    rw [List.foldl_cons, hself, ih hrest]

/-- Giving a file another text leaves the directories as they are. -/
theorem Reachable.dirs_write {tree tree' : MemoryTree} (h : tree.Reachable) {path content : String}
    (hfile : Assoc.hasKey (normalize path) tree.files = true)
    (hw : tree.write path content = .ok tree') : tree'.dirs = tree.dirs := by
  obtain ⟨⟨names, hnames, hpath⟩, -, hdirs⟩ := write_eq_ok_iff.mp hw
  have hk : IsRoot 1 := Or.inl rfl
  rw [hdirs]
  refine foldl_addEntry_eq_self fun step hstep => h.listed_lineage hfile ?_
  exact Assoc.get?_of_mem (hpath ▸ nodup_keys_lineage hk hnames) hstep

end MemoryTree

end PackageLint
