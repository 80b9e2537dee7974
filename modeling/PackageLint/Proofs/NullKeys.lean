import PackageLint.Proofs.GlobbedTargets
import PackageLint.Proofs.ReorderedSubpaths
import PackageLint.Proofs.WalkedFiles

/-!
# What null keys hide

A null in a map of subpaths takes subpaths back that other keys give away. With `./*` for the files of
a directory and null for `./internal/*`, no file of `internal` is served, and none should be checked.
A pattern is expanded without regard for the subpaths that its files get, so each file is asked for
its own: the text that the wildcard stands for is put into the key that the pattern belongs to, and
the result is held against the keys of the map that are null.

A pattern may stand deep in conditions and arrays, and all that is known of a leaf is its place. The key
is the part of the place that comes right after that of the field, be it `exports` or
`publishConfig.exports`. Nulls below the top level are alternatives that lead nowhere. They hide nothing.

## Main definitions

* `Pass.entryOf` — the condition tree of a field, as a pass sees it
* `EntryTree.matched` — the files that a pattern matches, hidden or not

## Main results

* `Pattern.match?_lines` — what a match captures, for all values
* `FileTree.found_shown`, `FileTree.expanded_shown` — a walk leaves out what is hidden, and goes on
* `Pass.null_keys_exact` — the files of a leaf, from the manifest on
-/

namespace PackageLint

/-! ### Patterns with one wildcard -/

namespace Pattern

variable {pattern : Pattern} {value s : List Char} {captures others : List (List Char)}
  {next : List Char → Option (List (List Char))}

/-- A wildcard takes characters of one line, and what follows accepts the rest. -/
theorem wildcard_lines (h : wildcard next value = some (s, others)) :
    '\n' ∉ s ∧ ∃ after, next after = some others := by
  induction value generalizing s with
  | nil => simp [wildcard] at h
  | cons c rest ih =>
    rw [wildcard] at h
    split at h
    next => simp at h
    next hc =>
      cases hrest : wildcard next rest with
      | some found =>
        obtain ⟨taken, others'⟩ := found
        simp only [hrest, Option.some.injEq, Prod.mk.injEq] at h
        obtain ⟨rfl, rfl⟩ := h
        obtain ⟨hline, hafter⟩ := ih hrest
        exact ⟨by simp [Ne.symm hc, hline], hafter⟩
      | none =>
        simp only [hrest, Option.map_eq_some_iff, Prod.mk.injEq] at h
        obtain ⟨others', hnext, rfl, rfl⟩ := h
        exact ⟨by simpa using Ne.symm hc, rest, hnext⟩

/-- A match captures one text for every wildcard, and each is of one line. -/
theorem match?_lines (h : pattern.match? value = some captures) :
    captures.length = pattern.tail.length ∧ ∀ s ∈ captures, '\n' ∉ s := by
  obtain ⟨head, tail⟩ := pattern
  induction tail generalizing head value captures with
  | nil =>
    obtain ⟨cs, -, hend⟩ := Option.bind_eq_some_iff.mp h
    obtain ⟨-, rfl⟩ : (cs = [] ∨ cs = ['\n']) ∧ [] = captures := by
      simpa [matchTail] using hend
    simp
  | cons literal tail ih =>
    rw [match?_cons] at h
    obtain ⟨cs, -, hwild⟩ := Option.bind_eq_some_iff.mp h
    obtain ⟨⟨s, others⟩, htaken, rfl⟩ := Option.map_eq_some_iff.mp hwild
    obtain ⟨hline, after, hnext⟩ := wildcard_lines htaken
    obtain ⟨hlength, hothers⟩ := ih literal hnext
    exact ⟨by simpa using hlength, List.forall_mem_cons.mpr ⟨hline, hothers⟩⟩

/-- The one text that a pattern with one wildcard captures. -/
theorem captures?_of_one {pattern value : String} {captures : List String}
    (hone : pattern.toList.count '*' = 1) (h : (ofText pattern).captures? value = some captures) :
    ∃ text, captures = [text] ∧ '\n' ∉ text.toList := by
  obtain ⟨hlength, hlines⟩ := match?_lines (captures?_eq_some_iff.mp h)
  rw [List.length_map, ofText, length_tail_ofChars, hone] at hlength
  obtain ⟨text, rfl⟩ := List.length_eq_one_iff.mp hlength
  exact ⟨text, rfl, hlines _ (by simp)⟩

theorem count_slashed (path : String) :
    (Path.slashed path).toList.count '*' = path.toList.count '*' := by
  rw [Path.slashed, Text.exchange, String.toList_ofList]
  induction path.toList with
  | nil => rfl
  | cons c rest ih =>
    rw [List.map_cons, List.count_cons, List.count_cons, ih]
    by_cases hc : c = '\\' <;> simp [hc]

end Pattern

namespace Subpath.Search

/-- A text put in for the only wildcard of a key. -/
theorem substitute_of_one {front : String} (h : '*' ∉ front.toList) (back text : String) :
    substitute (front ++ "*" ++ back) text = front ++ text ++ back := by
  refine String.toList_inj.mp ?_
  have hchars : (front ++ "*" ++ back).toList = front.toList ++ '*' :: back.toList := by simp
  rw [substitute, hchars, Text.replaceFirst?_append h]
  simp

end Subpath.Search

/-! ### Walks -/

namespace FileTree

open PackageLint.Subpath (Search)

variable {tree : FileTree} {search : Search}

/-- Without a map of keys nothing is hidden. -/
theorem hides_without_tree (search : Search) (text : String) :
    Search.hides { search with tree := none } text = false := by
  rw [← Bool.not_eq_true, Search.hides_iff]
  rintro ⟨-, key, entries, nullKey, -, htree, -⟩
  simp at htree

/-- What a search finds, it finds without a map of keys. -/
theorem finds_of_shown {path : String} (h : search.finds path = true) :
    Search.finds { search with tree := none } path = true :=
  Search.finds_iff.mpr ⟨(Search.finds_iff.mp h).1, fun _ _ s _ => hides_without_tree search s⟩

/-- Keys of a map hide files one by one: a walk finds what it finds without them, less what they
hide. -/
theorem found_shown (tree : FileTree) (search : Search) (bound : Nat) (dir : String) :
    tree.found search bound dir
      = (tree.found { search with tree := none } bound dir).filter search.finds := by
  induction bound generalizing dir with
  | zero => rfl
  | succ bound ih =>
    rw [found, found, List.filter_flatMap]
    refine List.flatMap_congr fun name _ => ?_
    have hleads : Search.leadsToPublished { search with tree := none } (Path.join dir name)
        = search.leadsToPublished (Path.join dir name) := rfl
    simp only [hleads, ih]
    split
    · split
      · split <;> rfl
      · cases hfinds : search.finds (Path.join dir name) with
        | true => simp [finds_of_shown hfinds, hfinds]
        | false =>
          rw [if_neg Bool.false_ne_true]
          split
          · simp [hfinds]
          · rfl
    · rfl

/-- The same for a search. -/
theorem expanded_shown (tree : FileTree) (search : Search) (depth : Nat) :
    tree.expanded depth search
      = (tree.expanded depth { search with tree := none }).filter search.finds := by
  rw [expanded, expanded]
  cases Pattern.topDir? search.pattern with
  | none => rfl
  | some dir =>
    simp only [found_shown tree search]
    split <;> rfl

theorem finds_of_mem_found {bound : Nat} {dir path : String}
    (h : path ∈ tree.found search bound dir) : search.finds path = true := by
  induction bound generalizing dir with
  | zero => simp [found] at h
  | succ bound ih =>
    obtain ⟨name, -, ⟨hmem, -⟩ | ⟨-, -, hfinds⟩⟩ := mem_found_succ h
    · exact ih hmem
    · exact hfinds

/-- What a search finds passes its test. -/
theorem finds_of_mem_expanded {depth : Nat} {path : String}
    (h : path ∈ tree.expanded depth search) : search.finds path = true := by
  rw [expanded] at h
  split at h
  · simp at h
  · split at h
    · exact finds_of_mem_found h
    · simp at h

end FileTree

/-! ### Leaves -/

namespace EntryTree

variable {tree : FileTree} {ctx : Context} {entry : EntryTree} {value path : String}
  {location : Location} {fields : Json.Fields}

/-- The files that the pattern of a leaf matches, hidden or not. -/
def matched (tree : FileTree) (ctx : Context) (entry : EntryTree) (value : String)
    (location : Location) : List String :=
  tree.expanded ctx.depth { entry.search ctx value location with tree := none }

theorem files_eq_filter (hvalue : Pattern.hasWildcard value = true) (tree : FileTree) (ctx : Context)
    (entry : EntryTree) (location : Location) :
    entry.files tree ctx value location
      = (entry.matched tree ctx value location).filter (entry.search ctx value location).finds := by
  rw [files, if_pos hvalue, FileTree.expanded_shown, matched]

/-- The nulls of a map, as nodes of its tree. -/
theorem exclusion_mem_ofFields {key : String} :
    (key, ConditionTree.exclusion) ∈ ConditionTree.ofFields fields ↔ (key, Json.null) ∈ fields := by
  rw [ConditionTree.ofFields_eq_map, List.mem_map]
  constructor
  · rintro ⟨⟨key, value⟩, hmem, heq⟩
    obtain ⟨rfl, hvalue⟩ := Prod.mk.inj heq
    cases value with
    | null => exact hmem
    | _ => simp [ConditionTree.ofJson] at hvalue
  · exact fun hmem => ⟨_, hmem, rfl⟩

/-- The files that a pattern with one wildcard leaves out, of those that it matches. -/
theorem not_mem_files_iff (hvalue : Pattern.hasWildcard value = true)
    (hone : (targetPath ctx value).toList.count '*' = 1)
    (htree : entry.tree = .map (ConditionTree.ofFields fields)) {front back : String}
    (hkey : entry.entryKey location = some (front ++ "*" ++ back)) (hfront : '*' ∉ front.toList)
    (hpath : path ∈ entry.matched tree ctx value location) :
    ∃ text,
      (Pattern.ofText (Path.slashed (targetPath ctx value))).captures? (Path.slashed path)
          = some [text]
        ∧ '\n' ∉ text.toList
        ∧ (path ∉ entry.files tree ctx value location
            ↔ ∃ nullKey, (nullKey, Json.null) ∈ fields
              ∧ (Pattern.ofText nullKey).accepts (front ++ text ++ back) = true) := by
  obtain ⟨⟨captures, hcaptures, -⟩, -⟩ :=
    Subpath.Search.finds_iff.mp (FileTree.finds_of_mem_expanded hpath)
  obtain ⟨text, rfl, hline⟩ :=
    Pattern.captures?_of_one ((Pattern.count_slashed _).trans hone) hcaptures
  refine ⟨text, hcaptures, hline, ?_⟩
  have hfinds : (entry.search ctx value location).finds path
      = !(entry.search ctx value location).hides text := by
    have hcaptures : (Pattern.ofText (Path.slashed (entry.search ctx value location).pattern)).captures?
        (Path.slashed path) = some [text] := hcaptures
    simp [Subpath.Search.finds, hcaptures]
  have hsearchKey : (entry.search ctx value location).key = some (front ++ "*" ++ back) := hkey
  have hne : (entry.search ctx value location).key ≠ some "" := by
    rw [hsearchKey]
    intro hempty
    simpa using congrArg String.toList (Option.some.inj hempty)
  rw [files_eq_filter hvalue, List.mem_filter, and_iff_right hpath, hfinds, Bool.not_eq_true',
    Bool.not_eq_false, Subpath.Search.hides_iff, and_iff_right hne]
  constructor
  · rintro ⟨key, entries, nullKey, hsome, hmap, hmem, haccepts⟩
    obtain rfl := Option.some.inj (hsearchKey.symm.trans hsome)
    obtain rfl := ConditionTree.map.inj (htree.symm.trans (Option.some.inj hmap))
    rw [Subpath.Search.substitute_of_one hfront] at haccepts
    exact ⟨nullKey, exclusion_mem_ofFields.mp hmem, haccepts⟩
  · rintro ⟨nullKey, hmem, haccepts⟩
    refine ⟨_, _, nullKey, hsearchKey, congrArg some htree, exclusion_mem_ofFields.mpr hmem, ?_⟩
    rw [Subpath.Search.substitute_of_one hfront]
    exact haccepts

end EntryTree

/-! ### Manifests -/

namespace Pass

/-- The condition tree of a field, as a pass sees it. -/
def entryOf (manifest : Manifest) : EntryField → EntryTree
  | .exports => exportsEntry (.of manifest)
  | .imports => importsEntry (.of manifest)

variable {ctx : Context} {field : EntryField} {fields : Json.Fields}

@[simp] theorem field_entryOf (manifest : Manifest) (field : EntryField) :
    (entryOf manifest field).field = field := by
  cases field <;> rfl

@[simp] theorem tree_entryOf (manifest : Manifest) (field : EntryField) :
    (entryOf manifest field).tree = ConditionTree.ofJson (manifest.published field.name).1 := by
  cases field <;> rfl

@[simp] theorem location_entryOf (manifest : Manifest) (field : EntryField) :
    (entryOf manifest field).location = (manifest.published field.name).2 := by
  cases field <;> rfl

/-- The leaves of a field that is an object are looked at. -/
theorem leaf_mem_plan (hroot : (ctx.manifest.published field.name).1 = .obj fields)
    {target : Crawl.Target}
    (htarget : target ∈ Crawl.targets field (entryOf ctx.manifest field).location
      (entryOf ctx.manifest field).tree) :
    (entryOf ctx.manifest field).task ctx target ∈ (plan ctx).tasks := by
  cases field with
  | exports =>
    refine task_mem_plan ?_ htarget
    change (ctx.manifest.published EntryField.exports.name).1.isSet = true
    rw [hroot]
    rfl
  | imports =>
    have hplan : importsPlan ctx (Fields.of ctx.manifest)
        = (importsEntry (Fields.of ctx.manifest)).plan ctx := by
      have hobj : (Fields.of ctx.manifest).imports.1 = .obj fields := hroot
      rw [importsPlan, hobj]
      rfl
    have hmem : (importsEntry (Fields.of ctx.manifest)).task ctx target
        ∈ (importsPlan ctx (Fields.of ctx.manifest)).tasks := by
      rw [hplan]
      exact List.mem_map.mpr ⟨target, htarget, rfl⟩
    rw [tasks_plan]
    simp only [List.mem_append]
    tauto

/-- A string below a starred key of `exports` or `imports` has a task in the plan. When it is a pattern,
the task leaves the checks of the files that the pattern matches, less those that are hidden; and where
the pattern has one wildcard, a file is hidden exactly when some null key of the top level matches the
starred key with the file's text in place of the star. -/
theorem null_keys_exact {tree : FileTree} (hl : tree.ListsDirs)
    (hd : (Json.obj ctx.manifest).DistinctKeys)
    (hroot : (ctx.manifest.published field.name).1 = .obj fields)
    {front back : String} (hfront : '*' ∉ front.toList) {rest : Location} {value : String}
    (hat : (Json.obj fields).at? ((front ++ "*" ++ back) :: rest) = some (.str value))
    (hvalue : Pattern.hasWildcard value = true) (hslash : Text.hasEnd value "/" = false)
    (hone : (EntryTree.targetPath ctx value).toList.count '*' = 1) :
    let entry := entryOf ctx.manifest field
    ∃ target, target.value = value
      ∧ target.location = (ctx.manifest.published field.name).2 ++ (front ++ "*" ++ back) :: rest
      ∧ entry.task ctx target ∈ (plan ctx).tasks
      ∧ ((field = .imports && !Text.hasStart value ".") = false →
          ∃ name, (entry.task ctx target).check.result tree = .ok
            { name
              checks := (entry.files tree ctx value target.location).filterMap
                (entry.fileCheck? ctx value target) })
      ∧ (entry.files tree ctx value target.location).Sublist
          (entry.matched tree ctx value target.location)
      ∧ ∀ path ∈ entry.matched tree ctx value target.location, ∃ text,
          (Pattern.ofText (Path.slashed (EntryTree.targetPath ctx value))).captures?
              (Path.slashed path) = some [text]
            ∧ '\n' ∉ text.toList
            ∧ (path ∉ entry.files tree ctx value target.location
                ↔ ∃ nullKey, (nullKey, Json.null) ∈ fields
                  ∧ (Pattern.ofText nullKey).accepts (front ++ text ++ back) = true) := by
  intro entry
  have htree : entry.tree = .map (ConditionTree.ofFields fields) := by
    rw [tree_entryOf, hroot, ConditionTree.ofJson]
  have hleaf : entry.tree.at? ((front ++ "*" ++ back) :: rest) = some (.leaf value) := by
    rw [tree_entryOf, hroot]
    exact ConditionTree.at?_eq_leaf.mpr hat
  have hdistinct : entry.tree.DistinctKeys := by
    rw [tree_entryOf]
    exact ConditionTree.distinctKeys_ofJson (Manifest.distinctKeys_published hd field.name)
  obtain ⟨target, htarget, hlocation, rfl, -⟩ :
      ∃ target ∈ Crawl.targets field entry.location entry.tree,
        target.location = entry.location ++ (front ++ "*" ++ back) :: rest
          ∧ target.value = value ∧ _ :=
    Crawl.exists_target hdistinct hleaf
  have hkey : entry.entryKey target.location = some (front ++ "*" ++ back) := by
    rw [EntryTree.entryKey, hlocation, List.getElem?_append_right le_rfl, Nat.sub_self]
    rfl
  refine ⟨target, rfl, hlocation.trans (by rw [location_entryOf]), leaf_mem_plan hroot htarget, ?_,
    ?_, fun path hpath => EntryTree.not_mem_files_iff hvalue hone htree hkey hfront hpath⟩
  · intro hcrawled
    refine EntryTree.result_checkTarget hl ?_ ?_
    · rw [field_entryOf]
      exact hcrawled
    · rw [EntryTree.starFolder, hslash]
      rfl
  · rw [EntryTree.files_eq_filter hvalue]
    exact List.filter_sublist

/-- Subpaths for publishing, of which those of one directory are taken back. A null among the
alternatives of a subpath takes nothing back. -/
def internalExports : Json.Fields :=
  [("./*", .obj [("node", .arr [.str "./lib/*.js"]), ("default", .null)]), ("./internal/*", .null)]

/-- A leaf in an array below a condition checks one file of two, as the other is of the directory that
is taken back. -/
theorem internal_file_hidden :
    ∃ tree, MemoryTree.ofFiles [("/p/lib/a.js", ""), ("/p/lib/internal/b.js", "")] = .ok tree
      ∧ (let manifest : Manifest := [("publishConfig", .obj [("exports", .obj internalExports)])]
        let ctx : Context := { pkgDir := "/p", manifest, depth := 4 }
        let entry := entryOf manifest .exports
        ∃ target, target.value = "./lib/*.js"
          ∧ target.location = ["publishConfig", "exports", "./*", "node", "0"]
          ∧ entry.task ctx target ∈ (plan ctx).tasks
          ∧ "/p/lib/internal/b.js" ∉ entry.files tree.toFileTree ctx target.value target.location
          ∧ "/p/lib/a.js" ∈ entry.files tree.toFileTree ctx target.value target.location) := by
  let files := [("/p/lib/a.js", ""), ("/p/lib/internal/b.js", "")]
  let tree : MemoryTree :=
    { files
      dirs := [("/", ["p"]), ("/p/lib", ["a.js", "internal"]), ("/p", ["lib"]),
        ("/p/lib/internal", ["b.js"])] }
  have htree : MemoryTree.ofFiles files = .ok tree := by cbv
  refine ⟨tree, htree, ?_⟩
  intro manifest ctx entry
  have hd : (Json.obj ctx.manifest).DistinctKeys := by
    simp [ctx, manifest, internalExports, Json.DistinctKeys, Json.FieldsDistinct,
      Json.ItemsDistinct, Assoc.keys]
  have hroot : (ctx.manifest.published EntryField.exports.name).1 = .obj internalExports := by
    cbv
  have hat : (Json.obj internalExports).at? (("./" ++ "*" ++ "") :: ["node", "0"])
      = some (.str "./lib/*.js") := by
    cbv
  obtain ⟨target, hvalue, hlocation, htask, -, -, hhidden⟩ :=
    null_keys_exact tree.listsDirs hd hroot (by decide) hat (by decide) (by decide)
      (by decide +kernel)
  have hplace : target.location = ["publishConfig", "exports", "./*", "node", "0"] :=
    hlocation.trans (by cbv)
  have hmatched : entry.matched tree.toFileTree ctx "./lib/*.js" target.location
      = ["/p/lib/a.js", "/p/lib/internal/b.js"] := by
    rw [hplace]
    decide +kernel
  refine ⟨target, hvalue, hplace, htask, ?_, ?_⟩
  · obtain ⟨text, hcaptures, -, hiff⟩ := hhidden "/p/lib/internal/b.js" (by rw [hmatched]; decide)
    obtain rfl : "internal/b" = text := by
      have hmatch : (Pattern.ofText (Path.slashed (EntryTree.targetPath ctx "./lib/*.js"))).captures?
          (Path.slashed "/p/lib/internal/b.js") = some ["internal/b"] := by
        decide +kernel
      simpa [hmatch] using hcaptures
    rw [hvalue]
    exact hiff.mpr ⟨"./internal/*", by simp [internalExports], by decide +kernel⟩
  · obtain ⟨text, hcaptures, -, hiff⟩ := hhidden "/p/lib/a.js" (by rw [hmatched]; decide)
    obtain rfl : "a" = text := by
      have hmatch : (Pattern.ofText (Path.slashed (EntryTree.targetPath ctx "./lib/*.js"))).captures?
          (Path.slashed "/p/lib/a.js") = some ["a"] := by
        decide +kernel
      simpa [hmatch] using hcaptures
    rw [hvalue, ← not_not (a := _ ∈ _), hiff]
    rintro ⟨nullKey, hmem, haccepts⟩
    obtain rfl : nullKey = "./internal/*" := by simpa [internalExports] using hmem
    exact absurd haccepts (by decide +kernel)

end Pass

end PackageLint
