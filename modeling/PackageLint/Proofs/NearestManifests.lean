import PackageLint.Proofs.RelativePaths
import PackageLint.Proofs.Relocations
import PackageLint.Proofs.WrittenTrees

/-!
# The manifest in charge of a path

The format of a file is that of its path's ending or, without such an ending, that of a manifest: of
the nearest one above the file, as long as it can be read and holds an object. What is in the way and
does not count is passed over, be it a directory of that name, a text that is no JSON, or a value that
is no object. All verdicts on formats rest on this search, so what it finds is told here without it:
the object in the deepest of the directories above that has one.

The search goes up by parents and stops at a path that is its own parent. Taking the parent shortens
any other path, whatever its form, so the search always comes to an end.

## Main definitions

* `MemoryTree.HasManifest` — the object in the manifest of a directory
* `MemoryTree.IsNearest` — the deepest directory above a path that has one
* `FileTree.Answers` — the manifest and the formats of a path

## Main results

* `Path.ancestorsFrom_parent`, `Path.exists_top` — the way up ends
* `findSome?_inits_eq_some_iff`, `findSome?_inits_congr` — what is found on it, and what it depends on
* `MemoryTree.nearest_exact` — the manifest and the formats, and which files they depend on
-/

namespace PackageLint

/-! ### The way up -/

namespace Path

theorem parentChars_prefix (cs : List Char) : parentChars cs <+: cs := by
  have hbefore : (splitLast cs).1 <+: cs := ⟨_, splitLast_fst_append cs⟩
  rw [parentChars]
  split
  · exact hbefore
  · refine List.IsPrefix.trans ?_ hbefore
    rw [dropTrailingSlashes, ← List.reverse_suffix, List.reverse_reverse]
    exact List.dropWhile_suffix _

/-- A path that is not its own parent is longer than that. -/
theorem parent_eq_or_lt (dir : String) : parent dir = dir ∨ (parent dir).length < dir.length := by
  have hstart : (parent dir).toList <+: dir.toList := by
    rw [parent, String.toList_ofList]
    exact parentChars_prefix _
  rcases Nat.lt_or_ge (parent dir).length dir.length with hlt | hge
  · exact Or.inr hlt
  · rw [← String.length_toList, ← String.length_toList] at hge
    exact Or.inl (String.toList_inj.mp (hstart.eq_of_length_le hge))

/-- From the length of a path on, the bound on the way up does not matter. -/
theorem ancestorsFrom_of_le {dir : String} {bound bound' : Nat} (h : dir.length ≤ bound)
    (hle : bound ≤ bound') : ancestorsFrom bound' dir = ancestorsFrom bound dir := by
  induction bound generalizing dir bound' with
  | zero =>
    have htop : parent dir = dir := (parent_eq_or_lt dir).resolve_right (by omega)
    cases bound' with
    | zero => rfl
    | succ bound' => simp only [ancestorsFrom, htop, if_true]
  | succ bound ih =>
    obtain ⟨bound', rfl⟩ := Nat.exists_eq_succ_of_ne_zero (Nat.ne_zero_of_lt hle)
    rw [ancestorsFrom, ancestorsFrom]
    split
    · rfl
    next hne =>
      have hlt := (parent_eq_or_lt dir).resolve_left hne
      rw [ih (by omega) (Nat.le_of_succ_le_succ hle)]

/-- The way up ends at a path that is its own parent. -/
theorem exists_top_ancestorsFrom {dir : String} {bound : Nat} (h : dir.length ≤ bound) :
    ∃ front top, ancestorsFrom bound dir = front ++ [top] ∧ parent top = top := by
  induction bound generalizing dir with
  | zero =>
    refine ⟨[], dir, rfl, (parent_eq_or_lt dir).resolve_right ?_⟩
    omega
  | succ bound ih =>
    rw [ancestorsFrom]
    split
    next htop => exact ⟨[], dir, rfl, htop⟩
    next hne =>
      have hlt := (parent_eq_or_lt dir).resolve_left hne
      obtain ⟨front, top, heq, htop⟩ := ih (Nat.le_of_lt_succ (Nat.lt_of_lt_of_le hlt h))
      exact ⟨dir :: front, top, by rw [heq, List.cons_append], htop⟩

theorem length_parent_le (path : String) : (parent path).length ≤ path.length := by
  rcases parent_eq_or_lt path with htop | hlt
  · rw [htop]
  · exact hlt.le

/-- The directories above a path are all those on the way up. -/
theorem ancestorsFrom_parent {path : String} {bound : Nat} (h : (parent path).length ≤ bound) :
    ancestorsFrom bound (parent path) = ancestors path := by
  rw [ancestorsFrom_of_le le_rfl h, ancestors, ancestorsFrom_of_le le_rfl (length_parent_le path)]

theorem exists_top (path : String) :
    ∃ front top, ancestors path = front ++ [top] ∧ parent top = top :=
  exists_top_ancestorsFrom (length_parent_le path)

end Path

/-! ### The longest initial segment -/

section Inits

variable {α β : Type} {f g : List α → Option β} {names front : List α} {b : β}

theorem findSome?_inits_concat (f : List α → Option β) (names : List α) (s : α) :
    (names ++ [s]).inits.reverse.findSome? f
      = (f (names ++ [s])).or (names.inits.reverse.findSome? f) := by
  have hinits : (names ++ [s]).inits.reverse = (names ++ [s]) :: names.inits.reverse := by simp
  rw [hinits, List.findSome?_cons]
  cases f (names ++ [s]) <;> rfl

/-- From the longest initial segment down, the first result is that of the longest one that has any. -/
theorem findSome?_inits_eq_some_iff :
    names.inits.reverse.findSome? f = some b
      ↔ ∃ dir, dir <+: names ∧ f dir = some b
          ∧ ∀ other, other <+: names → dir.length < other.length → f other = none := by
  induction names using List.reverseRecOn with
  | nil => simp
  | append_singleton names s ih =>
    rw [findSome?_inits_concat]
    cases hwhole : f (names ++ [s]) with
    | some found =>
      rw [Option.some_or]
      constructor
      · intro heq
        refine ⟨_, List.prefix_rfl, hwhole.trans heq, fun other hother hlonger => ?_⟩
        exact absurd hother.length_le (Nat.not_le.mpr hlonger)
      · rintro ⟨dir, hdir, hfound, hlonger⟩
        rcases Nat.lt_or_ge dir.length (names ++ [s]).length with hlt | hge
        · simp [hlonger _ List.prefix_rfl hlt] at hwhole
        · rw [← hwhole, ← hfound, hdir.eq_of_length_le hge]
    | none =>
      rw [Option.none_or, ih]
      constructor
      · rintro ⟨dir, hdir, hfound, hlonger⟩
        refine ⟨dir, hdir.trans (List.prefix_append _ _), hfound, fun other hother hlength => ?_⟩
        rcases List.prefix_concat_iff.mp hother with rfl | hother
        · exact hwhole
        · exact hlonger other hother hlength
      · rintro ⟨dir, hdir, hfound, hlonger⟩
        rcases List.prefix_concat_iff.mp hdir with rfl | hdir
        · simp [hwhole] at hfound
        · exact ⟨dir, hdir, hfound, fun other hother =>
            hlonger other (hother.trans (List.prefix_append _ _))⟩

theorem findSome?_inits_eq_none_iff :
    names.inits.reverse.findSome? f = none ↔ ∀ dir, dir <+: names → f dir = none := by
  simp [List.findSome?_eq_none_iff]

/-- The first result depends on no initial segment that is shorter than one with a result. -/
theorem findSome?_inits_congr (hfront : front <+: names) (hstop : front = [] ∨ f front ≠ none)
    (h : ∀ dir, dir <+: names → front <+: dir → g dir = f dir) :
    names.inits.reverse.findSome? g = names.inits.reverse.findSome? f := by
  induction names using List.reverseRecOn with
  | nil =>
    obtain rfl := List.prefix_nil.mp hfront
    simp [h [] List.prefix_rfl List.prefix_rfl]
  | append_singleton names s ih =>
    rw [findSome?_inits_concat, findSome?_inits_concat, h _ List.prefix_rfl hfront]
    rcases List.prefix_concat_iff.mp hfront with rfl | hfront
    · obtain ⟨b, hb⟩ := Option.ne_none_iff_exists'.mp (hstop.resolve_left (by simp))
      rw [hb, Option.some_or, Option.some_or]
    · rw [ih hfront fun dir hdir => h dir (hdir.trans (List.prefix_append _ _))]

end Inits

/-! ### Manifests in a tree -/

namespace MemoryTree

open PackageLint.Path

variable {files files' : List (String × String)} {tree tree' : MemoryTree} {k : Nat}
  {names dir : List Segment} {s : Segment} {manifest : Manifest}

/-- The path of the manifest of a directory. -/
def manifestPath (k : Nat) (dir : List Segment) : String := ofNames k (dir ++ [manifestName.toList])

/-- The object in the manifest of a directory, by the text that was written there last. -/
def HasManifest (files : List (String × String)) (k : Nat) (dir : List Segment)
    (manifest : Manifest) : Prop :=
  ∃ text, lastText? files (manifestPath k dir) = some text ∧ Manifest.ofText? text = some manifest

/-- The deepest directory at or above one that has a manifest, with its object. -/
structure IsNearest (files : List (String × String)) (k : Nat) (names dir : List Segment)
    (manifest : Manifest) : Prop where
  above : dir <+: names
  has : HasManifest files k dir manifest
  deepest : ∀ other, other <+: names → dir.length < other.length →
    ∀ manifest, ¬HasManifest files k other manifest

/-- What can be read is there, so that the search asks nothing else of a manifest. -/
theorem manifestIn?_eq_some_iff {dir : String} :
    tree.toFileTree.manifestIn? dir = some manifest
      ↔ ∃ text, tree.contents (join dir manifestName) = .ok text
          ∧ Manifest.ofText? text = some manifest := by
  refine ⟨FileTree.manifestIn?_eq_some, ?_⟩
  rintro ⟨text, htext, hmanifest⟩
  have hread : tree.toFileTree.contents (join dir manifestName) = .ok text := htext
  have hthere := isThere_of_readable ⟨text, hread⟩
  rw [FileTree.manifestIn?, if_pos hthere, hread]
  exact hmanifest

/-- The manifest of a directory is told by the text that was written to it last. -/
theorem Written.manifestIn?_eq (h : tree.Written files) (hk : IsRoot k) (hdir : Names dir) :
    tree.toFileTree.manifestIn? (ofNames k dir)
      = (lastText? files (manifestPath k dir)).bind Manifest.ofText? := by
  have hname := Package.isName_manifestName
  have hall : Names (dir ++ [manifestName.toList]) := hdir.concat hname
  have hjoin : join (ofNames k dir) manifestName = manifestPath k dir := by
    rw [manifestPath, ← join_ofNames hk hdir hname, String.ofList_toList]
  have hslash : namesDirectory (manifestPath k dir) = false := by
    rw [namesDirectory, manifestPath, toList_ofNames]
    simpa using getLast?_ofSegments_ne k dir hname
  have hnormal : normalize (manifestPath k dir) = manifestPath k dir := normalize_ofNames hk hall
  refine Option.ext fun manifest => ?_
  rw [manifestIn?_eq_some_iff, hjoin, Option.bind_eq_some_iff]
  refine exists_congr fun text => and_congr_left fun _ => ?_
  rw [contents_eq_ok_iff, hnormal, h.texts, and_iff_left hslash]

theorem Written.manifestIn?_eq_some_iff (h : tree.Written files) (hk : IsRoot k)
    (hdir : Names dir) :
    tree.toFileTree.manifestIn? (ofNames k dir) = some manifest
      ↔ HasManifest files k dir manifest := by
  rw [h.manifestIn?_eq hk hdir, Option.bind_eq_some_iff]
  rfl

theorem Written.manifestIn?_eq_none_iff (h : tree.Written files) (hk : IsRoot k)
    (hdir : Names dir) :
    tree.toFileTree.manifestIn? (ofNames k dir) = none
      ↔ ∀ manifest, ¬HasManifest files k dir manifest := by
  simp only [← h.manifestIn?_eq_some_iff hk hdir, Option.eq_none_iff_forall_ne_some, ne_eq]

end MemoryTree

/-! ### The search -/

namespace FileTree

open PackageLint.Path

variable {k : Nat} {names : List Segment} {s : Segment}

/-- The manifest of a path is looked for in the directories above it, also when its last name loses
an ending. -/
theorem nearestManifest?_dropEnd (tree : FileTree) (hk : IsRoot k) (hnames : Names names)
    (hs : IsName s) {ending : String} (h : '/' ∉ ending.toList) :
    tree.nearestManifest? (Text.dropEnd (ofNames k (names ++ [s])) ending)
      = names.inits.reverse.findSome? fun dir => tree.manifestIn? (ofNames k dir) := by
  let d : Dir := ⟨k, names, hk, hnames⟩
  let i : Inner := ⟨[s], false, names_singleton.mpr hs, Or.inl (List.cons_ne_nil _ _)⟩
  have hpath : d.at i = ofNames k (names ++ [s]) := d.at_eq_ofNames i rfl
  have hancestors := d.ancestors_dropEnd_at i h
  rw [hpath] at hancestors
  have habove : d.names ++ i.above = names := List.append_nil names
  rw [nearestManifest?, hancestors, habove, List.findSome?_map]
  rfl

theorem nearestManifest?_ofNames (tree : FileTree) (hk : IsRoot k) (hnames : Names names)
    (hs : IsName s) :
    tree.nearestManifest? (ofNames k (names ++ [s]))
      = names.inits.reverse.findSome? fun dir => tree.manifestIn? (ofNames k dir) := by
  have hempty : '/' ∉ "".toList := by decide
  have hdrop := tree.nearestManifest?_dropEnd hk hnames hs hempty
  rwa [Text.dropEnd_empty] at hdrop

/-- The manifest that a tree finds for a path, and the formats that it gives to the path when its
ending states none. -/
structure Answers (tree : FileTree) (path : String) (found : Option Manifest) : Prop where
  nearest : (Manifest.nearest path).run tree = ⟨[], .ok found⟩
  code : Source.statesFormat (Text.dropEnd path Manifest.platformEnding) = false →
    (Manifest.expectedFormat path).run tree = ⟨[], .ok (Manifest.formatOf found)⟩
  declaration : Source.endsInOneOf [".d.mts", ".d.cts"] path = false →
    (Manifest.expectedDeclarationFormat path).run tree = ⟨[], .ok (Manifest.formatOf found)⟩

/-- The formats and the search rest on the same manifest, though a code file loses the ending of its
platform first. -/
theorem answers_ofNames (tree : FileTree) (hk : IsRoot k) (hnames : Names names) (hs : IsName s) :
    tree.Answers (ofNames k (names ++ [s])) (tree.nearestManifest? (ofNames k (names ++ [s]))) where
  nearest := Manifest.run_nearest tree _
  code := by
    intro hends
    obtain ⟨hmjs, hcjs⟩ : Text.hasEnd _ ".mjs" = false ∧ Text.hasEnd _ ".cjs" = false := by
      simpa [Source.statesFormat, Source.endsInOneOf] using hends
    have hsame := (tree.nearestManifest?_dropEnd hk hnames hs
      (show '/' ∉ Manifest.platformEnding.toList by decide)).trans
      (tree.nearestManifest?_ofNames hk hnames hs).symm
    rw [Manifest.run_expectedFormat, expectedFormat, ← hsame]
    simp only [hmjs, hcjs, Bool.false_eq_true, if_false]
  declaration := by
    intro hends
    obtain ⟨hmts, hcts⟩ : Text.hasEnd _ ".d.mts" = false ∧ Text.hasEnd _ ".d.cts" = false := by
      simpa [Source.endsInOneOf] using hends
    rw [Manifest.run_expectedDeclarationFormat, expectedDeclarationFormat]
    simp only [hmts, hcts, Bool.false_eq_true, if_false]

end FileTree

/-! ### What is found -/

namespace Manifest

theorem declaresEsm_iff (manifest : Manifest) :
    manifest.declaresEsm = true ↔ Json.field manifest "type" = .str "module" := by
  rw [declaresEsm]
  split
  next s hs => simp [hs]
  next hno => simpa using hno "module"

theorem formatOf_eq_esm_iff {found : Option Manifest} :
    formatOf found = .esm
      ↔ ∃ manifest, found = some manifest ∧ Json.field manifest "type" = .str "module" := by
  cases found with
  | none => simp [formatOf]
  | some manifest => simp [formatOf, ← declaresEsm_iff]

end Manifest

namespace MemoryTree

open PackageLint.Path

variable {files files' : List (String × String)} {tree tree' : MemoryTree} {k : Nat}
  {names dir : List Segment} {s : Segment} {manifest : Manifest}

theorem Written.nearestManifest?_eq_some_iff (h : tree.Written files) (hk : IsRoot k)
    (hnames : Names names) (hs : IsName s) :
    tree.toFileTree.nearestManifest? (ofNames k (names ++ [s])) = some manifest
      ↔ ∃ dir, IsNearest files k names dir manifest := by
  rw [tree.toFileTree.nearestManifest?_ofNames hk hnames hs, findSome?_inits_eq_some_iff]
  refine exists_congr fun dir => ⟨?_, ?_⟩
  · rintro ⟨habove, hfound, hdeepest⟩
    refine ⟨habove, ?_, fun other hother hlonger => ?_⟩
    · exact (h.manifestIn?_eq_some_iff hk (hnames.of_subset habove.subset)).mp hfound
    · exact (h.manifestIn?_eq_none_iff hk (hnames.of_subset hother.subset)).mp
        (hdeepest other hother hlonger)
  · rintro ⟨habove, hhas, hdeepest⟩
    refine ⟨habove, ?_, fun other hother hlonger => ?_⟩
    · exact (h.manifestIn?_eq_some_iff hk (hnames.of_subset habove.subset)).mpr hhas
    · exact (h.manifestIn?_eq_none_iff hk (hnames.of_subset hother.subset)).mpr
        (hdeepest other hother hlonger)

theorem Written.nearestManifest?_eq_none_iff (h : tree.Written files) (hk : IsRoot k)
    (hnames : Names names) (hs : IsName s) :
    tree.toFileTree.nearestManifest? (ofNames k (names ++ [s])) = none
      ↔ ∀ dir, dir <+: names → ∀ manifest, ¬HasManifest files k dir manifest := by
  rw [tree.toFileTree.nearestManifest?_ofNames hk hnames hs, findSome?_inits_eq_none_iff]
  refine forall₂_congr fun dir hdir => ?_
  exact h.manifestIn?_eq_none_iff hk (hnames.of_subset hdir.subset)

/-- Manifests that are further up than one that is there do not matter, and neither do other files. -/
theorem Written.nearestManifest?_congr (h : tree.Written files) (h' : tree'.Written files')
    (hk : IsRoot k) (hnames : Names names) (hs : IsName s) (hdir : dir <+: names)
    (hstop : dir = [] ∨ ∃ manifest, HasManifest files k dir manifest)
    (hsame : ∀ other, dir <+: other → other <+: names →
      lastText? files' (manifestPath k other) = lastText? files (manifestPath k other)) :
    tree'.toFileTree.nearestManifest? (ofNames k (names ++ [s]))
      = tree.toFileTree.nearestManifest? (ofNames k (names ++ [s])) := by
  rw [tree.toFileTree.nearestManifest?_ofNames hk hnames hs,
    tree'.toFileTree.nearestManifest?_ofNames hk hnames hs]
  refine findSome?_inits_congr hdir (hstop.imp_right ?_) fun other hother hbelow => ?_
  · rintro ⟨manifest, hmanifest⟩ hnone
    exact (h.manifestIn?_eq_none_iff hk (hnames.of_subset hdir.subset)).mp hnone manifest hmanifest
  · have hother' := hnames.of_subset hother.subset
    rw [h.manifestIn?_eq hk hother', h'.manifestIn?_eq hk hother', hsame other hbelow hother]

/-- The search for the manifest of a path ends. It asks the directories above the path and finds the
object in the deepest of them that has one, which the formats rest on; no file matters but the
manifests from there on down. -/
theorem nearest_exact (hbelow : ∀ file ∈ files, isBelowRoot file.1 = true)
    (htree : ofFiles files = .ok tree) (hk : IsRoot k) (hnames : Names names) (hs : IsName s) :
    let path := ofNames k (names ++ [s])
    (∀ bound, (parent path).length ≤ bound → ancestorsFrom bound (parent path) = ancestors path)
      ∧ (∃ front top, ancestors path = front ++ [top] ∧ parent top = top)
      ∧ ancestors path = names.inits.reverse.map (ofNames k)
      ∧ ∃ found, tree.toFileTree.Answers path found
          ∧ (∀ manifest, found = some manifest ↔ ∃ dir, IsNearest files k names dir manifest)
          ∧ (found = none ↔ ∀ dir, dir <+: names → ∀ manifest, ¬HasManifest files k dir manifest)
          ∧ (Manifest.formatOf found = .esm
              ↔ ∃ manifest, found = some manifest ∧ Json.field manifest "type" = .str "module")
          ∧ ∀ dir, dir <+: names → (dir = [] ∨ ∃ manifest, HasManifest files k dir manifest) →
              ∀ files' tree', (∀ file ∈ files', isBelowRoot file.1 = true) →
                ofFiles files' = .ok tree' →
                (∀ other, dir <+: other → other <+: names →
                  lastText? files' (manifestPath k other) = lastText? files (manifestPath k other)) →
                tree'.toFileTree.Answers path found := by
  intro path
  have hwritten := written_ofFiles hbelow htree
  refine ⟨fun bound hbound => ancestorsFrom_parent hbound, exists_top path,
    ancestors_ofNames hk hnames hs, tree.toFileTree.nearestManifest? path,
    tree.toFileTree.answers_ofNames hk hnames hs,
    fun manifest => hwritten.nearestManifest?_eq_some_iff hk hnames hs,
    hwritten.nearestManifest?_eq_none_iff hk hnames hs, Manifest.formatOf_eq_esm_iff, ?_⟩
  intro dir hdir hstop files' tree' hbelow' htree' hsame
  have hwritten' := written_ofFiles hbelow' htree'
  have hanswers := tree'.toFileTree.answers_ofNames hk hnames hs
  rwa [hwritten.nearestManifest?_congr hwritten' hk hnames hs hdir hstop hsame] at hanswers

/-- Two directories below one with a manifest have something else under that name: a text that holds
no object, and a directory. A manifest above them all is of no account. -/
theorem nearest_passes_over :
    let files := [("/p/package.json", "\x7b\"type\":\"module\"\x7d"), ("/p/d/package.json", "[]"),
      ("/p/d/e/package.json/x", "")]
    let names := ["p".toList, "d".toList, "e".toList]
    let manifest : Manifest := [("type", .str "module")]
    (∀ file ∈ files, isBelowRoot file.1 = true) ∧ IsRoot 1 ∧ Names names ∧ IsName "a.js".toList
      ∧ (∃ tree, ofFiles files = .ok tree ∧ tree.toFileTree.Answers "/p/d/e/a.js" (some manifest))
      ∧ Manifest.formatOf (some manifest) = .esm
      ∧ ∃ tree, ofFiles (files ++ [("/package.json", "\x7b\x7d")]) = .ok tree
          ∧ tree.toFileTree.Answers "/p/d/e/a.js" (some manifest) := by
  intro files names manifest
  let extended := files ++ [("/package.json", "\x7b\x7d")]
  have hbelow : ∀ file ∈ files, isBelowRoot file.1 = true := by decide
  have hextended : ∀ file ∈ extended, isBelowRoot file.1 = true := by decide
  obtain ⟨tree, htree, -⟩ := exists_written hbelow
  obtain ⟨tree', htree', -⟩ := exists_written hextended
  have hk : IsRoot 1 := by decide
  have hnames : Names names := by decide
  have hs : IsName "a.js".toList := by decide
  have hpath : ofNames 1 (names ++ ["a.js".toList]) = "/p/d/e/a.js" := by decide
  obtain ⟨-, -, -, found, hanswers, hfound, -, -, hsame⟩ :=
    nearest_exact hbelow htree hk hnames hs
  have hhas : HasManifest files 1 ["p".toList] manifest :=
    ⟨"\x7b\"type\":\"module\"\x7d", by decide, by cbv⟩
  -- below that directory there are two more, of which one has a text and none has an object
  have hlonger : ∀ other ∈ names.inits, 1 < other.length →
      lastText? files (manifestPath 1 other) = none
        ∨ lastText? files (manifestPath 1 other) = some "[]" := by
    decide
  have hnearest : IsNearest files 1 names ["p".toList] manifest := by
    refine ⟨by decide, hhas, fun other hother hlength manifest => ?_⟩
    rintro ⟨text, htext, hobject⟩
    rcases hlonger other ((List.mem_inits _ _).mpr hother) hlength with hnone | hlist
    · simp [hnone] at htext
    · obtain rfl := Option.some.inj (hlist.symm.trans htext)
      have hnone : Manifest.ofText? "[]" = none := by cbv
      simp [hnone] at hobject
  obtain rfl := (hfound manifest).mpr ⟨_, hnearest⟩
  rw [hpath] at hanswers hsame
  have htexts : ∀ other ∈ names.inits, ["p".toList] <+: other →
      lastText? extended (manifestPath 1 other) = lastText? files (manifestPath 1 other) := by
    decide
  refine ⟨hbelow, hk, hnames, hs, ⟨tree, htree, hanswers⟩, by decide, tree', htree', ?_⟩
  exact hsame ["p".toList] (by decide) (Or.inr ⟨manifest, hhas⟩) extended tree' hextended htree'
    fun other hfrom hother => htexts other ((List.mem_inits _ _).mpr hother) hfrom

end MemoryTree

end PackageLint
