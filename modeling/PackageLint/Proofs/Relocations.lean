import PackageLint.Pass.Run
import PackageLint.Proofs.Mirrors
import PackageLint.Proofs.PackageTrees

/-!
# A package in two directories

The same package lies in two directories, each in a tree of its own. Paths correspond when they lead
the same way, or are those of the two directories. Of two paths that correspond the trees answer the
same, and the context of a pass says the same.

The names above a package are not part of it, but a path is a text, and some of what a pass asks of a
path can be answered by the path of the package directory alone: whether it speaks of bundlers, and,
where a value names the directory itself, what its ending says. These are the traits of a directory.

## Main definitions

* `Path.Traits`, `Path.Dir.traits` — what a pass can tell of a directory from its path
* `Path.Twin` — paths that correspond
* `Relocated` — a package in two directories, with the contexts of two passes

## Main results

* `Relocated.readAlike`, `Relocated.candidates` — what corresponds is read alike
* `Relocated.expectedFormat` — the formats expected of paths that correspond
* `Relocated.formatFindings_at` — the comparison of a file within with the format expected of it
-/

namespace PackageLint

open PackageLint.Path

/-! ### The format expected in a package -/

namespace Package

variable {package : Package} {d : Dir} {tree : MemoryTree}

theorem isName_manifestName : IsName manifestName.toList := by decide

/-- The manifest in a directory of a package, when there is one. -/
def manifestIn? (package : Package) (dir : List Segment) : Option Manifest :=
  (package.text? (dir ++ [manifestName.toList])).bind Manifest.ofText?

/-- The manifest in charge of what is in a directory of a package. -/
def nearestManifest? (package : Package) (dir : List Segment) : Option Manifest :=
  dir.inits.reverse.findSome? package.manifestIn?

theorem Lies.manifestIn?_within (h : package.Lies d tree) (hne : package.files ≠ [])
    {dir : List Segment} (hd : Names dir) :
    tree.toFileTree.manifestIn? (ofNames d.slashes (d.names ++ dir)) = package.manifestIn? dir := by
  have hjoin : join (ofNames d.slashes (d.names ++ dir)) manifestName
      = d.at ⟨dir ++ [manifestName.toList], false,
          hd.concat isName_manifestName, Or.inl (by simp)⟩ := by
    have := join_ofNames d.isRoot (d.isNames.append hd) isName_manifestName
    rw [d.at_eq_ofNames _ rfl, ← List.append_assoc, ← this, String.ofList_toList]
  rw [FileTree.manifestIn?, hjoin, h.isThere_at hne, ← FileTree.text?, h.text?_at, manifestIn?]
  simp only [Bool.not_false, Bool.true_and, Bool.false_eq_true, if_false]
  cases package.text? (dir ++ [manifestName.toList]) with
  | none => split <;> rfl
  | some text => rfl

theorem reverse_inits_append {α : Type} (a b : List α) :
    (a ++ b).inits.reverse = b.inits.reverse.map (a ++ ·) ++ a.inits.reverse.tail := by
  have hconcat (front : List α) (s : α) :
      (front ++ [s]).inits.reverse = (front ++ [s]) :: front.inits.reverse := by simp
  induction b using List.reverseRecOn with
  | nil =>
    rcases List.eq_nil_or_concat' a with rfl | ⟨front, s, rfl⟩
    · rfl
    · simp
  | append_singleton b s ih =>
    rw [← List.append_assoc, hconcat, ih, hconcat, List.map_cons, List.cons_append,
      List.append_assoc]

theorem findSome?_congr {α β : Type} {f g : α → Option β} {items : List α}
    (h : ∀ a ∈ items, f a = g a) : items.findSome? f = items.findSome? g := by
  induction items with
  | nil => rfl
  | cons a rest ih =>
    obtain ⟨ha, hrest⟩ := List.forall_mem_cons.mp h
    rw [List.findSome?_cons, List.findSome?_cons, ha, ih hrest]

/-- A package with a manifest of its own is in charge of its files. -/
theorem Lies.findSome?_manifestIn? (h : package.Lies d tree) (hne : package.files ≠ [])
    (hown : (package.manifestIn? []).isSome = true) {dir : List Segment} (hd : Names dir) :
    ((d.names ++ dir).inits.reverse.map (ofNames d.slashes)).findSome? tree.toFileTree.manifestIn?
      = package.nearestManifest? dir := by
  have hwithin : ((dir.inits.reverse.map (d.names ++ ·)).map (ofNames d.slashes)).findSome?
      tree.toFileTree.manifestIn? = package.nearestManifest? dir := by
    rw [List.map_map, List.findSome?_map, nearestManifest?]
    refine findSome?_congr fun front hfront => ?_
    have hupto : front <+: dir := by simpa using hfront
    have hnames : Names front := hd.of_subset hupto.subset
    rw [Function.comp_apply, Function.comp_apply, h.manifestIn?_within hne hnames]
  have hsome : (package.nearestManifest? dir).isSome = true := by
    rw [nearestManifest?, List.findSome?_isSome_iff]
    exact ⟨[], by simp, hown⟩
  rw [reverse_inits_append, List.map_append, List.findSome?_append, hwithin]
  obtain ⟨manifest, hmanifest⟩ := Option.isSome_iff_exists.mp hsome
  rw [hmanifest, Option.some_or]

theorem Lies.nearestManifest?_dropEnd_at (h : package.Lies d tree) (hne : package.files ≠ [])
    (hown : (package.manifestIn? []).isSome = true) (i : Inner) {ending : String}
    (hending : '/' ∉ ending.toList) :
    tree.toFileTree.nearestManifest? (Text.dropEnd (d.at i) ending)
      = package.nearestManifest? i.above := by
  rw [FileTree.nearestManifest?, d.ancestors_dropEnd_at i hending,
    h.findSome?_manifestIn? hne hown i.names_above]

theorem Lies.nearestManifest?_at (h : package.Lies d tree) (hne : package.files ≠ [])
    (hown : (package.manifestIn? []).isSome = true) (i : Inner) :
    tree.toFileTree.nearestManifest? (d.at i) = package.nearestManifest? i.above := by
  rw [FileTree.nearestManifest?, d.ancestors_at i, h.findSome?_manifestIn? hne hown i.names_above]

/-- Above a package there is no manifest. -/
theorem Lies.manifestIn?_above (h : package.Lies d tree) {front : List Segment} (hf : Names front)
    (hlength : front.length < d.names.length) :
    tree.toFileTree.manifestIn? (ofNames d.slashes front) = none := by
  have hjoin := join_ofNames d.isRoot hf isName_manifestName
  rw [String.ofList_toList] at hjoin
  have hall : Names (front ++ [manifestName.toList]) := hf.concat isName_manifestName
  have hnone : tree.toFileTree.text? (join (ofNames d.slashes front) manifestName) = none := by
    rw [hjoin]
    refine h.text?_eq_none hall (normalize_ofNames d.isRoot hall) fun file hfile heq => ?_
    have hpos := List.length_pos_of_ne_nil (package.named file hfile)
    have heq := congrArg List.length heq
    rw [List.length_append, List.length_append, List.length_singleton] at heq
    omega
  rw [FileTree.manifestIn?, ← FileTree.text?, hnone]
  split <;> rfl

/-- Below the root the directory of a package is a path within the one above it. -/
theorem exists_above (hroot : d.names ≠ []) :
    ∃ (up : Dir) (i : Inner), d.path = up.at i ∧ i.above = [] ∧ up.slashes = d.slashes
      ∧ up.names.length < d.names.length := by
  obtain ⟨front, s, hnames, hfront, hs⟩ := d.isNames.exists_concat hroot
  refine ⟨⟨d.slashes, front, d.isRoot, hfront⟩,
    ⟨[s], false, names_singleton.mpr hs, Or.inl (by simp)⟩, ?_, rfl, rfl, by simp [hnames]⟩
  rw [Dir.at_eq_ofNames _ _ rfl, Dir.path, hnames]

theorem Lies.nearestManifest?_dropEnd_path (h : package.Lies d tree) (hroot : d.names ≠ [])
    {ending : String} (hending : '/' ∉ ending.toList) :
    tree.toFileTree.nearestManifest? (Text.dropEnd d.path ending) = none := by
  obtain ⟨up, i, hpath, habove, hslashes, hlength⟩ := exists_above hroot
  rw [FileTree.nearestManifest?, hpath, up.ancestors_dropEnd_at i hending, habove, List.append_nil,
    hslashes, List.findSome?_eq_none_iff]
  intro dir hdir
  obtain ⟨front, hfront, rfl⟩ := List.mem_map.mp hdir
  have hupto : front <+: up.names := by simpa using hfront
  exact h.manifestIn?_above (fun s hs => up.isNames s (hupto.mem hs))
    (hupto.length_le.trans_lt hlength)

theorem Lies.nearestManifest?_path (h : package.Lies d tree) (hroot : d.names ≠ []) :
    tree.toFileTree.nearestManifest? d.path = none := by
  rw [← Text.dropEnd_empty d.path, h.nearestManifest?_dropEnd_path hroot (by decide)]

end Package

/-! ### Traits -/

/-- What a pass can tell of a directory from its path. -/
structure Path.Traits where
  /-- Whether it is the root. -/
  isRoot : Bool
  /-- Whether it speaks of browsers or bundlers. -/
  forBundlers : Bool
  /-- Its extension, when nothing understands it. -/
  jsx : Option String
  /-- Whether it ends as a typed source. -/
  isTyped : Bool
  /-- Whether it ends as code that is stated to be ESM. -/
  statesEsm : Bool
  /-- Whether it ends as a declaration that is stated to be ESM. -/
  declaresEsm : Bool
  deriving DecidableEq, Repr

/-- The traits of a directory. -/
def Path.Dir.traits (d : Dir) : Traits where
  isRoot := d.names.isEmpty
  forBundlers := FileFormat.forBundlers d.path
  jsx := Context.jsxExtension? d.path
  isTyped := Source.isTypedSource d.path
  statesEsm := Text.hasEnd (Text.dropEnd d.path Manifest.platformEnding) ".mjs"
  declaresEsm := Text.hasEnd d.path ".d.mts"

/-- Whether a directory can stand in a pattern: it has no wildcard and no line feed. -/
def Path.Dir.IsPlain (d : Dir) : Prop := '*' ∉ d.path.toList ∧ '\n' ∉ d.path.toList

instance (d : Dir) : Decidable d.IsPlain := inferInstanceAs (Decidable (_ ∧ _))

/-- Paths that correspond: they lead the same way, or are those of the two directories. -/
inductive Path.Twin (d d' : Dir) : String → String → Prop
  | inner (i : Inner) : Twin d d' (d.at i) (d'.at i)
  | self : Twin d d' d.path d'.path

/-- A package in two directories, with the contexts of two passes over it. -/
structure Relocated (package : Package) (d d' : Dir) (tree tree' : MemoryTree)
    (ctx ctx' : Context) : Prop where
  lies : package.Lies d tree
  lies' : package.Lies d' tree'
  files_ne_nil : package.files ≠ []
  own : (package.manifestIn? []).isSome = true
  traits : d.traits = d'.traits
  plain : d.IsPlain
  plain' : d'.IsPlain
  manifest : ctx.manifest = ctx'.manifest
  pkgDir : ctx.pkgDir = d.path
  pkgDir' : ctx'.pkgDir = d'.path
  published : ∃ listed : Option (List String),
    ctx.published = listed.map (List.map d.below) ∧ ctx'.published = listed.map (List.map d'.below)
  height_le : d.names.length + package.height ≤ ctx.depth
  height_le' : d'.names.length + package.height ≤ ctx'.depth

namespace Relocated

variable {package : Package} {d d' : Dir} {tree tree' : MemoryTree} {ctx ctx' : Context}

theorem symm (h : Relocated package d d' tree tree' ctx ctx') :
    Relocated package d' d tree' tree ctx' ctx where
  lies := h.lies'
  lies' := h.lies
  files_ne_nil := h.files_ne_nil
  own := h.own
  traits := h.traits.symm
  plain := h.plain'
  plain' := h.plain
  manifest := h.manifest.symm
  pkgDir := h.pkgDir'
  pkgDir' := h.pkgDir
  published := h.published.imp fun _ hlisted => hlisted.symm
  height_le := h.height_le'
  height_le' := h.height_le

variable (h : Relocated package d d' tree tree' ctx ctx')

include h

/-- The traits one by one. -/
theorem traits_eq :
    d.names.isEmpty = d'.names.isEmpty
      ∧ FileFormat.forBundlers d.path = FileFormat.forBundlers d'.path
      ∧ Context.jsxExtension? d.path = Context.jsxExtension? d'.path
      ∧ Source.isTypedSource d.path = Source.isTypedSource d'.path
      ∧ Text.hasEnd (Text.dropEnd d.path Manifest.platformEnding) ".mjs"
        = Text.hasEnd (Text.dropEnd d'.path Manifest.platformEnding) ".mjs"
      ∧ Text.hasEnd d.path ".d.mts" = Text.hasEnd d'.path ".d.mts" := by
  have htraits := h.traits
  simpa only [Dir.traits, Traits.mk.injEq] using htraits

theorem root_iff : d.names = [] ↔ d'.names = [] := by
  obtain ⟨hroot, -⟩ := h.traits_eq
  rw [← List.isEmpty_iff, ← List.isEmpty_iff, hroot]

/-- Paths that correspond lead the same way within, unless they are those of directories below the
root. -/
theorem inner_or_self {p p' : String} (hp : Twin d d' p p') :
    (∃ i : Inner, p = d.at i ∧ p' = d'.at i)
      ∨ (p = d.path ∧ p' = d'.path ∧ d.names ≠ [] ∧ d'.names ≠ []) := by
  cases hp with
  | inner i => exact Or.inl ⟨i, rfl, rfl⟩
  | self =>
    by_cases hroot : d.names = []
    · exact Or.inl ⟨_, d.path_eq_at_root hroot, d'.path_eq_at_root (h.root_iff.mp hroot)⟩
    · exact Or.inr ⟨rfl, rfl, hroot, mt h.root_iff.mpr hroot⟩

/-- A value that does not lead up names paths that correspond. -/
theorem twin_within {value : String} (hv : leadsUp value = false) :
    Twin d d' (ctx.within value) (ctx'.within value) := by
  rw [Context.within, Context.within, h.pkgDir, h.pkgDir']
  cases hself : namesItself value with
  | true =>
    rw [d.join_eq_path hv hself, d'.join_eq_path hv hself]
    exact .self
  | false =>
    rw [d.join_eq_at ⟨hv, hself⟩, d'.join_eq_at ⟨hv, hself⟩]
    exact .inner _

/-! ### What the trees answer -/

theorem text?_at (i : Inner) :
    tree.toFileTree.text? (d.at i) = tree'.toFileTree.text? (d'.at i) := by
  rw [h.lies.text?_at, h.lies'.text?_at]

theorem isThere_at (i : Inner) :
    tree.toFileTree.isThere (d.at i) = tree'.toFileTree.isThere (d'.at i) := by
  rw [h.lies.isThere_at h.files_ne_nil, h.lies'.isThere_at h.files_ne_nil]

theorem isDir_at (i : Inner) :
    tree.toFileTree.isDir (d.at i) = tree'.toFileTree.isDir (d'.at i) := by
  rw [h.lies.isDir_at h.files_ne_nil, h.lies'.isDir_at h.files_ne_nil]

theorem isThere {p p' : String} (hp : Twin d d' p p') :
    tree.toFileTree.isThere p = tree'.toFileTree.isThere p' := by
  cases hp with
  | inner i => exact h.isThere_at i
  | self => rw [h.lies.isThere_path h.files_ne_nil, h.lies'.isThere_path h.files_ne_nil]

/-! ### Reading entries -/

theorem isPublished_at (i : Inner) : ctx.isPublished (d.at i) = ctx'.isPublished (d'.at i) := by
  obtain ⟨listed, hlisted, hlisted'⟩ := h.published
  rw [Context.isPublished, Context.isPublished, hlisted, hlisted']
  cases listed with
  | none => rfl
  | some texts =>
    simp only [Option.map_some]
    rw [Bool.eq_iff_iff, List.contains_iff_mem, List.contains_iff_mem, List.mem_map, List.mem_map]
    simp only [Dir.below_eq_at]

/-- Texts at paths that correspond are the same, whether they are judged or not. -/
theorem readAlike {p p' : String} (hp : Twin d d' p p') (judged : Bool) :
    ReadAlike tree.toFileTree tree'.toFileTree ctx ctx' judged p p' := by
  cases hp with
  | inner i =>
    exact ⟨congrArg Option.isSome (h.text?_at i), fun _ => h.text?_at i, fun _ => h.isPublished_at i⟩
  | self =>
    have htext : tree.toFileTree.text? d.path = tree'.toFileTree.text? d'.path := by
      rw [h.lies.text?_path, h.lies'.text?_path]
    refine ⟨congrArg Option.isSome htext, fun _ => htext, fun hsome => ?_⟩
    rw [h.lies.text?_path] at hsome
    exact absurd hsome (by simp)

omit h in
theorem extend_script (path : String) : Context.extend path ".js" = path ++ ".js" := by
  simp [Context.extend, Text.hasStart]

omit h in
/-- The index of a directory below the root is within it. -/
theorem extend_index_path (hroot : d.names ≠ []) :
    Context.extend d.path "/index.js"
      = d.at ⟨["index.js".toList], false, names_singleton.mpr isName_index, Or.inl (by simp)⟩ := by
  obtain ⟨front, s, hnames, -, hs⟩ := d.isNames.exists_concat hroot
  have hslash : Text.hasEnd d.path "/" = false := by
    refine Bool.eq_false_iff.mpr fun hend => ?_
    obtain ⟨start, hstart⟩ := List.isSuffixOf_iff_suffix.mp hend
    refine getLast?_ofSegments_ne d.slashes front hs ?_
    rw [← hnames, ← toList_ofNames, ← Dir.path, ← hstart]
    simp
  refine String.toList_inj.mp ?_
  rw [Context.extend, hslash, Dir.at_eq_ofNames _ _ rfl, toList_ofNames, ofSegments_concat hroot]
  simp [Dir.path]

/-- The candidates of an entry that legacy resolution may complete are read alike. -/
theorem candidates {value : String} (hv : leadsUp value = false) (judged : Bool) :
    List.Forall₂ (ReadAlike tree.toFileTree tree'.toFileTree ctx ctx' judged)
      (Context.candidates (ctx.within value) Context.legacyExtensions)
      (Context.candidates (ctx'.within value) Context.legacyExtensions) := by
  have hp := h.twin_within hv
  simp only [Context.candidates, Context.legacyExtensions, List.map_cons, List.map_nil,
    extend_script]
  refine .cons (h.readAlike hp _) (.cons ?_ (.cons ?_ .nil))
  · rcases h.inner_or_self hp with ⟨i, hat, hat'⟩ | ⟨hself, hself', hroot, hroot'⟩
    · obtain ⟨j, hj⟩ := exists_at_append i isName_script
      rw [hat, hat', hj, hj]
      exact h.readAlike (.inner j) _
    · have hnone := h.lies.text?_beside hroot isName_script
      have hnone' := h.lies'.text?_beside hroot' isName_script
      rw [hself, hself']
      refine ⟨by rw [hnone, hnone'], fun _ => by rw [hnone, hnone'], fun hsome => ?_⟩
      rw [hnone] at hsome
      exact absurd hsome (by simp)
  · rcases h.inner_or_self hp with ⟨i, hat, hat'⟩ | ⟨hself, hself', hroot, hroot'⟩
    · rw [hat, hat', d.extend_index, d'.extend_index]
      exact h.readAlike (.inner _) _
    · rw [hself, hself', extend_index_path hroot, extend_index_path hroot']
      exact h.readAlike (.inner _) _

/-! ### What paths that correspond expect -/

omit h in
theorem hasEnd_at (i : Inner) {ending : String} (hending : '/' ∉ ending.toList) :
    Text.hasEnd (d.at i) ending = Text.hasEnd (d'.at i) ending := by
  rw [d.hasEnd_at i hending, d'.hasEnd_at i hending]

omit h in
theorem hasEnd_dropEnd_at (i : Inner) {ending other : String} (hending : '/' ∉ ending.toList)
    (hother : '/' ∉ other.toList) :
    Text.hasEnd (Text.dropEnd (d.at i) ending) other
      = Text.hasEnd (Text.dropEnd (d'.at i) ending) other := by
  obtain ⟨rest, -, hdrop⟩ := Dir.exists_dropEnd_at i hending
  rw [Text.hasEnd, Text.hasEnd, hdrop, hdrop, Bool.eq_iff_iff, List.isSuffixOf_iff_suffix,
    List.isSuffixOf_iff_suffix, Text.suffix_append_sep hother, Text.suffix_append_sep hother]

/-- The format expected of code. -/
theorem expectedFormat {p p' : String} (hp : Twin d d' p p') :
    tree.toFileTree.expectedFormat p = tree'.toFileTree.expectedFormat p' := by
  have hplatform : '/' ∉ Manifest.platformEnding.toList := by decide
  simp only [FileTree.expectedFormat]
  rcases h.inner_or_self hp with ⟨i, rfl, rfl⟩ | ⟨rfl, rfl, hroot, hroot'⟩
  · have hend (ending : String) (hslash : '/' ∉ ending.toList) :
        Text.hasEnd (Text.dropEnd (d.at i) Manifest.platformEnding) ending
          = Text.hasEnd (Text.dropEnd (d'.at i) Manifest.platformEnding) ending :=
      hasEnd_dropEnd_at i hplatform hslash
    rw [hend ".mjs" (by decide), hend ".cjs" (by decide),
      h.lies.nearestManifest?_dropEnd_at h.files_ne_nil h.own i hplatform,
      h.lies'.nearestManifest?_dropEnd_at h.files_ne_nil h.own i hplatform]
  · obtain ⟨-, -, -, -, hesm, -⟩ := h.traits_eq
    rw [hesm, h.lies.nearestManifest?_dropEnd_path hroot hplatform,
      h.lies'.nearestManifest?_dropEnd_path hroot' hplatform]
    simp [Manifest.formatOf]

/-- The format of a declaration. -/
theorem expectedDeclarationFormat {p p' : String} (hp : Twin d d' p p') :
    tree.toFileTree.expectedDeclarationFormat p
      = tree'.toFileTree.expectedDeclarationFormat p' := by
  simp only [FileTree.expectedDeclarationFormat]
  rcases h.inner_or_self hp with ⟨i, rfl, rfl⟩ | ⟨rfl, rfl, hroot, hroot'⟩
  · have hend (ending : String) (hslash : '/' ∉ ending.toList) :
        Text.hasEnd (d.at i) ending = Text.hasEnd (d'.at i) ending := hasEnd_at i hslash
    rw [hend ".d.mts" (by decide), hend ".d.cts" (by decide),
      h.lies.nearestManifest?_at h.files_ne_nil h.own,
      h.lies'.nearestManifest?_at h.files_ne_nil h.own]
  · obtain ⟨-, -, -, -, -, hesm⟩ := h.traits_eq
    rw [hesm, h.lies.nearestManifest?_path hroot, h.lies'.nearestManifest?_path hroot']
    simp [Manifest.formatOf]

theorem forBundlers_at (i : Inner) :
    FileFormat.forBundlers (d.at i) = FileFormat.forBundlers (d'.at i) := by
  obtain ⟨-, htrait, -⟩ := h.traits_eq
  simp only [FileFormat.forBundlers] at htrait ⊢
  have hword (word : String) (hslash : '/' ∉ word.toList) (hne : word.toList ≠ []) (e : Dir) :
      Text.hasPart (e.at i) word = (Text.hasPart e.path word || Text.occursIn word.toList i.text) :=
    e.hasPart_at i hslash hne
  rw [hword "browser" (by decide) (by decide), hword "bundler" (by decide) (by decide),
    hword "browser" (by decide) (by decide), hword "bundler" (by decide) (by decide)]
  have hcomm (a b c e : Bool) : ((a || b) || (c || e)) = ((a || c) || (b || e)) := by
    cases a <;> cases b <;> cases c <;> cases e <;> rfl
  rw [hcomm, htrait, ← hcomm]

/-- The comparison of a file within with the format expected of it. -/
theorem formatFindings_at (i : Inner) (content : String) (location : Location)
    (leniency : FileFormat.Leniency) (shown : Option String) :
    FileFormat.findings tree.toFileTree (d.at i) content location leniency shown
      = FileFormat.findings tree'.toFileTree (d'.at i) content location leniency shown := by
  have hexcused : FileFormat.isExcused tree.toFileTree (d.at i) (Source.classify content) leniency
      = FileFormat.isExcused tree'.toFileTree (d'.at i) (Source.classify content) leniency := by
    obtain ⟨j, hj⟩ := exists_sibling_at i (Source.classify content)
    rw [FileFormat.isExcused, FileFormat.isExcused, h.forBundlers_at, hj, hj, h.isThere_at]
  have hmismatch (actual expected : Format) :
      FileFormat.mismatch (d.at i) location actual expected shown
        = FileFormat.mismatch (d'.at i) location actual expected shown := by
    simp only [FileFormat.mismatch, d.extension_at, d'.extension_at]
  simp only [FileFormat.findings]
  rw [h.expectedFormat (.inner i), hexcused, hmismatch]

theorem relative_at (i : Inner) : ctx.relative (d.at i) = ctx'.relative (d'.at i) := by
  rw [Context.relative, Context.relative, h.pkgDir, h.pkgDir', d.relative_at, d'.relative_at]

end Relocated

end PackageLint
