import PackageLint.Proofs.MirroredPlans
import PackageLint.Proofs.RelocatedSearches

/-!
# Passes over one package in two directories

A pass looks at what its manifest names, and at what it finds by searching. As long as no value leads up
and out of the package, all of this lies in the package, and the passes over it in two directories mirror
each other. So where a package lies changes nothing, provided that the two directories have the same
traits and can stand in a pattern.

## Main definitions

* `Manifest.StaysInside` — no value leads up, and targets start with `./`
* `Relocated.mirror` — the passes over a package in two directories mirror each other

## Main results

* `Pass.diagnostics_relocated` — both passes report the same
-/

namespace PackageLint

open PackageLint.Path

/-! ### Values that stay inside -/

namespace Manifest

/-- No value that names a file or a target leads up, and every target starts with `./`. -/
structure StaysInside (manifest : Manifest) : Prop where
  names : ∀ v, manifest.NamesValue v → leadsUp v = false
  aims : ∀ field p v, manifest.Aims field p v → leadsUp v = false
  start : ∀ field p v, manifest.Aims field p v → Text.hasStart v "./" = true

/-- What names a file is a string of the manifest. -/
theorem NamesValue.at? {manifest : Manifest} {v : String} (h : manifest.NamesValue v) :
    ∃ p, (Json.obj manifest).at? p = some (.str v) := by
  cases h with
  | file h => exact ⟨_, h.at?⟩
  | @declaration name _ _ h =>
    have hat : (manifest.published name).1.at? [] = some (.str v) := by rw [Json.at?_nil, h]
    exact ⟨_, at?_published_append hat⟩

/-- It suffices to look at all strings of a manifest. -/
theorem StaysInside.of_strings {manifest : Manifest}
    (h : ∀ p v, (Json.obj manifest).at? p = some (.str v) →
      leadsUp v = false ∧ Text.hasStart v "./" = true) : manifest.StaysInside where
  names v hv := by
    obtain ⟨p, hp⟩ := hv.at?
    exact (h p v hp).1
  aims _ p v hv := (h p v hv.at?).1
  start _ p v hv := (h p v hv.at?).2

end Manifest

namespace Path

/-- Another ending does not make a value lead up, unless it is made of dots. -/
theorem leadsUp_append {stem ending ending' : String} (h : leadsUp (stem ++ ending) = false)
    (he : '/' ∉ ending.toList) (he' : '/' ∉ ending'.toList) (hdots : ∃ c ∈ ending'.toList, c ≠ '.') :
    leadsUp (stem ++ ending') = false := by
  obtain ⟨before, start, -, hpieces⟩ := Text.exists_pieces_append '/' stem.toList
  rw [leadsUp, String.toList_append, hpieces _ he] at h
  rw [leadsUp, String.toList_append, hpieces _ he']
  have hbefore : up ∉ before := by
    have hnot : up ∉ before ++ [start ++ ending.toList] := by simpa using h
    exact fun hmem => hnot (List.mem_append_left _ hmem)
  have hlast : up ≠ start ++ ending'.toList := by
    obtain ⟨c, hc, hne⟩ := hdots
    intro heq
    have hmem : c ∈ up := by
      rw [heq]
      exact List.mem_append_right _ hc
    exact hne (by simpa [up] using hmem)
  simp [hbefore, hlast]

theorem leadsUp_star {value : String} (h : leadsUp value = false) : leadsUp (value ++ "*") = false := by
  rw [← String.append_empty (s := value)] at h
  exact leadsUp_append h (by decide) (by decide) ⟨'*', by decide⟩

/-- The declaration beside code that does not lead up does not lead up either. -/
theorem leadsUp_adjacentDeclaration {value : String} (h : leadsUp value = false) :
    leadsUp (Source.adjacentDeclaration value) = false := by
  rw [Source.adjacentDeclaration]
  cases hfind : Source.declarationEndings.findSome? (Source.changeEnding? value) with
  | none => exact h
  | some changed =>
    obtain ⟨change, hmem, hchange⟩ := List.exists_of_findSome?_eq_some hfind
    have hall : ∀ change ∈ Source.declarationEndings,
        '/' ∉ change.1.toList ∧ '/' ∉ (change.1 ++ "\n").toList ∧ '/' ∉ change.2.toList
          ∧ '/' ∉ (change.2 ++ "\n").toList ∧ 'd' ∈ change.2.toList := by decide
    obtain ⟨hold, hold', hnew, hnew', hletter⟩ := hall change hmem
    rw [Source.changeEnding?] at hchange
    split at hchange
    next hend =>
      obtain rfl := Option.some.inj hchange
      obtain ⟨stem, rfl⟩ := Text.hasEnd_iff.mp hend
      rw [Option.getD_some, Text.dropEnd_append]
      exact leadsUp_append h hold hnew ⟨'d', hletter, by decide⟩
    next =>
      split at hchange
      next hend =>
        obtain rfl := Option.some.inj hchange
        obtain ⟨stem, rfl⟩ := Text.hasEnd_iff.mp hend
        rw [Option.getD_some, Text.dropEnd_append, String.append_assoc]
        exact leadsUp_append h hold' hnew' ⟨'d', by simp [hletter], by decide⟩
      next => exact absurd hchange (by simp)

/-- A value with the ending of code does not name the directory that it is put below. -/
theorem descends_of_isLintableName {value : String} (hv : leadsUp value = false)
    (hname : Source.isLintableName value = true) : Descends value := by
  refine ⟨hv, ?_⟩
  have hending : ∀ ending : String, IsName ending.toList → Text.hasEnd value ending = true →
      namesItself value = false := by
    intro ending he hend
    obtain ⟨front, hfront⟩ := List.isSuffixOf_iff_suffix.mp hend
    obtain ⟨before, start, hstart, hall⟩ := Text.exists_pieces_append '/' front
    have hpieces := hall _ he.no_slash
    have hlast : IsName (start ++ ending.toList) := he.append hstart
    have hmem : start ++ ending.toList ∈ namesOf value := by
      rw [namesOf, ← hfront, hpieces]
      refine List.mem_filter.mpr ⟨by simp, ?_⟩
      simp only [Bool.and_eq_true, decide_eq_true_eq]
      exact ⟨hlast.ne_nil, hlast.ne_here⟩
    rw [namesItself, List.isEmpty_eq_false_iff.mpr (List.ne_nil_of_mem hmem), Bool.false_and]
  obtain ⟨ending, hmem, hend⟩ := List.any_eq_true.mp hname
  simp only [List.mem_cons, List.not_mem_nil, or_false] at hmem
  rcases hmem with rfl | rfl | rfl <;>
    exact hending _ (by decide) hend

/-- A pattern leads to something within the directory that it is put below. -/
theorem descends_of_hasWildcard {value : String} (hv : leadsUp value = false)
    (hwild : Pattern.hasWildcard value = true) : Descends value := by
  refine ⟨hv, ?_⟩
  have hstar : '*' ∈ value.toList := by simpa [Pattern.hasWildcard] using hwild
  obtain ⟨piece, hpiece, hmem⟩ := Text.exists_mem_pieces hstar (show '*' ≠ '/' by decide)
  have hname : piece ∈ namesOf value := by
    refine List.mem_filter.mpr ⟨hpiece, ?_⟩
    simp only [Bool.and_eq_true, decide_eq_true_eq]
    refine ⟨List.ne_nil_of_mem hmem, ?_⟩
    rintro rfl
    exact absurd hmem (by decide)
  rw [namesItself, List.isEmpty_eq_false_iff.mpr (List.ne_nil_of_mem hname), Bool.false_and]

variable {d d' : Dir}

/-- Ways differ in one directory where they differ in another. -/
theorem at_iff (i j : Inner) : d.at i = d.at j ↔ d'.at i = d'.at j := by
  constructor
  · intro heq
    rw [d.at_injective heq]
  · intro heq
    rw [d'.at_injective heq]

/-- Below the root no way within a directory leads to the directory itself. -/
theorem at_ne_path (hroot : d.names ≠ []) (i : Inner) : d.at i ≠ d.path := by
  intro heq
  obtain ⟨front, s, hnames, -, hs⟩ := d.isNames.exists_concat hroot
  have hnone : i.names = [] := by
    have hnormal := congrArg normalize heq
    rw [d.normalize_at, Dir.path, normalize_ofNames d.isRoot d.isNames] at hnormal
    have hsame := ((ofNames_inj d.isRoot.le (d.names_within i) d.isRoot.le d.isNames).mp hnormal).2
    have hlength := congrArg List.length hsame
    rw [List.length_append] at hlength
    exact List.eq_nil_of_length_eq_zero (by omega)
  have hslash : (d.at i).toList.getLast? = some '/' :=
    d.getLast?_at i |>.mpr (i.leads.resolve_left fun hne => hne hnone)
  rw [heq, Dir.path, toList_ofNames, hnames] at hslash
  exact getLast?_ofSegments_ne d.slashes front hs hslash

/-- Below the root no way within a directory leads beside it. -/
theorem at_ne_beside (hroot : d.names ≠ []) (i : Inner) {ending : String}
    (hending : ending.toList.head? ≠ some '/') : d.at i ≠ d.path ++ ending := by
  intro heq
  have hlist := congrArg String.toList heq
  rw [Dir.toList_at, String.toList_append, Dir.path, toList_ofNames, Dir.stem, if_neg hroot,
    List.append_cancel_left_eq] at hlist
  exact hending (hlist ▸ i.head?_text)

end Path

/-! ### The mirror -/

namespace Relocated

variable {package : Package} {d d' : Dir} {tree tree' : MemoryTree} {ctx ctx' : Context}
  (h : Relocated package d d' tree tree' ctx ctx')

include h

/-- The names in the directory of the package. -/
theorem run_readDir : (Check.readDir ctx.pkgDir).run tree.toFileTree
    = ⟨[], .ok (package.listing [])⟩ := by
  obtain ⟨names, hnames⟩ := tree.listsDirs d.path (h.lies.isDir_path h.files_ne_nil)
  have hlisting : names = package.listing [] := by
    rw [← h.lies.names_path, FileTree.names, hnames]
    rfl
  rw [h.pkgDir, ← hlisting]
  simp [Check.readDir, Check.run, FileTree.answer, hnames]

theorem within_at {value : String} (hv : Descends value) :
    ctx.within value = d.at (.ofValue value hv) ∧ ctx'.within value = d'.at (.ofValue value hv) := by
  rw [Context.within, Context.within, h.pkgDir, h.pkgDir']
  exact ⟨d.join_eq_at hv, d'.join_eq_at hv⟩

theorem mayBePublished_at (i : Inner) :
    PackageChecks.mayBePublished ctx (d.at i) = PackageChecks.mayBePublished ctx' (d'.at i) := by
  obtain ⟨listed, hlisted, hlisted'⟩ := h.published
  rw [PackageChecks.mayBePublished, PackageChecks.mayBePublished, hlisted, hlisted']
  cases listed with
  | none => rfl
  | some texts => simp only [Option.map_some, List.any_map, Function.comp_def, Dir.hasStart_below_at]

/-- A name of the package is a directory in both trees or in neither. -/
theorem isDir_within {name : String} (hname : name ∈ package.listing []) :
    tree.toFileTree.isDir (ctx.within name) = tree'.toFileTree.isDir (ctx'.within name) := by
  obtain ⟨s, hs, rfl⟩ := Package.isName_of_mem_listing hname
  have hat (e : Dir) : join e.path (String.ofList s)
      = e.at ⟨[s], false, names_singleton.mpr hs, Or.inl (by simp)⟩ := e.join_path hs
  rw [Context.within, Context.within, h.pkgDir, h.pkgDir', hat, hat]
  exact h.isDir_at _

/-- The files that an entry point may resolve to are the same ways, or lie outside. -/
theorem mem_legacyCandidates {value : String} (hv : leadsUp value = false) (i : Inner) :
    d.at i ∈ EntryChecks.legacyCandidates ctx (.str value)
      ↔ d'.at i ∈ EntryChecks.legacyCandidates ctx' (.str value) := by
  have hcandidates : ∀ c : Context, EntryChecks.legacyCandidates c (.str value)
      = [c.within value, c.within value ++ ".js", join (c.within value) "index.js"] := by
    intro c
    have hindex : "/index.js" = String.ofList ('/' :: "index.js".toList) := by decide
    have hjoin : join (c.within value) "/index.js" = join (c.within value) "index.js" := by
      rw [hindex, join_slash _ isName_index, String.ofList_toList]
    simp only [EntryChecks.legacyCandidates, Context.legacyExtensions, List.map_cons, List.map_nil]
    rw [if_neg (by decide), if_pos (by decide), hjoin]
  rw [hcandidates, hcandidates]
  simp only [List.mem_cons, List.not_mem_nil, or_false]
  rcases h.inner_or_self (h.twin_within hv) with ⟨j, hat, hat'⟩ | ⟨hself, hself', hroot, hroot'⟩
  · obtain ⟨k, hk⟩ := exists_at_append j isName_script
    have hindex (e : Dir) : join (e.at j) "index.js" = e.at (j.child _ isName_index) := by
      rw [← e.join_at j isName_index, String.ofList_toList]
    rw [hat, hat', hk, hk, hindex, hindex, at_iff i j, at_iff i k, at_iff i (j.child _ isName_index)]
  · have hindex (e : Dir) : join e.path "index.js"
        = e.at ⟨["index.js".toList], false, names_singleton.mpr isName_index, Or.inl (by simp)⟩ := by
      rw [← e.join_path isName_index, String.ofList_toList]
    rw [hself, hself', hindex, hindex,
      (at_iff i _ : d.at i = d.at _ ↔ d'.at i = d'.at _)]
    simp only [at_ne_path hroot, at_ne_path hroot', false_or,
      at_ne_beside hroot i (show ".js".toList.head? ≠ some '/' by decide),
      at_ne_beside hroot' i (show ".js".toList.head? ≠ some '/' by decide)]

omit h in
/-- Code is no typed source. -/
theorem isTypedSource_of_isLintableName {path : String} (hcode : Source.isLintableName path = true) :
    Source.isTypedSource path = false := by
  obtain ⟨ending, hmem, hend⟩ := List.any_eq_true.mp hcode
  have hother : ∀ other ∈ [".ts", ".tsx"], Text.hasEnd path other = false := by
    intro other hother
    refine Bool.eq_false_iff.mpr fun hend' => ?_
    have hsuffix := List.isSuffixOf_iff_suffix.mp hend
    have hsuffix' := List.isSuffixOf_iff_suffix.mp hend'
    have hall : ∀ ending ∈ [".js", ".mjs", ".cjs"], ∀ other ∈ [".ts", ".tsx"],
        ¬ other.toList <:+ ending.toList ∧ ¬ ending.toList <:+ other.toList := by decide
    obtain ⟨hleft, hright⟩ := hall ending hmem other hother
    rcases List.suffix_or_suffix_of_suffix hsuffix hsuffix' with hsub | hsub
    · exact hright hsub
    · exact hleft hsub
  rw [Source.isTypedSource, hother ".ts" (by decide), hother ".tsx" (by decide)]
  rfl

omit h in
theorem looksAbsolute_path (hroot : d.names ≠ []) : looksAbsolute d.path = true := by
  obtain ⟨up, i, hpath, -⟩ := Package.exists_above hroot
  rw [hpath]
  exact up.looksAbsolute_at i

/-- Of paths that correspond both have to be there, or neither. -/
theorem isLookedFor {p p' : String} (hp : Twin d d' p p') :
    EntryTree.isLookedFor p = EntryTree.isLookedFor p' := by
  rcases h.inner_or_self hp with ⟨i, rfl, rfl⟩ | ⟨rfl, rfl, hroot, hroot'⟩
  · have hend (ending : String) (hslash : '/' ∉ ending.toList) :
        Text.hasEnd (d.at i) ending = Text.hasEnd (d'.at i) ending := hasEnd_at i hslash
    simp only [EntryTree.isLookedFor, Source.isLintableName, Source.endsInOneOf,
      Source.isTypedSource, List.any_cons, List.any_nil, d.looksAbsolute_at, d'.looksAbsolute_at,
      hend ".js" (by decide), hend ".mjs" (by decide), hend ".cjs" (by decide),
      hend ".ts" (by decide), hend ".d.ts" (by decide), hend ".tsx" (by decide)]
  · obtain ⟨-, -, -, htyped, -⟩ := h.traits_eq
    have hlooked : ∀ {e : Dir}, e.names ≠ [] →
        EntryTree.isLookedFor e.path = !Source.isTypedSource e.path := by
      intro e he
      rw [EntryTree.isLookedFor, looksAbsolute_path he, Bool.true_and]
      cases hcode : Source.isLintableName e.path with
      | true => rw [isTypedSource_of_isLintableName hcode]; rfl
      | false => rfl
    rw [hlooked hroot, hlooked hroot', htyped]

theorem jsxExtension? {p p' : String} (hp : Twin d d' p p') :
    Context.jsxExtension? p = Context.jsxExtension? p' := by
  rcases h.inner_or_self hp with ⟨i, rfl, rfl⟩ | ⟨rfl, rfl, -⟩
  · have hall : ∀ ending ∈ Context.jsxExtensions, '/' ∉ ending.toList := by decide
    exact List.find?_congr fun ending hmem => hasEnd_at i (hall ending hmem)
  · obtain ⟨-, -, hjsx, -⟩ := h.traits_eq
    exact hjsx

theorem innerTwin_of_readable {p p' : String} (hp : Twin d d' p p')
    (hread : (tree.toFileTree.text? p).isSome = true) : InnerTwin d d' p p' := by
  cases hp with
  | inner i => exact ⟨i, rfl, rfl⟩
  | self =>
    rw [h.lies.text?_path] at hread
    exact absurd hread (by simp)

/-- Searches for the files of one value correspond. -/
theorem searchTwin {value : String} (hv : leadsUp value = false)
    (hstart : Text.hasStart value "./" = true) (hwild : Pattern.hasWildcard value = true)
    {search search' : Subpath.Search} (hs : search.Alike ctx ctx' value search') :
    SearchTwin d d' ctx ctx' search search' where
  pattern := by
    have htop : ∀ hall : Descends "./*", (Inner.ofValue "./*" hall).top = [] := by decide
    have hdescends := descends_of_hasWildcard hv hwild
    obtain ⟨hat, hat'⟩ := h.within_at hdescends
    have hpattern := hs.pattern
    have hpattern' := hs.pattern'
    rw [EntryTree.targetPath, if_pos (looksRelative_of_hasStart hstart)] at hpattern hpattern'
    refine ⟨_, hpattern.trans hat, hpattern'.trans hat', hs.walked.imp_right ?_⟩
    rintro rfl
    exact htop hdescends
  published := hs.published
  published' := hs.published'
  hides := hs.hides
  skipped := hs.skipped

/-- The passes over a package in two directories mirror each other. -/
def mirror : Mirror tree.toFileTree tree'.toFileTree ctx ctx' where
  Fits value := leadsUp value = false
  Aims value := leadsUp value = false ∧ Text.hasStart value "./" = true
  Alike := Twin d d'
  Within := InnerTwin d d'
  takesAnyPath := tree.takesAnyPath
  takesAnyPath' := tree'.takesAnyPath
  listsDirs := tree.listsDirs
  listsDirs' := tree'.listsDirs
  isThere := h.isThere
  readAlike hp := h.readAlike hp _
  expectedFormat := h.expectedFormat
  expectedDeclarationFormat := h.expectedDeclarationFormat
  jsxExtension? := h.jsxExtension?
  isLookedFor := h.isLookedFor
  alike := by
    rintro _ _ ⟨i, rfl, rfl⟩
    exact .inner i
  within_of_readable := h.innerTwin_of_readable
  isLintableName := by
    rintro _ _ ⟨i, rfl, rfl⟩
    have hend (ending : String) (hslash : '/' ∉ ending.toList) :
        Text.hasEnd (d.at i) ending = Text.hasEnd (d'.at i) ending := hasEnd_at i hslash
    simp only [Source.isLintableName, Source.endsInOneOf, List.any_cons, List.any_nil,
      hend ".js" (by decide), hend ".mjs" (by decide), hend ".cjs" (by decide)]
  formatFindings := by
    rintro _ _ ⟨i, rfl, rfl⟩
    exact h.formatFindings_at i
  relative := by
    rintro _ _ ⟨i, rfl, rfl⟩
    exact h.relative_at i
  fits_index := by decide
  fits_declaration := by decide
  fits_adjacent := leadsUp_adjacentDeclaration
  fits_of_aims hv := hv.1
  aims_all := by decide
  aims_star hv _ := ⟨leadsUp_star hv.1, Text.hasStart_append hv.2 "*"⟩
  within := h.twin_within
  within_code hv hname := by
    obtain ⟨hat, hat'⟩ := h.within_at (descends_of_isLintableName hv hname)
    exact ⟨_, hat, hat'⟩
  candidates hv := h.candidates hv _
  target hv := by
    rw [EntryTree.targetPath, EntryTree.targetPath, if_pos (looksRelative_of_hasStart hv.2),
      if_pos (looksRelative_of_hasStart hv.2)]
    exact h.twin_within hv.1
  expanded hv hwild _ _ hs := h.expanded (h.searchTwin hv.1 hv.2 hwild hs)
  isIndex := by
    rintro _ _ ⟨i, rfl, rfl⟩
    obtain ⟨hat, hat'⟩ := h.within_at (show Descends PackageChecks.indexName by decide)
    rw [hat, hat']
    exact at_iff i _
  isCandidate := by
    rintro _ _ ⟨i, rfl, rfl⟩ value hv
    exact h.mem_legacyCandidates hv i
  internal hpath := by
    have hall : ∀ path ∈ PackageChecks.internalPaths, Descends path := by decide
    obtain ⟨hat, hat'⟩ := h.within_at (hall _ hpath)
    rw [hat, hat']
    exact ⟨h.mayBePublished_at _, h.isThere_at _⟩
  license ρ := by
    refine Check.Agree.bind (R := fun names names' => names = package.listing [] ∧ names' = names)
      (Check.agree_of_run h.run_readDir h.symm.run_readDir rfl ⟨rfl, rfl⟩) ?_
    rintro _ _ ⟨rfl, rfl⟩
    exact PackageChecks.same_firstLicense fun _ => h.isDir_within

end Relocated

/-! ### Passes -/

namespace Package

variable {package : Package} {d : Dir} {tree : MemoryTree}

/-- A package with a manifest is loaded wherever it lies. -/
theorem Lies.load (h : package.Lies d tree) {manifest : Manifest}
    (hmanifest : package.manifestIn? [] = some manifest) :
    (Manifest.load d.path).result tree.toFileTree = .ok (.ok manifest) := by
  obtain ⟨text, htext, hparse⟩ := Option.bind_eq_some_iff.mp hmanifest
  have hpath : Manifest.pathIn d.path = d.at ⟨[manifestName.toList], false,
      names_singleton.mpr isName_manifestName, Or.inl (by simp)⟩ := by
    rw [Manifest.pathIn, ← d.join_path isName_manifestName, String.ofList_toList]
  refine Manifest.load_eq_ok_iff.mpr ⟨text, ?_, hparse⟩
  rw [hpath]
  refine FileTree.text?_eq_some.mp ?_
  rw [h.text?_at]
  exact htext

end Package

namespace Pass

/-- Where a package lies changes nothing about what a pass reports: in two directories that can stand in
a pattern and have the same traits, the passes report the same up to the order, if no value of the
manifest leads up and every target starts with `./`. -/
theorem diagnostics_relocated {package : Package} {d d' : Dir} {tree tree' : MemoryTree}
    (h : package.Lies d tree) (h' : package.Lies d' tree') (htraits : d.traits = d'.traits)
    (hplain : d.IsPlain) (hplain' : d'.IsPlain) {manifest : Manifest}
    (hmanifest : package.manifestIn? [] = some manifest) (hinside : manifest.StaysInside)
    (level : Severity) (strict : Bool) (listed : Option (List String)) (workDir workDir' : String) :
    ∃ result result',
      run tree.toFileTree d.path
          { level, strict, published := listed.map (List.map d.below) } workDir = .ok result
        ∧ run tree'.toFileTree d'.path
          { level, strict, published := listed.map (List.map d'.below) } workDir' = .ok result'
        ∧ result.diagnostics.Perm result'.diagnostics := by
  let options (e : Dir) : Options := { level, strict, published := listed.map (List.map e.below) }
  let ctx := contextOf tree.toFileTree.depth workDir d.path manifest (options d)
  let ctx' := contextOf tree'.toFileTree.depth workDir' d'.path manifest (options d')
  have hne : package.files ≠ [] := by
    intro hnil
    simp [Package.manifestIn?, Package.text?, hnil] at hmanifest
  have hrelocated : Relocated package d d' tree tree' ctx ctx' :=
    { lies := h, lies' := h', files_ne_nil := hne, own := by rw [hmanifest]; rfl
      traits := htraits, plain := hplain, plain' := hplain', manifest := rfl, pkgDir := rfl
      pkgDir' := rfl, published := ⟨listed, rfl, rfl⟩
      height_le := h.height_le hne, height_le' := h'.height_le hne }
  have hkeys : (Json.obj manifest).DistinctKeys := Manifest.distinctKeys_load (h.load hmanifest)
  have hsame : ∀ field, Manifest.SameField id manifest manifest field :=
    fun field => ⟨rfl, .id _⟩
  have hfields : Manifest.SameFields id manifest manifest :=
    { fixed := fun _ _ _ => rfl, plain := fun _ _ => rfl, values := fun field _ => hsame field }
  have hplan := hrelocated.mirror.agree_samePlan (m := id) hfields
    hinside.names hkeys (fun field _ => hsame field) (Or.inl rfl)
    fun field p v hv _ => ⟨hinside.aims field p v hv, hinside.start field p v hv⟩
  have hlevel : (options d).level = (options d').level := rfl
  have hperm := diagnostics_agree (Diagnostic.keepsSeverity_move id) hplan hlevel rfl manifest manifest
  rw [Diagnostic.map_move_id] at hperm
  exact ⟨_, _, run_of_load (h.load hmanifest) _ _,
    run_of_load (h'.load hmanifest) _ _, hperm⟩

/-- A package whose `exports` lead to a directory of CommonJS code, next to a manifest that says that
its code is ESM, in a home and in a temporary directory. -/
theorem diagnostics_relocated_home :
    ∃ (package : Package) (d d' : Dir) (tree tree' : MemoryTree) (result result' : Result),
      d.path = "/home/p" ∧ d'.path = "/tmp" ∧ package.Lies d tree ∧ package.Lies d' tree'
        ∧ run tree.toFileTree "/home/p" = .ok result ∧ run tree'.toFileTree "/tmp" = .ok result'
        ∧ result.diagnostics.Perm result'.diagnostics := by
  let package : Package :=
    { files :=
        [(⟨["package.json".toList], false, by decide, by decide⟩,
            "\x7b\"exports\":\x7b\"./*\":\"./lib/*\"\x7d\x7d"),
          (⟨["lib".toList, "a.mjs".toList], false, by decide, by decide⟩, "module.exports = 1")]
      named := by decide }
  let d : Dir := ⟨1, ["home".toList, "p".toList], by decide, by decide⟩
  let d' : Dir := ⟨1, ["tmp".toList], by decide, by decide⟩
  obtain ⟨tree, h⟩ := package.exists_lies (d := d) rfl
  obtain ⟨tree', h'⟩ := package.exists_lies (d := d') rfl
  have hmanifest : package.manifestIn? [] = some [("exports", .obj [("./*", .str "./lib/*")])] := by
    cbv
  have hinside : Manifest.StaysInside [("exports", .obj [("./*", .str "./lib/*")])] := by
    refine .of_strings fun p v hp => ?_
    have hone : ∀ {k key : String} {x : Json} {rest : Location},
        (Json.obj [(k, x)]).at? (key :: rest) = some (.str v) → x.at? rest = some (.str v) := by
      intro k key x rest hx
      by_cases hkey : k = key
      · simpa [Json.at?, Assoc.get?, hkey] using hx
      · simp [Json.at?, Assoc.get?, hkey] at hx
    have hv : v = "./lib/*" := by
      rcases p with _ | ⟨field, _ | ⟨key, _ | _⟩⟩
      · simp at hp
      · simpa using hone hp
      · simpa [eq_comm] using hone (hone hp)
      · simpa [Json.at?] using hone (hone hp)
    rw [hv]
    decide
  obtain ⟨result, result', hrun, hrun', hperm⟩ := diagnostics_relocated h h' (by decide +kernel)
    (by decide) (by decide) hmanifest hinside .suggestion false none "/" "/"
  have hpath : d.path = "/home/p" := by decide
  have hpath' : d'.path = "/tmp" := by decide
  exact ⟨package, d, d', tree, tree', result, result', hpath, hpath', h, h', hpath ▸ hrun,
    hpath' ▸ hrun', hperm⟩

end Pass

end PackageLint
