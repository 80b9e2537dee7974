import PackageLint.Proofs.Agreement
import PackageLint.Proofs.MovedFindings

/-!
# Passes that mirror each other

Two passes mirror each other when what the one asks of its tree is answered to the other about paths
that stand for the first ones. It does not matter how the paths of the trees are matched, nor that some
texts differ, as long as nothing judges them: the text of a file counts only where its name is that of
code. Every check of one pass then agrees with the same check of the other, its findings moved to where
the other manifest says the same.

This module says what mirroring is and shows it of the checks of the fields that name files and of the
package as a whole. Targets, and plans as a whole, come after it.

## Main definitions

* `ReadAlike` — paths that are read with the same outcome
* `Mirror` — how the paths of two passes stand for each other, and why their answers agree

## Main results

* `Mirror.agree_readEntry`, `Mirror.agree_readLegacyEntry` — reading what a manifest names
* `Mirror.agree_mainField`, `Mirror.agree_moduleField`, `Mirror.agree_knownField`,
  `Mirror.agree_browserField`, `Mirror.agree_binField` — the fields that name files
* `Mirror.agree_filesField`, `Mirror.agree_licenseField`, `Mirror.agree_implicitIndex` — the package
-/

namespace PackageLint

open Diagnostic (move)

/-! ### Reading -/

/-- Two paths are read alike: both can be read or neither, each is then published or neither, and where
the text is judged it is the same. -/
structure ReadAlike (tree tree' : FileTree) (ctx ctx' : Context) (judged : Bool) (p p' : String) :
    Prop where
  readable : (tree.text? p).isSome = (tree'.text? p').isSome
  text : judged = true → tree.text? p = tree'.text? p'
  published : (tree.text? p).isSome = true → ctx.isPublished p = ctx'.isPublished p'

/-- Two texts that were read or not: both were or neither, and where they are judged they are the
same. -/
structure TextAlike (judged : Bool) (t t' : Option String) : Prop where
  isSome_eq : t.isSome = t'.isSome
  eq_of_judged : judged = true → t = t'

namespace TextAlike

theorem refl (judged : Bool) (t : Option String) : TextAlike judged t t := ⟨rfl, fun _ => rfl⟩

theorem cases {judged : Bool} {t t' : Option String} (h : TextAlike judged t t') :
    (t = none ∧ t' = none)
      ∨ ∃ text text', t = some text ∧ t' = some text' ∧ (judged = true → text = text') := by
  have hsome := h.isSome_eq
  cases t with
  | none =>
    cases t' with
    | none => exact Or.inl ⟨rfl, rfl⟩
    | some text' => exact absurd hsome (by simp)
  | some text =>
    cases t' with
    | none => exact absurd hsome (by simp)
    | some text' =>
      exact Or.inr ⟨text, text', rfl, rfl, fun hj => Option.some.inj (h.eq_of_judged hj)⟩

end TextAlike

section

variable {tree tree' : FileTree} {ctx ctx' : Context} {judged : Bool} {m : Location → Location}

theorem Context.map_move_readFindings (ctx : Context) (location : Location)
    (found : Option (String × String)) :
    (ctx.readFindings location found).map (move m) = ctx.readFindings (m location) found := by
  cases found with
  | none => rfl
  | some entry =>
    obtain ⟨path, text⟩ := entry
    simp only [readFindings]
    split <;> rfl

/-- Candidates that are read alike are read with the same findings, and texts that are alike. -/
theorem firstText?_alike {paths paths' : List String}
    (h : List.Forall₂ (ReadAlike tree tree' ctx ctx' judged) paths paths') (location : Location) :
    ctx.readFindings location (tree.firstText? paths)
        = ctx'.readFindings location (tree'.firstText? paths')
      ∧ TextAlike judged ((tree.firstText? paths).map Prod.snd)
          ((tree'.firstText? paths').map Prod.snd) := by
  induction h with
  | nil => exact ⟨rfl, .refl _ _⟩
  | @cons p p' rest rest' hp _ ih =>
    have halike : TextAlike judged (tree.text? p) (tree'.text? p') := ⟨hp.readable, hp.text⟩
    rw [FileTree.firstText?, FileTree.firstText?, List.findSome?_cons, List.findSome?_cons]
    rcases halike.cases with ⟨hread, hread'⟩ | ⟨text, text', hread, hread', htext⟩
    · rw [hread, hread']
      exact ih
    · have hpublished := hp.published (by rw [hread]; rfl)
      rw [hread, hread']
      refine ⟨by simp [Context.readFindings, hpublished], rfl, fun hjudged => ?_⟩
      rw [htext hjudged]
      rfl

/-- Entries whose candidates are read alike are read with the same findings, and texts that are
alike: those of the first candidates that can be read. -/
theorem agree_readEntry_of_candidates (ht : tree.TakesAnyPath) (ht' : tree'.TakesAnyPath)
    {path path' : String} {extensions : List String}
    (h : List.Forall₂ (ReadAlike tree tree' ctx ctx' judged)
      (Context.candidates path extensions) (Context.candidates path' extensions))
    (location : Location) :
    Check.Agree (move m) tree tree'
      (fun text text' => TextAlike judged text text'
        ∧ text = (tree.firstText? (Context.candidates path extensions)).map Prod.snd)
      (ctx.readEntry path location extensions) (ctx'.readEntry path' (m location) extensions) := by
  obtain ⟨hfindings, htext⟩ := firstText?_alike h (m location)
  have hrun := Context.run_readEntry ht ctx path location extensions
  have hrun' := Context.run_readEntry ht' ctx' path' (m location) extensions
  rw [← hfindings, ← ctx.map_move_readFindings] at hrun'
  exact Check.agree_of_run hrun hrun' rfl ⟨htext, rfl⟩

end

/-! ### Searches -/

/-- Two searches for the files of one value, each in its pass. Directories may only be left out in
the scan of all files. -/
structure Subpath.Search.Alike (ctx ctx' : Context) (value : String) (search search' : Search) :
    Prop where
  pattern : search.pattern = EntryTree.targetPath ctx value
  pattern' : search'.pattern = EntryTree.targetPath ctx' value
  published : search.published = ctx.published
  published' : search'.published = ctx'.published
  hides : ∀ capture, search.hides capture = search'.hides capture
  skipped : search.skipped = search'.skipped
  walked : search.skipped = [] ∨ value = "./*"

/-- The first license among names that are directories in both trees or in neither. -/
theorem PackageChecks.same_firstLicense {tree tree' : FileTree} {ctx ctx' : Context}
    {ρ : Diagnostic → Diagnostic} {names : List String}
    (h : ∀ name ∈ names, tree.isDir (ctx.within name) = tree'.isDir (ctx'.within name)) :
    Check.Same ρ tree tree' (firstLicense ctx names) (firstLicense ctx' names) := by
  induction names with
  | nil => exact .done rfl
  | cons name rest ih =>
    obtain ⟨hname, hrest⟩ := List.forall_mem_cons.mp h
    rw [firstLicense, firstLicense, Check.bind_eq, Check.bind_eq]
    refine (Check.same_isDir hname).bind_same fun isDir => ?_
    split
    · exact ih hrest
    · split
      · exact .done rfl
      · exact ih hrest

/-! ### Mirrors -/

/-- Whether a file of a target has to be there: code does, and what lies at a path does unless it is a
typed source. -/
def EntryTree.isLookedFor (path : String) : Bool :=
  Source.isLintableName path || (Path.looksAbsolute path && !Source.isTypedSource path)

/-- How the paths of two passes stand for each other, and why their answers agree. -/
structure Mirror (tree tree' : FileTree) (ctx ctx' : Context) where
  /-- The values that may name files. -/
  Fits : String → Prop
  /-- The values that may be targets. -/
  Aims : String → Prop
  /-- The paths that stand for each other. -/
  Alike : String → String → Prop
  /-- The paths of files that stand for each other. -/
  Within : String → String → Prop
  takesAnyPath : tree.TakesAnyPath
  takesAnyPath' : tree'.TakesAnyPath
  listsDirs : tree.ListsDirs
  listsDirs' : tree'.ListsDirs
  -- Answers about paths that stand for each other
  isThere {p p' : String} (hp : Alike p p') : tree.isThere p = tree'.isThere p'
  readAlike {p p' : String} (hp : Alike p p') :
    ReadAlike tree tree' ctx ctx' (Source.isLintableName p) p p'
  expectedFormat {p p' : String} (hp : Alike p p') :
    tree.expectedFormat p = tree'.expectedFormat p'
  expectedDeclarationFormat {p p' : String} (hp : Alike p p') :
    tree.expectedDeclarationFormat p = tree'.expectedDeclarationFormat p'
  jsxExtension? {p p' : String} (hp : Alike p p') :
    Context.jsxExtension? p = Context.jsxExtension? p'
  isLookedFor {p p' : String} (hp : Alike p p') :
    EntryTree.isLookedFor p = EntryTree.isLookedFor p'
  -- Files
  alike {p p' : String} (hp : Within p p') : Alike p p'
  within_of_readable {p p' : String} (hp : Alike p p') (h : (tree.text? p).isSome = true) :
    Within p p'
  isLintableName {p p' : String} (hp : Within p p') :
    Source.isLintableName p = Source.isLintableName p'
  formatFindings {p p' : String} (hp : Within p p') (content : String) (location : Location)
    (leniency : FileFormat.Leniency) (shown : Option String) :
    FileFormat.findings tree p content location leniency shown
      = FileFormat.findings tree' p' content location leniency shown
  relative {p p' : String} (hp : Within p p') : ctx.relative p = ctx'.relative p'
  -- Values
  fits_index : Fits PackageChecks.indexName
  fits_declaration : Fits Declarations.indexDeclaration
  fits_adjacent {value : String} (hv : Fits value) : Fits (Source.adjacentDeclaration value)
  fits_of_aims {value : String} (hv : Aims value) : Fits value
  aims_all : Aims "./*"
  aims_star {value : String} (hv : Aims value) (hslash : Text.hasEnd value "/" = true) :
    Aims (value ++ "*")
  within {value : String} (hv : Fits value) : Alike (ctx.within value) (ctx'.within value)
  within_code {value : String} (hv : Fits value) (hname : Source.isLintableName value = true) :
    Within (ctx.within value) (ctx'.within value)
  candidates {value : String} (hv : Fits value) :
    List.Forall₂ (ReadAlike tree tree' ctx ctx' (Source.isLintableName value))
      (Context.candidates (ctx.within value) Context.legacyExtensions)
      (Context.candidates (ctx'.within value) Context.legacyExtensions)
  target {value : String} (hv : Aims value) :
    Alike (EntryTree.targetPath ctx value) (EntryTree.targetPath ctx' value)
  -- Searches
  expanded {value : String} (hv : Aims value) (hwild : Pattern.hasWildcard value = true)
    {search search' : Subpath.Search} (hs : search.Alike ctx ctx' value search') :
    List.Forall₂ Within (tree.expanded ctx.depth search) (tree'.expanded ctx'.depth search')
  isIndex {p p' : String} (hp : Within p p') :
    p = ctx.within PackageChecks.indexName ↔ p' = ctx'.within PackageChecks.indexName
  isCandidate {p p' : String} (hp : Within p p') {value : String} (hv : Fits value) :
    p ∈ EntryChecks.legacyCandidates ctx (.str value)
      ↔ p' ∈ EntryChecks.legacyCandidates ctx' (.str value)
  -- The package
  internal {path : String} (hpath : path ∈ PackageChecks.internalPaths) :
    PackageChecks.mayBePublished ctx (ctx.within path)
        = PackageChecks.mayBePublished ctx' (ctx'.within path)
      ∧ tree.isThere (ctx.within path) = tree'.isThere (ctx'.within path)
  license (ρ : Diagnostic → Diagnostic) :
    Check.Same ρ tree tree' (do PackageChecks.firstLicense ctx (← Check.readDir ctx.pkgDir))
      (do PackageChecks.firstLicense ctx' (← Check.readDir ctx'.pkgDir))

namespace Mirror

variable {tree tree' : FileTree} {ctx ctx' : Context} (h : Mirror tree tree' ctx ctx')
  {m : Location → Location}

include h

/-! ### Steps -/

theorem same_isThere {p p' : String} (hp : h.Alike p p') :
    Check.Same (move m) tree tree' (Check.isThere p) (Check.isThere p') :=
  Check.same_isThere (h.isThere hp)

theorem agree_readQuietly {judged : Bool} {p p' : String}
    (hp : ReadAlike tree tree' ctx ctx' judged p p') :
    Check.Agree (move m) tree tree' (TextAlike judged) (Context.readQuietly p)
      (Context.readQuietly p') :=
  Check.agree_of_run (Context.run_readQuietly h.takesAnyPath p)
    (Context.run_readQuietly h.takesAnyPath' p') rfl ⟨hp.readable, hp.text⟩

/-- A value that names a file is read alike as it stands. -/
theorem readAlike_within {value : String} (hv : h.Fits value) :
    ReadAlike tree tree' ctx ctx' (Source.isLintableName value) (ctx.within value)
      (ctx'.within value) :=
  (List.forall₂_cons.mp (h.candidates hv)).1

theorem same_expectedFormat {p p' : String} (hp : h.Alike p p') :
    Check.Same (move m) tree tree' (Manifest.expectedFormat p) (Manifest.expectedFormat p') :=
  Check.agree_of_run (Manifest.run_expectedFormat _ p) (Manifest.run_expectedFormat _ p') rfl
    (h.expectedFormat hp)

theorem same_expectedDeclarationFormat {p p' : String} (hp : h.Alike p p') :
    Check.Same (move m) tree tree' (Manifest.expectedDeclarationFormat p)
      (Manifest.expectedDeclarationFormat p') :=
  Check.agree_of_run (Manifest.run_expectedDeclarationFormat _ p)
    (Manifest.run_expectedDeclarationFormat _ p') rfl (h.expectedDeclarationFormat hp)

/-- Reading a path as it stands. The text counts where the name is that of code, and where there is
one the path is that of a file. -/
theorem agree_readEntry {p p' : String} (hp : h.Alike p p') (location : Location) :
    Check.Agree (move m) tree tree'
      (fun text text' => TextAlike (Source.isLintableName p) text text'
        ∧ (text.isSome = true → h.Within p p'))
      (ctx.readEntry p location) (ctx'.readEntry p' (m location)) := by
  have hsingle : List.Forall₂ (ReadAlike tree tree' ctx ctx' (Source.isLintableName p))
      (Context.candidates p []) (Context.candidates p' []) := .cons (h.readAlike hp) .nil
  have hread := agree_readEntry_of_candidates (m := m) h.takesAnyPath h.takesAnyPath' hsingle location
  refine hread.imp ?_
  rintro text text' ⟨htext, hfirst⟩
  refine ⟨htext, fun hsome => h.within_of_readable hp ?_⟩
  rw [hfirst, Context.candidates, List.map_nil, FileTree.firstText?_singleton] at hsome
  simpa using hsome

/-- Reading a file that legacy resolution may complete. -/
theorem agree_readLegacyEntry {value : String} (hv : h.Fits value) (location : Location) :
    Check.Agree (move m) tree tree' (TextAlike (Source.isLintableName value))
      (ctx.readEntry (ctx.within value) location Context.legacyExtensions)
      (ctx'.readEntry (ctx'.within value) (m location) Context.legacyExtensions) :=
  (agree_readEntry_of_candidates h.takesAnyPath h.takesAnyPath' (h.candidates hv) location).imp
    fun _ _ => And.left

omit h in
theorem map_move_formatFindings (tree : FileTree) (path content : String) (location : Location)
    (leniency : FileFormat.Leniency) (shown : Option String) :
    (FileFormat.findings tree path content location leniency shown).map (move m)
      = FileFormat.findings tree path content (m location) leniency shown := by
  have hmismatch (actual expected : Format) :
      (FileFormat.mismatch path location actual expected shown).move m
        = FileFormat.mismatch path (m location) actual expected shown := by
    have hplain : ((FileFormat.mismatch path location actual expected shown).args.map Prod.fst).all
        (!Diagnostic.placeArgs.contains ·) = true := by
      cases shown <;> simp [FileFormat.mismatch, Diagnostic.placeArgs]
    rw [Diagnostic.move_of_plain hplain]
    simp only [FileFormat.mismatch]
  simp only [FileFormat.findings]
  split
  · rw [List.map_singleton, hmismatch]
  · rfl

/-- Comparing the format of a file with the one that its path expects. -/
theorem same_check {p p' : String} (hp : h.Within p p') (content : String) (location : Location)
    (leniency : FileFormat.Leniency) (shown : Option String) :
    Check.Same (move m) tree tree' (FileFormat.check p content location leniency shown)
      (FileFormat.check p' content (m location) leniency shown) := by
  refine Check.agree_of_run (FileFormat.run_check tree p content location leniency shown)
    (FileFormat.run_check tree' p' content (m location) leniency shown) ?_ rfl
  rw [map_move_formatFindings, h.formatFindings hp]

omit h in
/-- A finding about an extension. -/
theorem same_rejectsJsx {p p' : String}
    (hp : Context.jsxExtension? p = Context.jsxExtension? p') (location : Location)
    (globbed : Option String) :
    Check.Same (move m) tree tree' (Context.rejectsJsx p location globbed)
      (Context.rejectsJsx p' (m location) globbed) := by
  refine Check.agree_of_run (Context.run_rejectsJsx tree p location globbed)
    (Context.run_rejectsJsx tree' p' (m location) globbed) ?_ (by rw [hp])
  rw [Context.jsxFindings, Context.jsxFindings, hp]
  split <;> rfl

omit h in
theorem move_wrongType (value : Json) (types : List String) (location : Location) :
    (Context.wrongType value types location).move m = Context.wrongType value types (m location) :=
  rfl

/-! ### The entry points of legacy resolution -/

/-- The entry point that is read, and the value that names it. -/
theorem agree_readLegacy {value : Json} (hv : ∀ v, value = .str v → h.Fits v)
    (location : Location) :
    Check.Agree (move m) tree tree'
      (fun found found' => found' = found
        ∧ ∀ entry ∈ found, h.Within (ctx.within entry.1) (ctx'.within entry.1))
      (EntryChecks.readLegacy ctx value location)
      (EntryChecks.readLegacy ctx' value (m location)) := by
  have hnone : ∀ entry ∈ (none : Option (String × String)),
      h.Within (ctx.within entry.1) (ctx'.within entry.1) := by simp
  cases value with
  | str path =>
    have hfits := hv path rfl
    simp only [EntryChecks.readLegacy, Check.bind_eq]
    refine (h.agree_readLegacyEntry hfits location).bind fun text text' htext => ?_
    rcases htext.cases with ⟨rfl, rfl⟩ | ⟨content, content', rfl, rfl, hcontent⟩
    · exact .done ⟨rfl, hnone⟩
    · refine (same_rejectsJsx rfl location none).bind_same fun rejected => ?_
      split
      · exact .done ⟨rfl, hnone⟩
      · split
        next hname =>
          refine .done ⟨by rw [hcontent hname], fun entry hentry => ?_⟩
          obtain rfl := Option.some.inj hentry
          exact h.within_code hfits hname
        next => exact .done ⟨rfl, hnone⟩
  | _ =>
    simp only [EntryChecks.readLegacy, Check.bind_eq]
    exact (Check.same_add (move_wrongType _ _ _)).bind_same fun _ => .done ⟨rfl, hnone⟩

theorem agree_mainField {value : Json} (hv : ∀ v, value = .str v → h.Fits v)
    (location : Location) (hasExports : Bool) :
    (EntryChecks.mainField ctx value location hasExports).Agree (move m) tree tree'
      (EntryChecks.mainField ctx' value (m location) hasExports) := by
  refine Plan.agree_single ?_ _ _
  rw [EntryChecks.checkMain, EntryChecks.checkMain, Check.bind_eq, Check.bind_eq]
  refine (h.agree_readLegacy hv location).bind ?_
  rintro found _ ⟨hsame, hwithin⟩
  rw [hsame]
  cases found with
  | none => exact .done rfl
  | some entry =>
    obtain ⟨path, content⟩ := entry
    simp only [Check.bind_eq]
    refine (h.same_check (hwithin _ rfl) content location {} none).bind_same fun actual => ?_
    exact Check.same_ite_add rfl

theorem agree_moduleField {value : Json} (hv : ∀ v, value = .str v → h.Fits v)
    (location : Location) (hasExports : Bool) :
    (EntryChecks.moduleField ctx value location hasExports).Agree (move m) tree tree'
      (EntryChecks.moduleField ctx' value (m location) hasExports) := by
  refine Plan.agree_single ?_ _ _
  rw [EntryChecks.checkModule, EntryChecks.checkModule, Check.bind_eq, Check.bind_eq]
  refine (h.agree_readLegacy hv location).bind ?_
  rintro found _ ⟨hsame, -⟩
  rw [hsame]
  cases found with
  | none => exact .done rfl
  | some entry =>
    simp only [Check.bind_eq]
    split
    · refine (Check.same_add rfl).bind_same fun _ => ?_
      split
      · exact .done rfl
      · exact Check.same_add rfl
    · simp only [Check.pure_eq]
      split
      · exact .done rfl
      · exact Check.same_add rfl

/-! ### Fields that name files -/

/-- A field that names a file, where both manifests have one value for it and agree on `module`. -/
theorem agree_knownField {field : String} {value : Json} {location : Location}
    (hp : ctx.manifest.published field = (value, location))
    (hp' : ctx'.manifest.published field = (value, m location))
    (hv : ∀ v, value = .str v → h.Fits v)
    (hmodule : EntryChecks.isGiven ctx "module" = EntryChecks.isGiven ctx' "module") :
    (EntryChecks.knownField ctx field).Agree (move m) tree tree'
      (EntryChecks.knownField ctx' field) := by
  rw [EntryChecks.knownField, EntryChecks.knownField, hp, hp']
  cases value with
  | null => exact Plan.agree_empty
  | str value =>
    refine Plan.agree_single ?_ _ _
    rw [EntryChecks.checkKnownField, EntryChecks.checkKnownField, Check.bind_eq, Check.bind_eq]
    refine (h.agree_readLegacyEntry (hv value rfl) location).bind fun text text' htext => ?_
    rcases htext.cases with ⟨rfl, rfl⟩ | ⟨content, content', rfl, rfl, -⟩
    · exact .done rfl
    · rw [hmodule]
      exact Check.same_ite_add rfl
  | _ => exact Plan.agree_finding (move_wrongType _ _ _)

/-! ### `browser` -/

omit h in
mutual

theorem nestedStrings_move {location : Location} (hm : location.Carries m) (value : Json) :
    EntryChecks.nestedStrings (m location) value
      = (EntryChecks.nestedStrings location value).map fun entry => (entry.1, m entry.2) := by
  cases value with
  | str value => rfl
  | obj fields => exact nestedStringsOf_move hm fields
  | _ => rfl

theorem nestedStringsOf_move {location : Location} (hm : location.Carries m)
    (fields : List (String × Json)) :
    EntryChecks.nestedStringsOf (m location) fields
      = (EntryChecks.nestedStringsOf location fields).map fun entry => (entry.1, m entry.2) := by
  cases fields with
  | nil => rfl
  | cons field rest =>
    obtain ⟨key, value⟩ := field
    rw [EntryChecks.nestedStringsOf, EntryChecks.nestedStringsOf, List.map_append, ← hm.concat,
      nestedStrings_move (hm.below [key]) value, nestedStringsOf_move hm rest]

end

theorem agree_browserTask {entry : String × Location} (hv : h.Fits entry.1) :
    (EntryChecks.browserTask ctx entry).Agree (move m) tree tree'
      (EntryChecks.browserTask ctx' (entry.1, m entry.2)) := by
  refine Task.agree_single ?_ _ _
  rw [Check.bind_eq, Check.bind_eq]
  exact (h.agree_readLegacyEntry hv entry.2).bind fun _ _ _ => .done rfl

theorem agree_browserField {value : Json} {location : Location} (hm : location.Carries m)
    (hv : ∀ entry ∈ EntryChecks.nestedStrings location value, h.Fits entry.1) (hasExports : Bool) :
    (EntryChecks.browserField ctx value location hasExports).Agree (move m) tree tree'
      (EntryChecks.browserField ctx' value (m location) hasExports) := by
  have hfindings : (if hasExports then [EntryChecks.preferConditions value location] else []).map
        (move m)
      = if hasExports then [EntryChecks.preferConditions value (m location)] else [] := by
    cases hasExports <;> rfl
  refine Plan.agree_mk (.of_eq hfindings) (.of_eq ?_)
  simp only [EntryChecks.browserField]
  rw [nestedStrings_move hm, List.map_map]
  refine (flatMap_eq_map_of_forall₂ ?_).symm
  rw [List.forall₂_map_left_iff, List.forall₂_map_right_iff, List.forall₂_same]
  exact fun entry hentry => h.agree_browserTask (hv entry hentry)

/-! ### `bin` -/

theorem agree_command {value : String} (hv : h.Fits value) (location : Location) :
    (EntryChecks.command ctx value location).Agree (move m) tree tree'
      (EntryChecks.command ctx' value (m location)) := by
  refine Plan.agree_single ?_ _ _
  simp only [EntryChecks.checkCommand, Check.bind_eq]
  refine (h.agree_readLegacyEntry hv location).bind fun text text' htext => ?_
  rcases htext.cases with ⟨rfl, rfl⟩ | ⟨content, content', rfl, rfl, hcontent⟩
  · exact .done rfl
  · simp only
    split
    next hname =>
      obtain rfl := hcontent hname
      have hformat : Check.Same (move m) tree tree'
          ((FileFormat.check (ctx.within value) content location).bind fun _ => .done ())
          ((FileFormat.check (ctx'.within value) content (m location)).bind fun _ => .done ()) :=
        (h.same_check (h.within_code hv hname) content location {} none).bind_same fun _ => .done rfl
      split
      · exact hformat
      · exact (Check.same_add rfl).bind_same fun _ => hformat
    next => exact .done rfl

theorem agree_binField {value : Json} {location : Location} (hm : location.Carries m)
    (hv : ∀ v, value = .str v → h.Fits v)
    (hvs : ∀ fields, value = .obj fields → ∀ name v, (name, Json.str v) ∈ fields → h.Fits v) :
    (EntryChecks.binField ctx value location).Agree (move m) tree tree'
      (EntryChecks.binField ctx' value (m location)) := by
  cases value with
  | str path => exact h.agree_command (hv path rfl) location
  | obj fields =>
    refine Plan.agree_concat_map fun field hfield => ?_
    obtain ⟨name, value⟩ := field
    cases value with
    | str path =>
      simp only
      rw [← hm.concat]
      exact h.agree_command (hvs fields rfl name path hfield) _
    | _ =>
      simp only
      rw [← hm.concat]
      exact Plan.agree_finding (move_wrongType _ _ _)
  | _ => exact Plan.agree_empty

/-! ### The package as a whole -/

theorem same_somePublished {paths : List String} (hpaths : paths ⊆ PackageChecks.internalPaths) :
    Check.Same (move m) tree tree' (PackageChecks.somePublished ctx paths)
      (PackageChecks.somePublished ctx' paths) := by
  induction paths with
  | nil => exact .done rfl
  | cons path rest ih =>
    obtain ⟨hpath, hrest⟩ := List.cons_subset.mp hpaths
    obtain ⟨hpublished, hthere⟩ := h.internal hpath
    simp only [PackageChecks.somePublished, hpublished, Check.bind_eq]
    split
    · refine (Check.same_isThere hthere).bind_same fun there => ?_
      split
      · exact .done rfl
      · exact ih hrest
    · exact ih hrest

section

variable (hname : m PackageChecks.wholePackage = PackageChecks.wholePackage)

include hname

omit h in
/-- A finding about the package as a whole stays in its place. -/
theorem move_wholePackage {code : Code} {severity : Severity} {args : Args}
    (hargs : (args.map Prod.fst).all (!Diagnostic.placeArgs.contains ·) = true) :
    move m { code, severity, location := PackageChecks.wholePackage, args }
      = { code, severity, location := PackageChecks.wholePackage, args } := by
  rw [Diagnostic.move_of_plain hargs, hname]

theorem agree_filesField
    (hfield : (Json.field ctx.manifest "files").isNull = (Json.field ctx'.manifest "files").isNull) :
    (PackageChecks.filesField ctx).Agree (move m) tree tree' (PackageChecks.filesField ctx') := by
  rw [PackageChecks.filesField, PackageChecks.filesField, hfield]
  refine Plan.agree_ite fun _ => Plan.agree_single ?_ _ _
  rw [Check.bind_eq, Check.bind_eq]
  refine (h.same_somePublished fun _ => id).bind_same fun found => ?_
  exact Check.same_ite_add (move_wholePackage hname rfl)

theorem agree_licenseField
    (hfield : (Json.field ctx.manifest "license").isNull
      = (Json.field ctx'.manifest "license").isNull) :
    (PackageChecks.licenseField ctx).Agree (move m) tree tree' (PackageChecks.licenseField ctx') := by
  rw [PackageChecks.licenseField, PackageChecks.licenseField, hfield]
  refine Plan.agree_ite fun _ => Plan.agree_single ?_ _ _
  simp only [Check.bind_eq]
  rw [← Check.bind_assoc, ← Check.bind_assoc]
  refine (h.license _).bind_same fun found => ?_
  cases found with
  | none => exact .done rfl
  | some name => exact Check.same_add (move_wholePackage hname rfl)

omit h in
theorem agree_typeField
    (hfield : (Json.field ctx.manifest "type").isNull = (Json.field ctx'.manifest "type").isNull) :
    (PackageChecks.typeField ctx).Agree (move m) tree tree' (PackageChecks.typeField ctx') := by
  rw [PackageChecks.typeField, PackageChecks.typeField, hfield]
  exact Plan.agree_ite fun _ => Plan.agree_finding (move_wholePackage hname rfl)

theorem agree_implicitIndex :
    (PackageChecks.implicitIndex ctx).Agree (move m) tree tree'
      (PackageChecks.implicitIndex ctx') := by
  refine Plan.agree_single ?_ _ _
  have hp := h.within h.fits_index
  have hread := h.readAlike_within h.fits_index
  rw [PackageChecks.checkIndex, PackageChecks.checkIndex]
  generalize ctx.within PackageChecks.indexName = p, ctx'.within PackageChecks.indexName = p'
    at hp hread
  simp only [Check.bind_eq]
  refine (h.same_isThere hp).bind_same fun there => ?_
  split
  · refine (h.agree_readQuietly hread).bind fun text text' htext => ?_
    obtain rfl := htext.eq_of_judged (by decide)
    cases text with
    | none => exact .done rfl
    | some content =>
      refine (h.same_expectedFormat hp).bind_same fun expected => ?_
      exact Check.same_ite_add (move_wholePackage hname rfl)
  · exact .done rfl

end

end Mirror

end PackageLint
