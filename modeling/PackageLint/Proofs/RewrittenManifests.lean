import PackageLint.Proofs.MirroredPlans

/-!
# Passes over a package whose manifest is rewritten

The manifest of a package may say the same in another way. The tree then differs from the old one in
the text of one file only, and no check judges that text, since its name is not that of code: what
counts of it is whether it can be read, the fields of the manifest, and the format that the manifest
declares. So the two passes mirror each other, every path standing for itself.

The manifest of a pass is in charge of the format of the files below it, and so may be the manifests in
other directories. That both manifests declare the same format is therefore asked for.

## Main definitions

* `MemoryTree.SameBut` — trees that hold the same but for the text of one file
* `Manifest.Rewrites` — a tree whose manifest is another one, which declares the same format
* `Manifest.Rewrites.mirror` — the passes mirror each other
* `Manifest.republish` — another value for a field, where the field is published

## Main results

* `Manifest.rewrites_of_write` — writing the manifest anew
* `Manifest.Rewrites.diagnostics_perm` — passes whose plans agree report the same
-/

namespace PackageLint

open PackageLint.Path

/-! ### Trees -/

namespace MemoryTree

/-- Two trees hold the same but for the text of the file with a normal path. -/
structure SameBut (key : String) (tree tree' : MemoryTree) : Prop where
  dirs : tree'.dirs = tree.dirs
  hasKey : ∀ path, Assoc.hasKey path tree'.files = Assoc.hasKey path tree.files
  get? : ∀ path, path ≠ key → Assoc.get? path tree'.files = Assoc.get? path tree.files

/-- Giving a file another text. -/
theorem Reachable.sameBut_write {tree tree' : MemoryTree} (h : tree.Reachable)
    {path content : String} (hfile : Assoc.hasKey (normalize path) tree.files = true)
    (hw : tree.write path content = .ok tree') : SameBut (normalize path) tree tree' where
  dirs := h.dirs_write hfile hw
  hasKey other := by
    rw [Bool.eq_iff_iff, hasKey_files_write hw]
    refine ⟨fun hor => hor.elim (fun heq => ?_) id, Or.inr⟩
    rw [heq]
    exact hfile
  get? other hne := by
    rw [(write_eq_ok_iff.mp hw).2.1, Assoc.get?_put_of_ne hne]

namespace SameBut

variable {key : String} {tree tree' : MemoryTree} (h : SameBut key tree tree')

include h

theorem entries (path : String) : tree'.entries path = tree.entries path := by
  rw [MemoryTree.entries, MemoryTree.entries, h.dirs]

theorem isDir (path : String) : tree'.toFileTree.isDir path = tree.toFileTree.isDir path := by
  change Assoc.hasKey _ tree'.dirs = Assoc.hasKey _ tree.dirs
  rw [h.dirs]

theorem isThere (path : String) : tree'.toFileTree.isThere path = tree.toFileTree.isThere path := by
  change (_ && Assoc.hasKey _ tree'.files || Assoc.hasKey _ tree'.dirs)
    = (_ && Assoc.hasKey _ tree.files || Assoc.hasKey _ tree.dirs)
  rw [h.dirs, h.hasKey]

theorem names (path : String) : tree'.toFileTree.names path = tree.toFileTree.names path := by
  change ((tree'.entries path).toOption).getD [] = ((tree.entries path).toOption).getD []
  rw [h.entries]

theorem depth : tree'.toFileTree.depth = tree.toFileTree.depth := congrArg List.length h.dirs

/-- The text of every other file is the same. -/
theorem text? {path : String} (hne : normalize path ≠ key) :
    tree'.toFileTree.text? path = tree.toFileTree.text? path := by
  have hcontents : ∀ text, tree'.contents path = .ok text ↔ tree.contents path = .ok text := by
    intro text
    rw [contents_eq_ok_iff, contents_eq_ok_iff, h.get? _ hne]
  refine Option.ext fun text => ?_
  rw [FileTree.text?_eq_some, FileTree.text?_eq_some]
  exact hcontents text

omit h in
theorem isSome_text? (tree : MemoryTree) (path : String) :
    (tree.toFileTree.text? path).isSome
      = (Assoc.hasKey (normalize path) tree.files && !namesDirectory path) := by
  rw [Bool.eq_iff_iff, Option.isSome_iff_exists, Bool.and_eq_true, Bool.not_eq_true',
    Assoc.hasKey_iff_get?]
  constructor
  · rintro ⟨text, htext⟩
    obtain ⟨hget, hslash⟩ := contents_eq_ok_iff.mp (FileTree.text?_eq_some.mp htext)
    exact ⟨⟨text, hget⟩, hslash⟩
  · rintro ⟨⟨text, hget⟩, hslash⟩
    exact ⟨text, FileTree.text?_eq_some.mpr (contents_eq_ok_iff.mpr ⟨hget, hslash⟩)⟩

/-- A file can be read in both trees or in neither. -/
theorem readable (path : String) :
    (tree'.toFileTree.text? path).isSome = (tree.toFileTree.text? path).isSome := by
  rw [isSome_text?, isSome_text?, h.hasKey]

/-- Searches that look for the same, as far as what is listed goes, find the same. -/
theorem found {search search' : Subpath.Search}
    (hleads : ∀ path, search'.leadsToPublished path = search.leadsToPublished path)
    (hskipped : search'.skipped = search.skipped)
    (hfinds : ∀ dir, ∀ name ∈ tree.toFileTree.names dir,
      tree.toFileTree.isDir (join dir name) = false →
        search'.finds (join dir name) = search.finds (join dir name)) (bound : Nat) (dir : String) :
    tree'.toFileTree.found search' bound dir = tree.toFileTree.found search bound dir := by
  induction bound generalizing dir with
  | zero => rfl
  | succ bound ih =>
    simp only [FileTree.found, h.names, h.isDir, hleads, hskipped, ih]
    refine List.flatMap_congr fun name hname => ?_
    by_cases hdir : tree.toFileTree.isDir (join dir name) = true
    · rw [if_pos hdir, if_pos hdir]
    · rw [hfinds dir name hname (by simpa using hdir)]

/-- The same for searches with one pattern. -/
theorem expanded {search search' : Subpath.Search} (hpattern : search'.pattern = search.pattern)
    (hleads : ∀ path, search'.leadsToPublished path = search.leadsToPublished path)
    (hskipped : search'.skipped = search.skipped)
    (hfinds : ∀ dir, ∀ name ∈ tree.toFileTree.names dir,
      tree.toFileTree.isDir (join dir name) = false →
        search'.finds (join dir name) = search.finds (join dir name)) (depth : Nat) :
    tree'.toFileTree.expanded depth search' = tree.toFileTree.expanded depth search := by
  simp only [FileTree.expanded, hpattern, h.isDir, h.found hleads hskipped hfinds]

end SameBut

end MemoryTree

/-! ### Manifests -/

namespace Manifest

/-- A tree differs from another one in the text of the manifest of a package only, and both manifests
declare the same format. -/
structure Rewrites (pkgDir : String) (tree tree' : MemoryTree) (manifest manifest' : Manifest) :
    Prop where
  sameBut : tree.SameBut (normalize (pathIn pkgDir)) tree'
  load : (load pkgDir).result tree.toFileTree = .ok (.ok manifest)
  load' : (Manifest.load pkgDir).result tree'.toFileTree = .ok (.ok manifest')
  declaresEsm : manifest'.declaresEsm = manifest.declaresEsm

variable {pkgDir : String} {tree tree' : MemoryTree} {manifest manifest' : Manifest}

/-- Writing a manifest anew. -/
theorem rewrites_of_write (ht : tree.Reachable)
    (hload : (load pkgDir).result tree.toFileTree = .ok (.ok manifest)) {text : String}
    (hw : tree.write (pathIn pkgDir) text = .ok tree') (htext : ofText? text = some manifest')
    (hdeclares : manifest'.declaresEsm = manifest.declaresEsm) :
    Rewrites pkgDir tree tree' manifest manifest' := by
  obtain ⟨old, hold, -⟩ := load_eq_ok_iff.mp hload
  obtain ⟨hget, hslash⟩ := MemoryTree.contents_eq_ok_iff.mp hold
  have hfile : Assoc.hasKey (normalize (pathIn pkgDir)) tree.files = true :=
    Assoc.hasKey_iff_get?.mpr ⟨old, hget⟩
  have hget' : Assoc.get? (normalize (pathIn pkgDir)) tree'.files = some text := by
    rw [(MemoryTree.write_eq_ok_iff.mp hw).2.1, Assoc.get?_put_self]
  have hcontents : tree'.toFileTree.contents (pathIn pkgDir) = .ok text :=
    MemoryTree.contents_eq_ok_iff.mpr ⟨hget', hslash⟩
  exact
    { sameBut := ht.sameBut_write hfile hw, load := hload
      load' := load_eq_ok_iff.mpr ⟨text, hcontents, htext⟩, declaresEsm := hdeclares }

/-- The text of a manifest's file ends with the name of manifests. -/
theorem hasEnd_pathIn (pkgDir : String) :
    Text.hasEnd (normalize (pathIn pkgDir)) manifestName = true := by
  have hname : IsName manifestName.toList := by decide
  have hself : Text.hasEnd manifestName manifestName = true := by decide
  exact hasEnd_normalize hname (hasEnd_join hname hself)

/-- A path with the name of code is not that of a manifest. -/
theorem normalize_ne_pathIn (pkgDir : String) {path : String}
    (hname : Source.isLintableName path = true) : normalize path ≠ normalize (pathIn pkgDir) := by
  intro heq
  obtain ⟨ending, hmem, hend⟩ := List.any_eq_true.mp hname
  have hall : ∀ ending ∈ [".js", ".mjs", ".cjs"], IsName ending.toList
      ∧ ¬ ending.toList <:+ manifestName.toList ∧ ¬ manifestName.toList <:+ ending.toList := by
    decide
  obtain ⟨hending, hleft, hright⟩ := hall ending hmem
  have hend := hasEnd_normalize hending hend
  rw [heq, Text.hasEnd, List.isSuffixOf_iff_suffix] at hend
  have hmanifest := hasEnd_pathIn pkgDir
  rw [Text.hasEnd, List.isSuffixOf_iff_suffix] at hmanifest
  exact (List.suffix_or_suffix_of_suffix hend hmanifest).elim hleft hright

namespace Rewrites

variable (h : Rewrites pkgDir tree tree' manifest manifest')

include h

/-- What is code has the same text. -/
theorem text? {path : String} (hname : Source.isLintableName path = true) :
    tree'.toFileTree.text? path = tree.toFileTree.text? path :=
  h.sameBut.text? (normalize_ne_pathIn pkgDir hname)

/-- A directory has a manifest in both trees or in neither, and then they declare the same. -/
theorem declares_in (dir : String) :
    (tree'.toFileTree.manifestIn? dir).map Manifest.declaresEsm
      = (tree.toFileTree.manifestIn? dir).map Manifest.declaresEsm := by
  rw [FileTree.manifestIn?, FileTree.manifestIn?, h.sameBut.isThere, ← FileTree.text?,
    ← FileTree.text?]
  split
  swap
  · rfl
  by_cases hkey : normalize (join dir manifestName) = normalize (pathIn pkgDir)
  · have hsome := h.sameBut.readable (join dir manifestName)
    -- what is read here are the texts of the two manifests
    have hown : ∀ {tree : MemoryTree} {manifest : Manifest} {text : String},
        (Manifest.load pkgDir).result tree.toFileTree = .ok (.ok manifest) →
        tree.toFileTree.text? (join dir manifestName) = some text → ofText? text = some manifest := by
      intro tree manifest text hload htext
      obtain ⟨own, hown, hmanifest⟩ := load_eq_ok_iff.mp hload
      obtain ⟨hget, -⟩ := MemoryTree.contents_eq_ok_iff.mp (FileTree.text?_eq_some.mp htext)
      obtain ⟨hget', -⟩ := MemoryTree.contents_eq_ok_iff.mp hown
      rw [hkey, hget'] at hget
      rw [← Option.some.inj hget, hmanifest]
    cases htext : tree.toFileTree.text? (join dir manifestName) with
    | none =>
      rw [htext, Option.isSome_none, Option.isSome_eq_false_iff, Option.isNone_iff_eq_none] at hsome
      rw [hsome]
    | some text =>
      rw [htext] at hsome
      obtain ⟨text', htext'⟩ := Option.isSome_iff_exists.mp hsome
      rw [htext', Option.bind_some, Option.bind_some, hown h.load htext, hown h.load' htext',
        Option.map_some, Option.map_some, h.declaresEsm]
  · rw [h.sameBut.text? hkey]

theorem declares_nearest (dirs : List String) :
    (dirs.findSome? tree'.toFileTree.manifestIn?).map Manifest.declaresEsm
      = (dirs.findSome? tree.toFileTree.manifestIn?).map Manifest.declaresEsm := by
  induction dirs with
  | nil => rfl
  | cons dir rest ih =>
    have hin := h.declares_in dir
    rw [List.findSome?_cons, List.findSome?_cons]
    cases hfound : tree.toFileTree.manifestIn? dir with
    | none =>
      rw [hfound, Option.map_none, Option.map_eq_none_iff] at hin
      rw [hin]
      exact ih
    | some found =>
      rw [hfound] at hin
      obtain ⟨found', hfound', heq⟩ := Option.map_eq_some_iff.mp hin
      rw [hfound']
      exact congrArg some heq

theorem formatOf_nearest (path : String) :
    formatOf (tree'.toFileTree.nearestManifest? path)
      = formatOf (tree.toFileTree.nearestManifest? path) := by
  have hformat : ∀ found : Option Manifest,
      formatOf found = if (found.map Manifest.declaresEsm).getD false then .esm else .cjs := by
    intro found
    cases found <;> rfl
  rw [hformat, hformat, FileTree.nearestManifest?, FileTree.nearestManifest?, h.declares_nearest]

theorem expectedFormat (path : String) :
    tree'.toFileTree.expectedFormat path = tree.toFileTree.expectedFormat path := by
  simp only [FileTree.expectedFormat, h.formatOf_nearest]

theorem expectedDeclarationFormat (path : String) :
    tree'.toFileTree.expectedDeclarationFormat path
      = tree.toFileTree.expectedDeclarationFormat path := by
  simp only [FileTree.expectedDeclarationFormat, h.formatOf_nearest]

theorem formatFindings (path content : String) (location : Location)
    (leniency : FileFormat.Leniency) (shown : Option String) :
    FileFormat.findings tree'.toFileTree path content location leniency shown
      = FileFormat.findings tree.toFileTree path content location leniency shown := by
  simp only [FileFormat.findings, FileFormat.isExcused, h.expectedFormat, h.sameBut.isThere]
  rfl

variable (options : Pass.Options) (workDir : String)

/-- Every path is read alike, and judged alike where its name is that of code. -/
theorem readAlike {judged : Bool} {path : String}
    (hjudged : judged = true → Source.isLintableName path = true) :
    ReadAlike tree.toFileTree tree'.toFileTree
      (Pass.contextOf tree.toFileTree.depth workDir pkgDir manifest options)
      (Pass.contextOf tree'.toFileTree.depth workDir pkgDir manifest' options) judged path path where
  readable := (h.sameBut.readable path).symm
  text hj := (h.text? (hjudged hj)).symm
  published _ := rfl

/-- The candidates of legacy resolution are read alike. -/
theorem candidates (value : String) :
    let ctx := Pass.contextOf tree.toFileTree.depth workDir pkgDir manifest options
    let ctx' := Pass.contextOf tree'.toFileTree.depth workDir pkgDir manifest' options
    List.Forall₂
      (ReadAlike tree.toFileTree tree'.toFileTree ctx ctx' (Source.isLintableName value))
      (Context.candidates (ctx.within value) Context.legacyExtensions)
      (Context.candidates (ctx'.within value) Context.legacyExtensions) := by
  intro ctx ctx'
  refine List.forall₂_same.mpr fun path hpath => h.readAlike options workDir fun hjudged => ?_
  rcases List.mem_cons.mp hpath with rfl | hpath
  · obtain ⟨ending, hmem, hend⟩ := List.any_eq_true.mp hjudged
    have hall : ∀ ending ∈ [".js", ".mjs", ".cjs"], IsName ending.toList := by decide
    exact List.any_eq_true.mpr ⟨ending, hmem, hasEnd_join (hall ending hmem) hend⟩
  · obtain ⟨extension, hextension, rfl⟩ := List.mem_map.mp hpath
    refine List.any_eq_true.mpr ⟨".js", by decide, ?_⟩
    have hall : ∀ extension ∈ Context.legacyExtensions, ".js".toList <:+ extension.toList
        ∧ (Text.hasStart extension "/" = true → ".js".toList <:+ extension.toList.drop 1) := by
      decide
    obtain ⟨hwhole, hrest⟩ := hall extension hextension
    rw [Text.hasEnd, List.isSuffixOf_iff_suffix, Context.extend]
    split
    next hslash =>
      have hstart : Text.hasStart extension "/" = true := (Bool.and_eq_true_iff.mp hslash).1
      have hdrop : (String.ofList (extension.toList.drop 1)).toList = extension.toList.drop 1 :=
        String.toList_ofList
      rw [String.toList_append, hdrop]
      exact (hrest hstart).trans (List.suffix_append _ _)
    next =>
      rw [String.toList_append]
      exact hwhole.trans (List.suffix_append _ _)

/-- The passes before and after mirror each other, every path standing for itself. -/
def mirror :
    Mirror tree.toFileTree tree'.toFileTree
      (Pass.contextOf tree.toFileTree.depth workDir pkgDir manifest options)
      (Pass.contextOf tree'.toFileTree.depth workDir pkgDir manifest' options) where
  Fits _ := True
  Aims _ := True
  Alike := Eq
  Within := Eq
  takesAnyPath := tree.takesAnyPath
  takesAnyPath' := tree'.takesAnyPath
  listsDirs := tree.listsDirs
  listsDirs' := tree'.listsDirs
  isThere := by
    rintro p _ rfl
    exact (h.sameBut.isThere p).symm
  readAlike := by
    rintro p _ rfl
    exact h.readAlike options workDir id
  expectedFormat := by
    rintro p _ rfl
    exact (h.expectedFormat p).symm
  expectedDeclarationFormat := by
    rintro p _ rfl
    exact (h.expectedDeclarationFormat p).symm
  jsxExtension? hp := congrArg _ hp
  isLookedFor hp := congrArg _ hp
  alike hp := hp
  within_of_readable hp _ := hp
  isLintableName hp := congrArg _ hp
  formatFindings := by
    rintro p _ rfl content location leniency shown
    exact (h.formatFindings p content location leniency shown).symm
  relative := by
    rintro p _ rfl
    rfl
  fits_index := trivial
  fits_declaration := trivial
  fits_adjacent := id
  fits_of_aims := id
  aims_all := trivial
  aims_star hv _ := hv
  within _ := rfl
  within_code _ _ := rfl
  candidates _ := h.candidates options workDir _
  target _ := rfl
  expanded := by
    intro value _ _ search search' hs
    have hpattern : search'.pattern = search.pattern := hs.pattern'.trans hs.pattern.symm
    have hpublished : search'.published = search.published :=
      hs.published'.trans hs.published.symm
    have hleads : ∀ path, search'.leadsToPublished path = search.leadsToPublished path := by
      intro path
      rw [Subpath.Search.leadsToPublished, Subpath.Search.leadsToPublished, hpublished]
    have hfinds : ∀ path, search'.finds path = search.finds path := by
      intro path
      simp only [Subpath.Search.finds, hpattern, hs.hides]
    have hexpanded := h.sameBut.expanded hpattern hleads hs.skipped.symm
      (fun _ _ _ _ => hfinds _) tree.toFileTree.depth
    rw [List.forall₂_eq_eq_eq]
    simp only [Pass.contextOf, h.sameBut.depth, hexpanded]
  isIndex := by
    rintro p _ rfl
    rfl
  isCandidate := by
    rintro p _ rfl value _
    rfl
  internal _ := ⟨rfl, (h.sameBut.isThere _).symm⟩
  license ρ := by
    rw [Check.bind_eq, Check.bind_eq]
    exact (Check.same_readDir (h.sameBut.entries pkgDir).symm).bind_same fun names =>
      PackageChecks.same_firstLicense fun name _ => (h.sameBut.isDir _).symm

/-- The files of targets correspond when they are the same. -/
theorem filesAlike_of_eq {value : String} {files files' : List String} (heq : files' = files) :
    (h.mirror options workDir).FilesAlike value files files' := by
  subst heq
  exact List.forall₂_same.mpr fun _ _ => ⟨rfl, fun _ => rfl⟩

/-- Passes whose plans agree report the same, up to findings that only one of them has besides, and
which are errors. -/
theorem diagnostics_perm {ρ : Diagnostic → Diagnostic} (hρ : Pass.KeepsSeverity ρ)
    (extra : List Diagnostic) (hextra : ∀ d ∈ extra, d.severity = .error)
    (hplan : (Pass.plan (Pass.contextOf tree.toFileTree.depth workDir pkgDir manifest options)).Agree ρ
      tree.toFileTree tree'.toFileTree ({ findings := extra }
        ++ Pass.plan (Pass.contextOf tree'.toFileTree.depth workDir pkgDir manifest' options))) :
    ∃ result result', Pass.run tree.toFileTree pkgDir options workDir = .ok result
      ∧ Pass.run tree'.toFileTree pkgDir options workDir = .ok result'
      ∧ (result.diagnostics.map ρ).Perm (extra ++ result'.diagnostics) := by
  refine ⟨_, _, Pass.run_of_load h.load _ _,
    Pass.run_of_load h.load' _ _, ?_⟩
  rw [Plan.Agree, Plan.reported_besides, Plan.reported, ← Pass.findings_runPlan, Plan.reported,
    ← Pass.findings_runPlan] at hplan
  have hperm := Pass.diagnostics_perm hρ (Eq.refl options.level) (Eq.refl options.strict) hplan
  rwa [Pass.atLevel_logOf_append hextra] at hperm

/-- Passes whose plans agree but for an error of the first report the same, but for this error. -/
theorem diagnostics_besides {ρ : Diagnostic → Diagnostic} (hρ : Pass.KeepsSeverity ρ)
    {d : Diagnostic} (hd : d.severity = .error)
    (hmem : d ∈ (Pass.plan (Pass.contextOf tree.toFileTree.depth workDir pkgDir manifest
      options)).reported tree.toFileTree)
    (hplan : (Pass.plan (Pass.contextOf tree.toFileTree.depth workDir pkgDir manifest options)).Agree ρ
      tree.toFileTree tree'.toFileTree ({ findings := [ρ d] }
        ++ Pass.plan (Pass.contextOf tree'.toFileTree.depth workDir pkgDir manifest' options))) :
    ∃ result result' rest, Pass.run tree.toFileTree pkgDir options workDir = .ok result
      ∧ Pass.run tree'.toFileTree pkgDir options workDir = .ok result'
      ∧ result.diagnostics.Perm (d :: rest) ∧ (rest.map ρ).Perm result'.diagnostics := by
  have herror : ∀ e ∈ [ρ d], e.severity = .error := by
    intro e he
    rw [List.mem_singleton.mp he, hρ.severity_eq, hd]
  obtain ⟨result, result', hrun, hrun', hperm⟩ := h.diagnostics_perm options workDir hρ _ herror hplan
  obtain ⟨found, hload, hresult⟩ := Pass.run_eq_ok_iff.mp hrun
  obtain rfl : found = manifest := Except.ok.inj (Except.ok.inj (hload.symm.trans h.load))
  have hreported : d ∈ result.diagnostics := by
    rw [Plan.reported, ← Pass.findings_runPlan] at hmem
    rw [hresult]
    exact Pass.mem_diagnostics_of_error hd hmem options found
  obtain ⟨front, back, hdiagnostics⟩ := List.append_of_mem hreported
  have hfirst : result.diagnostics.Perm (d :: (front ++ back)) := by
    rw [hdiagnostics]
    exact List.perm_middle
  refine ⟨result, result', front ++ back, hrun, hrun', hfirst, ?_⟩
  exact ((hfirst.map ρ).symm.trans hperm).cons_inv

end Rewrites

/-! ### Publishing another value -/

/-- The manifest with another value for a field: in place of the override where that counts, else of the
field itself. -/
def republish (field : String) (value : Json) (manifest : Manifest) : Manifest :=
  if (Json.field manifest.overrides field).truthy then
    Assoc.put overridesKey (.obj (Assoc.put field value manifest.overrides)) manifest
  else Assoc.put field value manifest

variable {field key : String} {value : Json}

theorem get?_republish_of_ne (hfield : key ≠ field) (hkey : key ≠ overridesKey) :
    Assoc.get? key (manifest.republish field value) = Assoc.get? key manifest := by
  rw [republish]
  split
  · exact Assoc.get?_put_of_ne hkey _ _
  · exact Assoc.get?_put_of_ne hfield _ _

/-- What overrides the fields after another value is published. -/
theorem overrides_republish (manifest : Manifest) (value : Json) (hfield : field ≠ overridesKey) :
    (manifest.republish field value).overrides
      = if (Json.field manifest.overrides field).truthy then Assoc.put field value manifest.overrides
        else manifest.overrides := by
  rw [republish]
  split
  next =>
    have hobj : Json.field (Assoc.put overridesKey (.obj (Assoc.put field value manifest.overrides))
        manifest) "publishConfig" = .obj (Assoc.put field value manifest.overrides) := by
      change (Assoc.get? overridesKey _).getD Json.null = _
      rw [Assoc.get?_put_self, Option.getD_some]
    rw [overrides, hobj]
  next =>
    have hobj : Json.field (Assoc.put field value manifest) "publishConfig"
        = Json.field manifest "publishConfig" := by
      change (Assoc.get? overridesKey _).getD Json.null = (Assoc.get? overridesKey manifest).getD .null
      rw [Assoc.get?_put_of_ne (Ne.symm hfield)]
    rw [overrides, hobj, overrides]

/-- The other value is published where the field was. -/
theorem published_republish_self (hfield : field ≠ overridesKey)
    (hvalue : (Json.field manifest.overrides field).truthy = true → value.truthy = true) :
    (manifest.republish field value).published field
      = (value, (manifest.published field).2) := by
  have hoverrides := manifest.overrides_republish value hfield
  cases htruthy : (Json.field manifest.overrides field).truthy with
  | true =>
    have hown : Json.field (manifest.republish field value).overrides field = value := by
      rw [hoverrides, if_pos htruthy, Json.field, Assoc.get?_put_self, Option.getD_some]
    rw [published, hown, if_pos (hvalue htruthy), published, if_pos htruthy]
  | false =>
    have hnot : ¬ (Json.field manifest.overrides field).truthy = true := by simp [htruthy]
    have hsame : (manifest.republish field value).overrides = manifest.overrides := by
      rw [hoverrides, if_neg hnot]
    have hown : Json.field (manifest.republish field value) field = value := by
      rw [republish, if_neg hnot, Json.field, Assoc.get?_put_self, Option.getD_some]
    rw [published, hsame, if_neg hnot, hown, published, if_neg hnot]

/-- The other fields are published as before. -/
theorem published_republish_of_ne (hfield : field ≠ overridesKey) (hne : key ≠ field)
    (hkey : key ≠ overridesKey) :
    (manifest.republish field value).published key = manifest.published key := by
  have hoverride : Json.field (manifest.republish field value).overrides key
      = Json.field manifest.overrides key := by
    rw [manifest.overrides_republish value hfield]
    split
    · rw [Json.field, Assoc.get?_put_of_ne hne, Json.field]
    · rfl
  have hown : Json.field (manifest.republish field value) key = Json.field manifest key := by
    rw [Json.field, Json.field, get?_republish_of_ne hne hkey]
  rw [published, published, hoverride, hown]

variable {m : Location → Location}
  (hm : ∀ p, ¬ (manifest.published field).2 <+: p → m p = p)

include hm

/-- Where only places in a field are moved, the other fields are the same. -/
theorem sameField_republish (hfield : field ≠ overridesKey) (hne : key ≠ field)
    (hkey : key ≠ overridesKey) : SameField m manifest (manifest.republish field value) key := by
  have hfixed : ∀ keys, m ((manifest.published key).2 ++ keys) = (manifest.published key).2 ++ keys := by
    intro keys
    refine hm _ fun hprefix => ?_
    rcases manifest.location_published key with hl | hl <;>
      rcases manifest.location_published field with hl' | hl' <;> rw [hl, hl'] at hprefix
    · exact hne (List.cons_prefix_cons.mp hprefix).1.symm
    · exact hkey (List.cons_prefix_cons.mp hprefix).1.symm
    · exact hfield (List.cons_prefix_cons.mp hprefix).1
    · exact hne (List.cons_prefix_cons.mp (List.cons_prefix_cons.mp hprefix).2).1.symm
  have hroot := hfixed []
  rw [List.append_nil] at hroot
  refine ⟨?_, fun keys => ?_⟩
  · rw [published_republish_of_ne hfield hne hkey, hroot]
  · rw [hfixed, hroot]

/-- Another value for a condition tree changes nothing else that a pass reads. -/
theorem sameFields_republish (hfield : field ∈ treeFields) :
    SameFields m manifest (manifest.republish field value) where
  fixed key hkey rest := by
    have hall : ∀ field ∈ treeFields, ∀ key ∈ fixedFields, field ≠ key ∧ overridesKey ≠ key := by
      decide
    obtain ⟨hne, hne'⟩ := hall field hfield key hkey
    refine hm _ fun hprefix => ?_
    rcases manifest.location_published field with hl | hl <;> rw [hl] at hprefix
    · exact hne (List.cons_prefix_cons.mp hprefix).1
    · exact hne' (List.cons_prefix_cons.mp hprefix).1
  plain key hkey := by
    have hall : ∀ field ∈ treeFields, ∀ key ∈ plainFields, key ≠ field ∧ key ≠ overridesKey := by
      decide
    obtain ⟨hne, hne'⟩ := hall field hfield key hkey
    exact get?_republish_of_ne hne hne'
  values key hkey := by
    have hall : ∀ field ∈ treeFields, field ≠ overridesKey
        ∧ ∀ key ∈ valueFields, key ≠ field ∧ key ≠ overridesKey := by decide
    obtain ⟨hself, hothers⟩ := hall field hfield
    obtain ⟨hne, hne'⟩ := hothers key hkey
    exact sameField_republish hm hself hne hne'

omit hm in
/-- A manifest with another value for a condition tree declares the same format. -/
theorem declaresEsm_republish (hfield : field ∈ treeFields) :
    (manifest.republish field value).declaresEsm = manifest.declaresEsm := by
  have hsame : SameFields id manifest (manifest.republish field value) :=
    sameFields_republish (fun _ _ => rfl) hfield
  rw [declaresEsm, declaresEsm, hsame.field _ (by decide)]

end Manifest

end PackageLint
