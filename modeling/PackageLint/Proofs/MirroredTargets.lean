import PackageLint.Proofs.Mirrors

/-!
# Targets in passes that mirror each other

A target is checked alike in two passes when its place says the same in both: which conditions it is
under, what hides its files, and what `browser` has in its stead. The scan of all files is checked alike
once the same files are left out of it. A crawl of one tree at two places comes upon the same, at places
that are moved along.

## Main definitions

* `EntryTree.SamePlace` — a place that says the same in two condition trees

## Main results

* `Mirror.agree_checkTarget` — the check of a leaf, with the checks that it leaves
* `Mirror.agree_scan` — the scan of all files
* `Crawl.findings_move`, `Crawl.targets_move` — the crawl of a tree at a moved place
-/

namespace PackageLint

open Diagnostic (move)

/-! ### Hidden files -/

/-- Searches on behalf of one key hide the same when the same keys are null. -/
theorem Subpath.Search.hides_congr {search search' : Search} {exports exports' : ConditionTree}
    (hkey : search'.key = search.key) (htree : search.tree = some exports)
    (htree' : search'.tree = some exports')
    (hnull : ∀ pattern, pattern ∈ nullKeys exports' ↔ pattern ∈ nullKeys exports) :
    search'.hides = search.hides := by
  have hhiding : ∀ pattern, pattern ∈ search'.hidingKeys ↔ pattern ∈ search.hidingKeys := by
    intro pattern
    rw [hidingKeys, hidingKeys, hkey, htree, htree']
    cases search.key with
    | none => rfl
    | some key =>
      by_cases hempty : key = ""
      · simp only [hempty, if_true]
      · simp only [hempty, if_false, hnull]
  funext capture
  rw [hides, hides, hkey, Bool.eq_iff_iff, List.any_eq_true, List.any_eq_true]
  exact exists_congr fun pattern => and_congr_left' (hhiding pattern)

/-! ### Places of targets -/

namespace EntryTree

/-- The keys that tell how the target of a place is used. -/
def telling : List String := "module" :: browserishConditions

/-- A place of one condition tree, moved to the other, says the same there about how its target is
used. -/
structure SameUse (m : Location → Location) (entry entry' : EntryTree) (location : Location) :
    Prop where
  field : entry'.field = entry.field
  contains : ∀ key ∈ telling, (m location).contains key = location.contains key
  browser : entry'.browser = entry.browser
  browserLocation : entry.field = .exports → ∀ value,
    m (entry.browserLocation ++ [value]) = entry'.browserLocation ++ [value]

/-- A place of one condition tree, moved to the other, says the same there, also about the files that
are hidden. -/
structure SamePlace (m : Location → Location) (entry entry' : EntryTree) (location : Location) :
    Prop extends SameUse m entry entry' location where
  hides : ∀ ctx ctx' value capture, (entry.search ctx value location).hides capture
    = (entry'.search ctx' value (m location)).hides capture

variable {m : Location → Location} {entry entry' : EntryTree} {location : Location}
  {tree tree' : FileTree} {ctx ctx' : Context}

theorem same_reportStart (hs : SameUse m entry entry' location) (value : String) :
    Check.Same (move m) tree tree' (entry.reportStart value location)
      (entry'.reportStart value (m location)) := by
  rw [reportStart, reportStart]
  split
  · exact .done rfl
  · refine Check.same_add ?_
    rw [badTarget, badTarget, hs.field]
    rfl

theorem field_of_isRemapped {value : String} (h : entry.isRemapped value = true) :
    entry.field = .exports := by
  rw [isRemapped] at h
  cases hbrowser : entry.browser with
  | obj fields =>
    rw [hbrowser] at h
    simp only [Bool.and_eq_true, decide_eq_true_eq] at h
    exact h.1
  | _ =>
    rw [hbrowser] at h
    exact absurd h (by simp)

theorem SameUse.browserConflict? (hs : SameUse m entry entry' location) (value : String) :
    entry'.browserConflict? value (m location)
      = (entry.browserConflict? value location).map (move m) := by
  have hremapped : entry'.isRemapped value = entry.isRemapped value := by
    rw [isRemapped, isRemapped, hs.browser, hs.field]
  have hfind : browserishConditions.find? (m location).contains
      = browserishConditions.find? location.contains :=
    List.find?_congr fun key hkey => hs.contains key (List.mem_cons_of_mem _ hkey)
  rw [EntryTree.browserConflict?, EntryTree.browserConflict?, hremapped, hfind]
  split
  next hremaps =>
    rw [Option.map_map]
    refine congrArg (Option.map · _) (funext fun condition => ?_)
    rw [Function.comp_apply, ← hs.browserLocation (field_of_isRemapped hremaps), ← Arg.move_strs m]
    rfl
  next => rfl

theorem same_reportConflict (hs : SameUse m entry entry' location) (value : String) :
    Check.Same (move m) tree tree' (entry.reportConflict value location)
      (entry'.reportConflict value (m location)) := by
  rw [reportConflict, reportConflict, hs.browserConflict?]
  cases entry.browserConflict? value location with
  | none => exact .done rfl
  | some d => exact Check.same_add rfl

/-- What is done with a leaf once it is settled which value it goes by. -/
def afterStar (ctx : Context) (entry : EntryTree) (target : Crawl.Target) (value : String) :
    Check Batch :=
  (entry.reportStart value target.location).bind fun _ =>
    (entry.targetFiles ctx value target.location).bind fun files =>
      entry.finish ctx target value files

end EntryTree

/-! ### Crawls at a moved place -/

namespace Crawl

variable {m : Location → Location} {field : EntryField}

/-- A leaf with its place moved. -/
def Target.move (m : Location → Location) (target : Target) : Target :=
  { target with location := m target.location }

/-- What a crawl comes upon, with its place moved. -/
def Visit.move (m : Location → Location) : Visit → Visit
  | .finding d => .finding (d.move m)
  | .target t => .target (t.move m)

/-- The keys that a crawl minds the order of. -/
def orderedKeys : List String := ["types", "module", "require", "default", "node"]

theorem map_move_orderFindings {location location' : Location}
    (hm : ∀ key ∈ orderedKeys, m (location ++ [key]) = location' ++ [key])
    (entries : List (String × ConditionTree)) :
    (orderFindings field location entries).map (Diagnostic.move m)
      = orderFindings field location' entries := by
  simp only [orderFindings, List.map_append, ← hm "types" (by decide), ← hm "module" (by decide),
    ← hm "default" (by decide)]
  refine congrArg₂ (· ++ ·) (congrArg₂ (· ++ ·) ?_ ?_) ?_ <;> split <;> rfl

theorem map_move_keyFindings {location location' : Location} {key : String}
    (hm : m (location ++ [key]) = location' ++ [key])
    (hhash : needsHash field location' = needsHash field location) :
    (keyFindings field location key).map (Diagnostic.move m) = keyFindings field location' key := by
  simp only [keyFindings, hhash, badImportKey, ← hm]
  split <;> rfl

/-- The findings among what a crawl comes upon move with it. -/
theorem filterMap_finding?_move (visits : List Visit) :
    (visits.map (Visit.move m)).filterMap Visit.finding?
      = (visits.filterMap Visit.finding?).map (Diagnostic.move m) := by
  rw [List.filterMap_map, List.map_filterMap]
  refine congrArg (List.filterMap · _) (funext fun visit => ?_)
  cases visit <;> rfl

/-- The leaves among what a crawl comes upon move with it. -/
theorem filterMap_target?_move (visits : List Visit) :
    (visits.map (Visit.move m)).filterMap Visit.target?
      = (visits.filterMap Visit.target?).map (Target.move m) := by
  rw [List.filterMap_map, List.map_filterMap]
  refine congrArg (List.filterMap · _) (funext fun visit => ?_)
  cases visit <;> rfl

/-- Below a place that is carried along, the same keys have to start with `#`. -/
theorem needsHash_concat {location : Location} (hm : location.Carries m) (key : String) :
    needsHash field (m (location ++ [key])) = needsHash field (location ++ [key]) := by
  simp [needsHash, hm.concat]

mutual

theorem visits_move {location : Location} (hm : location.Carries m)
    (hhash : needsHash field (m location) = needsHash field location) (afterNode : Bool)
    (tree : ConditionTree) :
    visits field (m location) afterNode tree
      = (visits field location afterNode tree).map (Visit.move m) := by
  cases tree with
  | leaf value => rfl
  | array items =>
    rw [visits, visits, List.map_cons, itemVisits_move hm afterNode 0 items]
    rfl
  | map entries =>
    have horder : (orderFindings field (m location) entries).map Visit.finding
        = ((orderFindings field location entries).map Visit.finding).map (Visit.move m) := by
      rw [← map_move_orderFindings fun key _ => hm.concat key, List.map_map, List.map_map]
      rfl
    rw [visits, visits, List.map_append, entryVisits_move hm hhash afterNode entries, horder]
  | exclusion => rfl
  | invalid value => rfl

theorem itemVisits_move {location : Location} (hm : location.Carries m) (afterNode : Bool)
    (index : Nat) (items : List ConditionTree) :
    itemVisits field (m location) afterNode index items
      = (itemVisits field location afterNode index items).map (Visit.move m) := by
  cases items with
  | nil => rfl
  | cons tree rest =>
    rw [itemVisits, itemVisits, List.map_append, ← hm.concat,
      visits_move (hm.below _) (needsHash_concat hm _) afterNode tree,
      itemVisits_move hm afterNode (index + 1) rest]

theorem entryVisits_move {location : Location} (hm : location.Carries m)
    (hhash : needsHash field (m location) = needsHash field location) (afterNode : Bool)
    (entries : List (String × ConditionTree)) :
    entryVisits field (m location) afterNode entries
      = (entryVisits field location afterNode entries).map (Visit.move m) := by
  cases entries with
  | nil => rfl
  | cons entry rest =>
    obtain ⟨key, tree⟩ := entry
    have hkey : (keyFindings field (m location) key).map Visit.finding
        = ((keyFindings field location key).map Visit.finding).map (Visit.move m) := by
      rw [← map_move_keyFindings (hm.concat key) hhash, List.map_map, List.map_map]
      rfl
    rw [entryVisits, entryVisits, List.map_append, List.map_append, hkey, ← hm.concat,
      visits_move (hm.below _) (needsHash_concat hm key) afterNode tree,
      entryVisits_move hm hhash (afterNode || key = "node") rest]

end

variable {location : Location} (hm : location.Carries m)
  (hhash : needsHash field (m location) = needsHash field location)

include hm hhash

theorem findings_move (tree : ConditionTree) :
    findings field (m location) tree = (findings field location tree).map (Diagnostic.move m) := by
  rw [findings, findings, visits_move hm hhash, filterMap_finding?_move]

theorem targets_move (tree : ConditionTree) :
    targets field (m location) tree = (targets field location tree).map (Target.move m) := by
  rw [targets, targets, visits_move hm hhash, filterMap_target?_move]

end Crawl

namespace Mirror

open EntryTree (SamePlace SameUse)

variable {tree tree' : FileTree} {ctx ctx' : Context} (h : Mirror tree tree' ctx ctx')
  {m : Location → Location} {entry entry' : EntryTree} {location : Location}

/-! ### The files of a target -/

/-- The files of a target stand for each other, and where they were searched for each is a file. -/
def FilesAlike (value : String) (files files' : List String) : Prop :=
  List.Forall₂ (fun p p' => h.Alike p p' ∧ (Pattern.hasWildcard value = true → h.Within p p'))
    files files'

include h

theorem filesAlike (hs : SamePlace m entry entry' location) {value : String} (hv : h.Aims value) :
    h.FilesAlike value (entry.files tree ctx value location)
      (entry'.files tree' ctx' value (m location)) := by
  rw [EntryTree.files, EntryTree.files]
  split
  next hwild =>
    have hsearch : (entry.search ctx value location).Alike ctx ctx' value
        (entry'.search ctx' value (m location)) :=
      ⟨rfl, rfl, rfl, rfl, hs.hides ctx ctx' value, rfl, Or.inl rfl⟩
    exact (h.expanded hv hwild hsearch).imp fun p p' hp => ⟨h.alike hp, fun _ => hp⟩
  next hwild => exact .cons ⟨h.target hv, fun hw => absurd hw hwild⟩ .nil

/-! ### The checks of files -/

theorem same_checkContent (hs : SameUse m entry entry' location) {p p' : String}
    (hp : h.Within p p') (content value : String) (afterNode : Bool) (globbed : Option String) :
    Check.Same (move m) tree tree'
      (entry.checkContent p content value location afterNode globbed)
      (entry'.checkContent p' content value (m location) afterNode globbed) := by
  have hmodule := hs.contains "module" (by decide)
  have hbrowser := hs.contains "browser" (by decide)
  simp only [EntryTree.checkContent, hmodule, hbrowser, hs.field]
  split
  · exact .done rfl
  · split
    · exact Check.same_ite_add rfl
    · split
      · exact .done rfl
      · exact (h.same_check hp content location _ _).bind_same fun _ => .done rfl

theorem same_checkFile (hs : SameUse m entry entry' location) {p p' : String}
    (hp : h.Alike p p') (hcode : Source.isLintableName p = true) (value : String)
    (afterNode : Bool) (globbed : Option String) :
    Check.Same (move m) tree tree'
      (entry.checkFile ctx p value location afterNode globbed)
      (entry'.checkFile ctx' p' value (m location) afterNode globbed) := by
  rw [EntryTree.checkFile, EntryTree.checkFile, Check.bind_eq, Check.bind_eq]
  refine (h.agree_readEntry hp location).bind ?_
  rintro text text' ⟨htext, hwithin⟩
  obtain rfl := htext.eq_of_judged hcode
  cases text with
  | none => exact .done rfl
  | some content => exact h.same_checkContent hs (hwithin rfl) content value afterNode globbed

theorem same_checkPresence {p p' : String} (hp : h.Alike p p') (location : Location) :
    Check.Same (move m) tree tree' (EntryTree.checkPresence ctx p location)
      (EntryTree.checkPresence ctx' p' (m location)) := by
  rw [EntryTree.checkPresence, EntryTree.checkPresence, Check.bind_eq, Check.bind_eq]
  exact (h.agree_readEntry hp location).bind fun _ _ _ => .done rfl

omit h in
/-- A file that cannot be read is reported as missing, whether it would be judged or not. -/
theorem run_fileCheck?_of_unreadable (ht : tree.TakesAnyPath) {path : String}
    (hread : tree.text? path = none) {target : Crawl.Target} {value : String} {check : Check Unit}
    (hcheck : entry.fileCheck? ctx value target path = some check) :
    check.run tree = ⟨[Context.missing target.location], .ok ()⟩ := by
  have hfirst : tree.firstText? (Context.candidates path []) = none := by
    rw [Context.candidates, List.map_nil, FileTree.firstText?_singleton, hread, Option.map_none]
  have hentry : ∀ f : Option String → Check Unit, f none = .done () →
      ((ctx.readEntry path target.location).bind f).run tree
        = ⟨[Context.missing target.location], .ok ()⟩ := by
    intro f hf
    rw [Context.run_readEntry_bind ht, hfirst]
    simp only [Option.map_none, hf, Context.readFindings]
    rfl
  rw [EntryTree.fileCheck?] at hcheck
  split at hcheck
  · exact absurd hcheck (by simp)
  · split at hcheck
    · obtain rfl := Option.some.inj hcheck
      exact hentry _ rfl
    · split at hcheck
      · obtain rfl := Option.some.inj hcheck
        exact hentry _ rfl
      · exact absurd hcheck (by simp)

omit h in
theorem isSome_fileCheck? (ctx : Context) (entry : EntryTree) (value : String)
    (target : Crawl.Target) (path : String) :
    (entry.fileCheck? ctx value target path).isSome
      = (!(Context.jsxExtension? path).isSome && EntryTree.isLookedFor path) := by
  rw [EntryTree.fileCheck?, EntryTree.isLookedFor]
  split
  · simp [*]
  · split
    · simp [*]
    · split <;> simp_all

/-- The check of one file of a target. -/
theorem agree_fileCheck? {target target' : Crawl.Target}
    (hs : SameUse m entry entry' target.location) (htarget : target'.location = m target.location)
    (hnode : target'.afterNode = target.afterNode) {value : String} {p p' : String}
    (hp : h.Alike p p') (hglobbed : EntryTree.globbed ctx' value p' = EntryTree.globbed ctx value p) :
    Option.Rel (Check.Same (move m) tree tree') (entry.fileCheck? ctx value target p)
      (entry'.fileCheck? ctx' value target' p') := by
  have hjsx := h.jsxExtension? hp
  have hlooked := h.isLookedFor hp
  cases hread : tree.text? p with
  | some text =>
    have hcode := h.isLintableName (h.within_of_readable hp (by rw [hread]; rfl))
    rw [EntryTree.isLookedFor, EntryTree.isLookedFor, ← hcode] at hlooked
    rw [EntryTree.fileCheck?, EntryTree.fileCheck?, ← hjsx, ← hcode, htarget, hnode, hglobbed]
    split
    · exact .none
    · split
      next hname => exact .some (h.same_checkFile hs hp hname _ _ _)
      next hname =>
        simp only [hname, Bool.false_or] at hlooked
        rw [← hlooked]
        split
        · exact .some (h.same_checkPresence hp target.location)
        · exact .none
  | none =>
    -- Neither path can be read, so it does not matter which of them would be judged.
    have hread' : tree'.text? p' = none := by
      have hsome := (h.readAlike hp).readable
      rw [hread] at hsome
      exact Option.isNone_iff_eq_none.mp (by simpa using hsome.symm)
    have hsome := isSome_fileCheck? ctx entry value target p
    have hsome' := isSome_fileCheck? ctx' entry' value target' p'
    rw [← hjsx, ← hlooked, ← hsome] at hsome'
    cases hcheck : entry.fileCheck? ctx value target p with
    | none =>
      rw [hcheck] at hsome'
      have hcheck' : entry'.fileCheck? ctx' value target' p' = none :=
        Option.isNone_iff_eq_none.mp (by simpa using hsome')
      rw [hcheck']
      exact .none
    | some check =>
      rw [hcheck] at hsome'
      obtain ⟨check', hcheck'⟩ := Option.isSome_iff_exists.mp hsome'
      rw [hcheck']
      refine .some (Check.agree_of_run (run_fileCheck?_of_unreadable h.takesAnyPath hread hcheck)
        (run_fileCheck?_of_unreadable h.takesAnyPath' hread' hcheck') ?_ rfl)
      rw [htarget]
      rfl

/-- The checks of the files of a target. -/
theorem agree_fileChecks {target target' : Crawl.Target}
    (hs : SameUse m entry entry' target.location) (htarget : target'.location = m target.location)
    (hnode : target'.afterNode = target.afterNode) {value : String} {files files' : List String}
    (hfiles : h.FilesAlike value files files') :
    Check.Agree (move m) tree tree' (List.Forall₂ (Check.Same (move m) tree tree'))
      (entry.fileChecks ctx value target files) (entry'.fileChecks ctx' value target' files') := by
  have hglobbed : ∀ {p p'}, (Pattern.hasWildcard value = true → h.Within p p') →
      EntryTree.globbed ctx' value p' = EntryTree.globbed ctx value p := by
    intro p p' hwithin
    rw [EntryTree.globbed, EntryTree.globbed]
    split
    next hwild => rw [h.relative (hwithin hwild)]
    next => rfl
  refine Check.agree_of_run (EntryTree.run_fileChecks tree ctx entry value target files)
    (EntryTree.run_fileChecks tree' ctx' entry' value target' files') ?_ ?_
  · refine (flatMap_eq_map_of_forall₂ (hfiles.imp fun p p' hp => ?_)).symm
    rw [hglobbed hp.2, htarget, Context.jsxFindings, Context.jsxFindings, h.jsxExtension? hp.1]
    cases Context.jsxExtension? p' <;> rfl
  · induction hfiles with
    | nil => exact .nil
    | @cons p p' rest rest' hp _ ih =>
      have hcheck := h.agree_fileCheck? hs htarget hnode hp.1 (hglobbed hp.2)
      rw [List.filterMap_cons, List.filterMap_cons]
      generalize entry.fileCheck? ctx value target p = check,
        entry'.fileCheck? ctx' value target' p' = check' at hcheck
      cases hcheck with
      | none => exact ih
      | some hsame => exact .cons hsame ih

/-! ### The check of a leaf -/

/-- What is done with the files of a target. -/
theorem agree_finish {target target' : Crawl.Target}
    (hs : SameUse m entry entry' target.location) (htarget : target'.location = m target.location)
    (hnode : target'.afterNode = target.afterNode) {value : String} {files files' : List String}
    (hfiles : h.FilesAlike value files files') :
    Check.Agree (move m) tree tree'
      (fun batch batch' => List.Forall₂ (Check.Same (move m) tree tree') batch.checks batch'.checks)
      (entry.finish ctx target value files) (entry'.finish ctx' target' value files') := by
  have hempty : files'.isEmpty = files.isEmpty := by cases hfiles <;> rfl
  rw [EntryTree.finish, EntryTree.finish, hempty, htarget, hs.field]
  split
  · exact (Check.same_add rfl).bind_same fun _ => .done .nil
  · refine (EntryTree.same_reportConflict hs value).bind_same fun _ => ?_
    exact (h.agree_fileChecks hs htarget hnode hfiles).bind fun checks checks' hchecks =>
      .done hchecks

/-- What follows once it is settled which value a target goes by. -/
theorem agree_afterStar {target target' : Crawl.Target}
    (hs : SameUse m entry entry' target.location) (htarget : target'.location = m target.location)
    (hnode : target'.afterNode = target.afterNode) {value : String}
    (hfiles : h.FilesAlike value (entry.files tree ctx value target.location)
      (entry'.files tree' ctx' value target'.location)) :
    Check.Agree (move m) tree tree'
      (fun batch batch' => List.Forall₂ (Check.Same (move m) tree tree') batch.checks batch'.checks)
      (entry.afterStar ctx target value) (entry'.afterStar ctx' target' value) := by
  have hstart : Check.Same (move m) tree tree' (entry.reportStart value target.location)
      (entry'.reportStart value target'.location) := by
    rw [htarget]
    exact EntryTree.same_reportStart hs value
  refine hstart.bind_same fun _ => ?_
  have hrun := EntryTree.run_targetFiles h.listsDirs ctx entry value target.location
  have hrun' := EntryTree.run_targetFiles h.listsDirs' ctx' entry' value target'.location
  refine (Check.agree_of_run hrun hrun' rfl hfiles).bind fun files files' hfiles => ?_
  exact h.agree_finish hs htarget hnode hfiles

omit h in
/-- Where a folder mapping is replaced says the same in both manifests. -/
structure SameStar (m : Location → Location) (manifest manifest' : Manifest) (location : Location) :
    Prop where
  move_starred : m (EntryTree.starredLocation location) = EntryTree.starredLocation (m location)
  follow : (Json.obj manifest).follow (EntryTree.starredLocation location)
    = (Json.obj manifest').follow (EntryTree.starredLocation (m location))

omit h in
theorem agree_starFolder {target target' : Crawl.Target}
    (hs : SameUse m entry entry' target.location) (htarget : target'.location = m target.location)
    (hvalue : target'.value = target.value)
    (hstar : SameStar m ctx.manifest ctx'.manifest target.location) :
    Check.Agree (move m) tree tree'
      (fun value value' => value' = value ∧ value = EntryTree.starred target.value)
      (entry.starFolder ctx target) (entry'.starFolder ctx' target') := by
  rw [EntryTree.starFolder, EntryTree.starFolder, EntryTree.starred, hvalue, htarget, ← hstar.follow]
  split
  · cases (Json.obj ctx.manifest).follow (EntryTree.starredLocation target.location) with
    | error e => exact .fail e e
    | ok starred =>
      refine (Check.same_add ?_).bind_same fun _ => .done ⟨rfl, rfl⟩
      rw [EntryTree.folderMapping, EntryTree.folderMapping, hs.field, hvalue, htarget,
        ← hstar.move_starred, ← Arg.move_strs m]
      rfl
  · exact .done ⟨rfl, rfl⟩

theorem aims_starred {value : String} (hv : h.Aims value) : h.Aims (EntryTree.starred value) := by
  rw [EntryTree.starred]
  split
  next hslash => exact h.aims_star hv hslash
  next => exact hv

/-- The check of a leaf, with the checks that it leaves. -/
theorem agree_checkTarget {target target' : Crawl.Target}
    (hs : SamePlace m entry entry' target.location) (htarget : target'.location = m target.location)
    (hnode : target'.afterNode = target.afterNode) (hvalue : target'.value = target.value)
    (hstar : SameStar m ctx.manifest ctx'.manifest target.location)
    (hv : (entry.field = .imports → Text.hasStart target.value "." = true) → h.Aims target.value) :
    Check.Agree (move m) tree tree'
      (fun batch batch' => List.Forall₂ (Check.Same (move m) tree tree') batch.checks batch'.checks)
      (entry.checkTarget ctx target) (entry'.checkTarget ctx' target') := by
  rw [EntryTree.checkTarget_eq, EntryTree.checkTarget_eq, hs.field, hvalue]
  split
  next => exact .done .nil
  next hcrawled =>
    have haims : h.Aims target.value := hv fun himports => by simpa [himports] using hcrawled
    refine (agree_starFolder hs.toSameUse htarget hvalue hstar).bind ?_
    rintro value _ ⟨rfl, rfl⟩
    refine h.agree_afterStar hs.toSameUse htarget hnode ?_
    rw [htarget]
    exact h.filesAlike hs (h.aims_starred haims)

theorem agree_task {target target' : Crawl.Target}
    (hs : SamePlace m entry entry' target.location) (htarget : target'.location = m target.location)
    (hnode : target'.afterNode = target.afterNode) (hvalue : target'.value = target.value)
    (hstar : SameStar m ctx.manifest ctx'.manifest target.location)
    (hv : (entry.field = .imports → Text.hasStart target.value "." = true) → h.Aims target.value) :
    (entry.task ctx target).Agree (move m) tree tree' (entry'.task ctx' target') :=
  Task.agree_of_checks (h.agree_checkTarget hs htarget hnode hvalue hstar hv)

/-! ### The scan of all files -/

theorem same_scannedFile {p p' : String} (hp : h.Within p p')
    (hname : m PackageChecks.wholePackage = PackageChecks.wholePackage)
    (hcode : Source.isLintableName p = true) (shown : String) :
    Check.Same (move m) tree tree' (AllFiles.checkFile p shown) (AllFiles.checkFile p' shown) := by
  have hread := h.readAlike (h.alike hp)
  rw [hcode] at hread
  rw [AllFiles.checkFile, AllFiles.checkFile, Check.bind_eq, Check.bind_eq]
  refine (h.agree_readQuietly hread).bind fun text text' htext => ?_
  obtain rfl := htext.eq_of_judged rfl
  cases text with
  | none => exact .done rfl
  | some content =>
    have hformat := h.same_check (m := m) hp content PackageChecks.wholePackage
      { bundlerEsm := true, rightSibling := true } (some shown)
    rw [hname] at hformat
    simp only
    split
    · exact hformat.bind_same fun _ => .done rfl
    · exact .done rfl

/-- The checks of all files but those that are left out. -/
theorem agree_scannedFiles (hname : m PackageChecks.wholePackage = PackageChecks.wholePackage)
    {checked checked' : List String}
    (hchecked : ∀ {p p'}, h.Within p p' → (p ∈ checked ↔ p' ∈ checked'))
    {files files' : List String} (hfiles : List.Forall₂ h.Within files files') :
    Check.Agree (move m) tree tree' (List.Forall₂ (Check.Same (move m) tree tree'))
      (AllFiles.fileChecks ctx checked files) (AllFiles.fileChecks ctx' checked' files') := by
  induction hfiles with
  | nil => exact .done .nil
  | @cons p p' rest rest' hp _ ih =>
    have hleft : checked'.contains p' = checked.contains p := by
      rw [Bool.eq_iff_iff, List.contains_iff_mem, List.contains_iff_mem]
      exact (hchecked hp).symm
    have hjsx (globbed : Option String) :
        Check.Same (move m) tree tree' (Context.rejectsJsx p PackageChecks.wholePackage globbed)
          (Context.rejectsJsx p' PackageChecks.wholePackage globbed) := by
      have hmoved : Check.Same (move m) tree tree' _ _ :=
        same_rejectsJsx (h.jsxExtension? (h.alike hp)) PackageChecks.wholePackage globbed
      rwa [hname] at hmoved
    simp only [AllFiles.fileChecks, Check.bind_eq, hleft, ← h.relative hp,
      ← h.isLintableName hp]
    split
    · exact ih
    · refine (hjsx _).bind_same fun rejected => ?_
      split
      · exact ih
      · refine ih.bind fun others others' hothers => ?_
        split
        next hcode => exact .done (.cons (h.same_scannedFile hp hname hcode _) hothers)
        next => exact .done hothers

/-- The scan of all files but those that are left out. -/
theorem agree_scan (hname : m PackageChecks.wholePackage = PackageChecks.wholePackage)
    {checked checked' : List String}
    (hchecked : ∀ {p p'}, h.Within p p' → (p ∈ checked ↔ p' ∈ checked')) :
    (AllFiles.plan ctx checked).Agree (move m) tree tree' (AllFiles.plan ctx' checked') := by
  have hall : ∀ c : Context, (AllFiles.search c).pattern = EntryTree.targetPath c "./*" := fun c =>
    rfl
  have hsearch : (AllFiles.search ctx).Alike ctx ctx' "./*" (AllFiles.search ctx') :=
    ⟨hall ctx, hall ctx', rfl, rfl, fun _ => rfl, rfl, Or.inr rfl⟩
  refine Plan.agree_task (Task.agree_of_checks ?_)
  change Check.Agree _ _ _ _ (AllFiles.scan ctx checked) (AllFiles.scan ctx' checked')
  rw [AllFiles.scan, AllFiles.scan, Check.bind_eq, Check.bind_eq]
  have hexpand : Check.Agree (move m) tree tree' (List.Forall₂ h.Within)
      (Subpath.expand ctx.depth (AllFiles.search ctx))
      (Subpath.expand ctx'.depth (AllFiles.search ctx')) :=
    Check.agree_of_run (Subpath.run_expand h.listsDirs ctx.depth _)
      (Subpath.run_expand h.listsDirs' ctx'.depth _) rfl (h.expanded h.aims_all (by decide) hsearch)
  refine hexpand.bind fun files files' hfiles => ?_
  rw [Check.bind_eq, Check.bind_eq]
  exact (h.agree_scannedFiles hname hchecked hfiles).bind fun checks checks' hchecks =>
    .done hchecks

end Mirror

end PackageLint
