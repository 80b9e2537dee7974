import PackageLint.Proofs.CheckCodes
import PackageLint.Proofs.PublishedPlaces

/-!
# Which missing files a pass reports

A manifest names files in many fields, and each field has its own idea of what counts as the file: the
fields of legacy resolution try two more paths, leaves of condition trees try none and are let off
when their target is neither code nor a path, patterns are only ever expanded to files that are there.
This file says for a whole pass at which places it tells of a missing file.

## Counting

The places of all fields are disjoint, for a place tells the field it belongs to, and the places
within one field differ because the keys of every object do. So no place is reported twice.

## Main definitions

* `missingPlaces` — the places at which findings tell of a missing file
* `Manifest.NamesFile` — the manifest names a file in a field of legacy resolution
* `Manifest.Aims` — the manifest has a target in a condition tree

## Main results

* `EntryTree.missing_task` — when a leaf tells of a missing file
* `Pass.missing_files_exact` — when a pass does
-/

namespace PackageLint

/-! ### Places of missing files -/

/-- The places at which findings tell of a missing file. -/
def missingPlaces (ds : List Diagnostic) : List Location :=
  (ds.filter fun d => d.code = .fileDoesNotExist).map (·.location)

@[simp] theorem missingPlaces_nil : missingPlaces [] = [] := rfl

@[simp] theorem missingPlaces_append (a b : List Diagnostic) :
    missingPlaces (a ++ b) = missingPlaces a ++ missingPlaces b := by
  simp [missingPlaces]

theorem missingPlaces_eq_nil {ds : List Diagnostic} (h : ∀ d ∈ ds, d.code ≠ .fileDoesNotExist) :
    missingPlaces ds = [] := by
  simpa [missingPlaces] using h

theorem missingPlaces_flatMap {α : Type} (f : α → List Diagnostic) (items : List α) :
    missingPlaces (items.flatMap f) = items.flatMap fun a => missingPlaces (f a) := by
  induction items with
  | nil => rfl
  | cons a rest ih => rw [List.flatMap_cons, missingPlaces_append, ih, List.flatMap_cons]

/-- The places at which a task tells of a missing file. -/
def Task.missing (tree : FileTree) (task : Task) : List Location :=
  missingPlaces (task.findings tree)

theorem Task.Reports.missing_eq_nil {codes : List Code} {task : Task} (h : task.Reports codes)
    (hcodes : Code.fileDoesNotExist ∉ codes) (tree : FileTree) : task.missing tree = [] :=
  missingPlaces_eq_nil fun _ hd heq => hcodes (heq ▸ h.code_mem hd)

theorem flatMap_missing_eq_nil {tree : FileTree} {tasks : List Task} {codes : List Code}
    (h : ∀ task ∈ tasks, task.Reports codes) (hcodes : Code.fileDoesNotExist ∉ codes) :
    tasks.flatMap (Task.missing tree) = [] :=
  List.flatMap_eq_nil_iff.mpr fun task htask => (h task htask).missing_eq_nil hcodes tree

/-- What follows does not count when it never tells of a missing file. -/
theorem missing_bind {α β : Type} (tree : FileTree) (c : Check α) {f : α → Check β}
    (hf : ∀ a, (f a).Only fun d => d.code ≠ .fileDoesNotExist) :
    missingPlaces ((c.bind f).findings tree) = missingPlaces (c.findings tree) := by
  rw [Check.findings_bind, missingPlaces_append]
  cases c.result tree with
  | error e => simp
  | ok a => rw [missingPlaces_eq_nil fun d hd => (hf a).of_mem hd, List.append_nil]

theorem Check.Reports.not_missing {α : Type} {codes : List Code} {c : Check α}
    (h : c.Reports codes) (hcodes : Code.fileDoesNotExist ∉ codes) :
    c.Only fun d => d.code ≠ .fileDoesNotExist :=
  h.imp (fun _ hd heq => hcodes (heq ▸ hd)) fun _ => id

theorem missing_readEntry {tree : FileTree} (h : tree.TakesAnyPath) (ctx : Context) (path : String)
    (location : Location) (extensions : List String) :
    missingPlaces ((ctx.readEntry path location extensions).findings tree)
      = if (tree.firstText? (Context.candidates path extensions)).isNone then [location] else [] := by
  rw [Check.findings, Context.run_readEntry h]
  cases tree.firstText? (Context.candidates path extensions) with
  | none => rfl
  | some found =>
    simp only [Context.readFindings]
    split <;> rfl

/-! ### The legacy fields -/

/-- The place of a file that legacy resolution does not find. -/
def FileTree.missingEntry (tree : FileTree) (ctx : Context) (value : String) (location : Location) :
    List Location :=
  if (tree.firstText? (Context.candidates (ctx.within value) Context.legacyExtensions)).isNone then
    [location]
  else []

/-- The same for a published field, when it is a string. -/
def FileTree.missingField (tree : FileTree) (ctx : Context) : Json × Location → List Location
  | (.str value, location) => tree.missingEntry ctx value location
  | _ => []

namespace EntryChecks

variable {tree : FileTree} {ctx : Context}

theorem missing_readLegacy (h : tree.TakesAnyPath) (value : Json) (location : Location) :
    missingPlaces ((readLegacy ctx value location).findings tree)
      = tree.missingField ctx (value, location) := by
  cases value with
  | str path =>
    rw [readLegacy, Check.bind_eq, missing_bind, missing_readEntry h]
    · rfl
    · intro text
      cases text with
      | none => exact .done trivial
      | some content =>
        refine (Context.only_rejectsJsx _ _ _ fun d hcode _ => by simp [hcode]).bind fun _ _ => ?_
        split
        · exact .done trivial
        · split <;> exact .done trivial
  | _ => rfl

theorem missing_mainField (h : tree.TakesAnyPath) (value : Json) (location : Location)
    (hasExports : Bool) :
    (mainField ctx value location hasExports).tasks.flatMap (Task.missing tree)
      = tree.missingField ctx (value, location) := by
  simp only [mainField, Plan.task, List.flatMap_cons, List.flatMap_nil, List.append_nil,
    Task.missing, Task.findings_single, checkMain, Check.bind_eq]
  rw [missing_bind, missing_readLegacy h]
  intro found
  cases found with
  | none => exact .done trivial
  | some found =>
    obtain ⟨path, content⟩ := found
    refine ((FileFormat.reports_check _ _ _ _ _).not_missing (by decide)).bind fun actual _ => ?_
    split
    · exact Check.only_add (by simp)
    · exact .done trivial

theorem missing_moduleField (h : tree.TakesAnyPath) (value : Json) (location : Location)
    (hasExports : Bool) :
    (moduleField ctx value location hasExports).tasks.flatMap (Task.missing tree)
      = tree.missingField ctx (value, location) := by
  simp only [moduleField, Plan.task, List.flatMap_cons, List.flatMap_nil, List.append_nil,
    Task.missing, Task.findings_single, checkModule, Check.bind_eq]
  rw [missing_bind, missing_readLegacy h]
  intro found
  have hexports : (if hasExports = true then (pure () : Check Unit)
      else Check.add { code := .hasModuleButNoExports, severity := .suggestion, location }).Only
        fun d => d.code ≠ .fileDoesNotExist := by
    split
    · exact .done trivial
    · exact Check.only_add (by simp)
  cases found with
  | none => exact .done trivial
  | some found =>
    obtain ⟨path, content⟩ := found
    simp only
    split
    · exact (Check.only_add (by simp)).bind fun _ _ => hexports
    · exact hexports

theorem missing_knownField (h : tree.TakesAnyPath) (field : String) :
    (knownField ctx field).tasks.flatMap (Task.missing tree)
      = tree.missingField ctx (ctx.manifest.published field) := by
  rw [knownField]
  split
  next heq => rw [heq]; rfl
  next value location heq =>
    rw [heq]
    simp only [Plan.task, List.flatMap_cons, List.flatMap_nil, List.append_nil, Task.missing,
      Task.findings_single, checkKnownField, Check.bind_eq]
    rw [missing_bind, missing_readEntry h]
    · rfl
    · intro text
      cases text with
      | none => exact .done trivial
      | some content =>
        simp only
        split
        · exact Check.only_add (by simp)
        · exact .done trivial
  next other location hnull hstr heq =>
    rw [heq]
    cases other with
    | str value => exact absurd rfl (hstr value)
    | _ => rfl

theorem missing_browserTask (h : tree.TakesAnyPath) (entry : String × Location) :
    (browserTask ctx entry).missing tree = tree.missingEntry ctx entry.1 entry.2 := by
  simp only [Task.missing, browserTask, Task.findings_single, Check.bind_eq]
  rw [missing_bind tree _ fun _ => Check.only_pure (), missing_readEntry h]
  rfl

theorem missing_command (h : tree.TakesAnyPath) (value : String) (location : Location) :
    (command ctx value location).tasks.flatMap (Task.missing tree)
      = tree.missingEntry ctx value location := by
  simp only [command, Plan.task, List.flatMap_cons, List.flatMap_nil, List.append_nil,
    Task.missing, Task.findings_single, checkCommand, Check.bind_eq]
  rw [missing_bind, missing_readEntry h]
  · rfl
  · intro text
    have hformat : ∀ content, Check.Only (fun d => d.code ≠ .fileDoesNotExist)
        ((FileFormat.check (ctx.within value) content location).bind fun _ => .done ()) :=
      fun content => ((FileFormat.reports_check _ _ _ _ _).not_missing (by decide)).bind
        fun _ _ => .done trivial
    cases text with
    | none => exact .done trivial
    | some content =>
      simp only
      split
      · split
        · exact hformat content
        · exact (Check.only_add (by simp)).bind fun _ _ => hformat content
      · exact .done trivial

/-- The places of commands whose file is missing. -/
def missingCommands (tree : FileTree) (ctx : Context) : Json × Location → List Location
  | (.str value, location) => tree.missingEntry ctx value location
  | (.obj fields, location) =>
    fields.flatMap fun entry => tree.missingField ctx (entry.2, location ++ [entry.1])
  | _ => []

theorem missing_binField (h : tree.TakesAnyPath) (value : Json) (location : Location) :
    (binField ctx value location).tasks.flatMap (Task.missing tree)
      = missingCommands tree ctx (value, location) := by
  cases value with
  | str path => exact missing_command h path location
  | obj fields =>
    simp only [binField, Plan.tasks_concat, missingCommands, List.flatMap_map, List.flatMap_assoc]
    refine congrArg (fields.flatMap ·) (funext fun entry => ?_)
    obtain ⟨name, value⟩ := entry
    cases value with
    | str path => exact missing_command h path _
    | _ => rfl
  | _ => rfl

end EntryChecks

/-! ### Leaves of condition trees -/

namespace EntryTree

variable {tree : FileTree} {ctx : Context} {entry : EntryTree} {target : Crawl.Target}
  {value : String}

/-- Whether a leaf with a value tells of a missing file: the value is no pattern and no folder, and
its target cannot be read, though it is code, or a path that is no typed source. -/
structure Misses (tree : FileTree) (ctx : Context) (field : EntryField) (value : String) : Prop where
  crawled : field = .imports → Text.hasStart value "." = true
  plain : Pattern.hasWildcard value = false
  no_folder : Text.hasEnd value "/" = false
  unreadable : ¬ tree.Readable (targetPath ctx value)
  no_jsx : Context.jsxExtension? (targetPath ctx value) = none
  is_file : Source.isLintableName (targetPath ctx value) = true
    ∨ Path.looksAbsolute (targetPath ctx value) = true
      ∧ Source.isTypedSource (targetPath ctx value) = false

theorem missing_checkFile (h : tree.TakesAnyPath) (path value : String) (location : Location)
    (afterNode : Bool) (globbed : Option String) :
    missingPlaces ((entry.checkFile ctx path value location afterNode globbed).findings tree)
      = if (tree.text? path).isNone then [location] else [] := by
  rw [checkFile, Check.bind_eq, missing_bind, missing_readEntry h, Context.candidates,
    List.map_nil, FileTree.firstText?_singleton, Option.isNone_map]
  intro text
  cases text with
  | none => exact .done trivial
  | some content =>
    simp only [checkContent]
    split
    · exact .done trivial
    · split
      · split
        · exact Check.only_add (by simp)
        · exact .done trivial
      · split
        · exact .done trivial
        · exact ((FileFormat.reports_check _ _ _ _ _).not_missing (by decide)).bind
            fun _ _ => .done trivial

theorem missing_checkPresence (h : tree.TakesAnyPath) (path : String) (location : Location) :
    missingPlaces ((checkPresence ctx path location).findings tree)
      = if (tree.text? path).isNone then [location] else [] := by
  rw [checkPresence, Check.bind_eq, missing_bind tree _ fun _ => Check.only_pure (),
    missing_readEntry h, Context.candidates, List.map_nil, FileTree.firstText?_singleton,
    Option.isNone_map]

theorem missing_fileCheck (h : tree.TakesAnyPath) {path : String} {check : Check Unit}
    (hcheck : entry.fileCheck? ctx value target path = some check) :
    missingPlaces (check.findings tree)
      = if (tree.text? path).isNone then [target.location] else [] := by
  rw [fileCheck?] at hcheck
  split at hcheck
  · simp at hcheck
  · split at hcheck
    · obtain rfl := Option.some.inj hcheck
      exact missing_checkFile h _ _ _ _ _
    · split at hcheck
      · obtain rfl := Option.some.inj hcheck
        exact missing_checkPresence h _ _
      · simp at hcheck

theorem fileCheck?_isSome (path : String) :
    (entry.fileCheck? ctx value target path).isSome = true
      ↔ Context.jsxExtension? path = none
        ∧ (Source.isLintableName path = true
          ∨ Path.looksAbsolute path = true ∧ Source.isTypedSource path = false) := by
  rw [fileCheck?]
  cases hjsx : Context.jsxExtension? path with
  | some extension => simp
  | none =>
    cases hlint : Source.isLintableName path with
    | true => simp
    | false => cases Path.looksAbsolute path <;> cases Source.isTypedSource path <;> simp

theorem not_mem_targetCodes (field : EntryField) : Code.fileDoesNotExist ∉ targetCodes field := by
  cases field <;> decide

/-- Only the checks that a leaf leaves tell of a missing file. -/
theorem missing_task_eq (tree : FileTree) (ctx : Context) (entry : EntryTree)
    (target : Crawl.Target) :
    (entry.task ctx target).missing tree = missingPlaces
      (match (checkTarget ctx entry target).result tree with
        | .ok batch => batch.checks.flatMap fun check => check.findings tree
        | .error _ => []) := by
  have hcheck : missingPlaces ((checkTarget ctx entry target).findings tree) = [] :=
    missingPlaces_eq_nil fun d hd heq =>
      not_mem_targetCodes entry.field (heq ▸ (reports_checkTarget ctx entry target).of_mem hd)
  rw [Task.missing, Task.findings, missingPlaces_append, task, hcheck]
  exact List.nil_append _

/-- The files that a pattern or a folder leads to are there. -/
theorem missing_task_searched (h : tree.TakesAnyPath) (hl : tree.ListsDirs)
    (hfound : ∀ search, ∀ path ∈ tree.expanded ctx.depth search, tree.Readable path)
    (hwild : Pattern.hasWildcard (starred target.value) = true) :
    (entry.task ctx target).missing tree = [] := by
  rw [missing_task_eq]
  cases hresult : (checkTarget ctx entry target).result tree with
  | error e => rfl
  | ok batch =>
    simp only [missingPlaces_flatMap]
    refine List.flatMap_eq_nil_iff.mpr fun check hmem => ?_
    obtain ⟨path, hpath, hfile⟩ := checks_of_result hl hresult hmem
    rw [files, if_pos hwild] at hpath
    obtain ⟨text, htext⟩ := hfound _ path hpath
    rw [missing_fileCheck h hfile, FileTree.text?_eq_some.mpr htext]
    rfl

/-- A target that names one file tells of it where the file is looked for and cannot be read. -/
theorem missing_task_plain (h : tree.TakesAnyPath)
    (hcrawled : (entry.field = .imports && !Text.hasStart target.value ".") = false)
    (hstar : Pattern.hasWildcard target.value = false)
    (hslash : Text.hasEnd target.value "/" = false) :
    (entry.task ctx target).missing tree = []
        ∧ ¬ Misses tree ctx entry.field target.value
      ∨ (entry.task ctx target).missing tree = [target.location]
        ∧ Misses tree ctx entry.field target.value := by
  rw [missing_task_eq, Check.result, run_checkTarget_plain tree ctx entry target hcrawled hslash hstar]
  have hsome : (entry.fileCheck? ctx target.value target (targetPath ctx target.value)).isSome = true
      ↔ Context.jsxExtension? (targetPath ctx target.value) = none
        ∧ (Source.isLintableName (targetPath ctx target.value) = true
          ∨ Path.looksAbsolute (targetPath ctx target.value) = true
            ∧ Source.isTypedSource (targetPath ctx target.value) = false) := fileCheck?_isSome _
  cases hfile : entry.fileCheck? ctx target.value target (targetPath ctx target.value) with
  | none =>
    left
    refine ⟨rfl, fun hm => ?_⟩
    rw [hfile] at hsome
    simpa using hsome.mpr ⟨hm.no_jsx, hm.is_file⟩
  | some check =>
    rw [hfile] at hsome
    obtain ⟨hjsx, hisFile⟩ := hsome.mp rfl
    have hmissing := missing_fileCheck h hfile
    simp only [Option.toList, List.flatMap_cons, List.flatMap_nil, List.append_nil, hmissing]
    cases htext : tree.text? (targetPath ctx target.value) with
    | none =>
      right
      refine ⟨rfl, ?_, hstar, hslash, FileTree.text?_eq_none.mp htext, hjsx, hisFile⟩
      intro hfield
      simpa [hfield] using hcrawled
    | some text =>
      left
      exact ⟨rfl, fun hm => hm.unreadable ⟨text, FileTree.text?_eq_some.mp htext⟩⟩

/-- A leaf tells of a missing file once, at its place. -/
theorem missing_task (h : tree.TakesAnyPath) (hl : tree.ListsDirs)
    (hfound : ∀ search, ∀ path ∈ tree.expanded ctx.depth search, tree.Readable path)
    (entry : EntryTree) (target : Crawl.Target) :
    (entry.task ctx target).missing tree = []
        ∧ ¬ Misses tree ctx entry.field target.value
      ∨ (entry.task ctx target).missing tree = [target.location]
        ∧ Misses tree ctx entry.field target.value := by
  by_cases hcrawled : (entry.field = .imports && !Text.hasStart target.value ".") = true
  · left
    refine ⟨?_, fun hm => ?_⟩
    · rw [missing_task_eq, Check.result, checkTarget_eq, if_pos hcrawled]
      rfl
    · obtain ⟨hfield, hstart⟩ := Bool.and_eq_true_iff.mp hcrawled
      simp [hm.crawled (by simpa using hfield)] at hstart
  have hcrawled : (entry.field = .imports && !Text.hasStart target.value ".") = false := by
    simpa using hcrawled
  by_cases hplain : Pattern.hasWildcard target.value = false ∧ Text.hasEnd target.value "/" = false
  · exact missing_task_plain h hcrawled hplain.1 hplain.2
  · have hwild : Pattern.hasWildcard (starred target.value) = true := by
      rw [starred]
      split
      next hslash => simp [Pattern.hasWildcard]
      next hslash =>
        by_contra hstar
        exact hplain ⟨by simpa using hstar, by simpa using hslash⟩
    exact Or.inl ⟨missing_task_searched h hl hfound hwild, fun hm => hplain ⟨hm.plain, hm.no_folder⟩⟩

end EntryTree

/-! ### The parts of a plan -/

/-- Parts that report at places of different fields, each place once, report no place twice. -/
theorem nodup_of_fields {parts : List (String × List Location)}
    (hfields : (parts.map Prod.fst).Nodup)
    (h : ∀ part ∈ parts, part.2.Nodup ∧ ∀ p ∈ part.2, Location.field p = part.1) :
    (parts.flatMap Prod.snd).Nodup := by
  induction parts with
  | nil => exact List.nodup_nil
  | cons part rest ih =>
    rw [List.map_cons, List.nodup_cons] at hfields
    obtain ⟨hpart, hrest⟩ := List.forall_mem_cons.mp h
    rw [List.flatMap_cons]
    refine List.Nodup.append hpart.1 (ih hfields.2 hrest) fun p hp hp' => ?_
    obtain ⟨other, hother, hp'⟩ := List.mem_flatMap.mp hp'
    have hsame : part.1 = other.1 := by rw [← hpart.2 p hp, (hrest other hother).2 p hp']
    exact hfields.1 (List.mem_map.mpr ⟨other, hother, hsame.symm⟩)

/-- Items that each report at most their own place report no place twice, when these differ. -/
theorem nodup_flatMap_of_places {ι : Type} {items : List ι} {place : ι → Location}
    {report : ι → List Location} (hplaces : (items.map place).Nodup)
    (h : ∀ item ∈ items, report item = [] ∨ report item = [place item]) :
    (items.flatMap report).Nodup := by
  have hsub : (items.flatMap report).Sublist (items.map place) := by
    induction items with
    | nil => exact List.Sublist.refl _
    | cons item rest ih =>
      rw [List.map_cons, List.nodup_cons] at hplaces
      obtain ⟨hitem, hrest⟩ := List.forall_mem_cons.mp h
      rw [List.flatMap_cons, List.map_cons]
      rcases hitem with hitem | hitem <;> rw [hitem]
      · exact (ih hplaces.2 hrest).cons _
      · exact (ih hplaces.2 hrest).cons_cons _
  exact hplaces.sublist hsub

namespace FileTree

variable {tree : FileTree} {ctx : Context}

theorem missingEntry_eq (tree : FileTree) (ctx : Context) (value : String) (location : Location) :
    tree.missingEntry ctx value location = [] ∨ tree.missingEntry ctx value location = [location] := by
  rw [missingEntry]
  split
  · exact Or.inr rfl
  · exact Or.inl rfl

theorem mem_missingEntry {value : String} {location p : Location} :
    p ∈ tree.missingEntry ctx value location
      ↔ p = location ∧ ∀ path ∈ Context.candidates (ctx.within value) Context.legacyExtensions,
          ¬ tree.Readable path := by
  rw [missingEntry, ← firstText?_eq_none, ← Option.isNone_iff_eq_none]
  split <;> simp_all

theorem missingField_eq (tree : FileTree) (ctx : Context) (value : Json) (location : Location) :
    tree.missingField ctx (value, location) = []
      ∨ tree.missingField ctx (value, location) = [location] := by
  cases value with
  | str value => exact tree.missingEntry_eq ctx value location
  | _ => exact Or.inl rfl

theorem mem_missingField {field : Json × Location} {p : Location} :
    p ∈ tree.missingField ctx field
      ↔ ∃ value, field = (.str value, p)
          ∧ ∀ path ∈ Context.candidates (ctx.within value) Context.legacyExtensions,
            ¬ tree.Readable path := by
  obtain ⟨value, location⟩ := field
  cases value with
  | str value =>
    rw [missingField, mem_missingEntry]
    simp only [Prod.mk.injEq, Json.str.injEq]
    constructor
    · rintro ⟨rfl, h⟩
      exact ⟨value, ⟨rfl, rfl⟩, h⟩
    · rintro ⟨value, ⟨rfl, rfl⟩, h⟩
      exact ⟨rfl, h⟩
  | _ => simp [missingField]

end FileTree

/-! ### What a manifest names -/

namespace Manifest

/-- The manifest names a file in a field of legacy resolution, in `browser` or as a command. -/
inductive NamesFile (manifest : Manifest) : Location → String → Prop
  | field {name : String} {p : Location} {v : String}
      (hname : name ∈ ["main", "module"] ++ EntryChecks.fileFields)
      (hgiven : name ∈ EntryChecks.declarationFields →
        (manifest.published "typesVersions").1.truthy = false)
      (h : manifest.published name = (.str v, p)) : NamesFile manifest p v
  | browser {q : Location} {v : String} (hset : (manifest.published "browser").1.isSet = true)
      (h : (manifest.published "browser").1.through? q = some (.str v)) :
      NamesFile manifest ((manifest.published "browser").2 ++ q) v
  | command {p : Location} {v : String} (hset : (manifest.published "bin").1.isSet = true)
      (h : manifest.published "bin" = (.str v, p)) : NamesFile manifest p v
  | commandOf {fields : Json.Fields} {name v : String}
      (hobj : (manifest.published "bin").1 = .obj fields)
      (h : Assoc.get? name fields = some (.str v)) :
      NamesFile manifest ((manifest.published "bin").2 ++ [name]) v

/-- The manifest has a target in the tree of `exports` or of `imports`, where it is crawled. -/
inductive Aims (manifest : Manifest) : EntryField → Location → String → Prop
  | exports {q : Location} {v : String} (hset : (manifest.published "exports").1.isSet = true)
      (h : (ConditionTree.ofJson (manifest.published "exports").1).at? q = some (.leaf v)) :
      Aims manifest .exports ((manifest.published "exports").2 ++ q) v
  | imports {fields : Json.Fields} {q : Location} {v : String}
      (hobj : (manifest.published "imports").1 = .obj fields)
      (h : (ConditionTree.ofJson (manifest.published "imports").1).at? q = some (.leaf v)) :
      Aims manifest .imports ((manifest.published "imports").2 ++ q) v

theorem at?_published_append {manifest : Manifest} {field v : String} {q : Location}
    (h : (manifest.published field).1.at? q = some (.str v)) :
    (Json.obj manifest).at? ((manifest.published field).2 ++ q) = some (.str v) := by
  have hnull : (manifest.published field).1 ≠ .null := by
    intro hnull
    rw [hnull] at h
    cases q <;> simp [Json.at?] at h
  rw [Json.at?_append, at?_published hnull]
  exact h

/-- What is named is a string of the manifest. -/
theorem NamesFile.at? {manifest : Manifest} {p : Location} {v : String}
    (h : manifest.NamesFile p v) : (Json.obj manifest).at? p = some (.str v) := by
  have hstr : ∀ {field p v}, manifest.published field = (.str v, p) →
      (Json.obj manifest).at? p = some (.str v) := by
    intro field p v h
    have hat : (manifest.published field).1.at? [] = some (.str v) := by simp [h]
    simpa [h] using at?_published_append hat
  cases h with
  | field _ _ h => exact hstr h
  | browser _ h => exact at?_published_append (Json.at?_of_through? h)
  | command _ h => exact hstr h
  | commandOf hobj h => exact at?_published_append (by simp [hobj, Json.at?, h])

/-- A target is a string of the manifest. -/
theorem Aims.at? {manifest : Manifest} {field : EntryField} {p : Location} {v : String}
    (h : manifest.Aims field p v) : (Json.obj manifest).at? p = some (.str v) := by
  cases h with
  | exports _ h => exact at?_published_append (ConditionTree.at?_eq_leaf.mp h)
  | imports _ h => exact at?_published_append (ConditionTree.at?_eq_leaf.mp h)

end Manifest

/-! ### Whole passes -/

namespace Pass

variable {tree : FileTree} {ctx : Context}

/-- The leaves of a tree that tell of a missing file. -/
def missingTargets (tree : FileTree) (ctx : Context) (entry : EntryTree) : List Location :=
  (entry.plan ctx).tasks.flatMap (Task.missing tree)

/-- The fields that name files and are looked at. -/
def lookedAt (ctx : Context) : List String :=
  if EntryChecks.isGiven ctx "typesVersions" then
    EntryChecks.fileFields.filter fun field => !EntryChecks.declarationFields.contains field
  else EntryChecks.fileFields

/-- The places of missing files that fields name by themselves, by field. -/
def fieldParts (tree : FileTree) (ctx : Context) : List (String × List Location) :=
  (["main", "module"] ++ lookedAt ctx).map fun field =>
    (field, tree.missingField ctx (ctx.manifest.published field))

/-- The places of missing files in the fields that hold objects or trees, by field. -/
def nestedParts (tree : FileTree) (ctx : Context) (fields : Fields) :
    List (String × List Location) :=
  [("browser",
      if fields.browser.1.isSet then
        (EntryChecks.nestedStrings fields.browser.2 fields.browser.1).flatMap
          fun entry => tree.missingEntry ctx entry.1 entry.2
      else []),
   ("exports", if fields.hasExports then missingTargets tree ctx (exportsEntry fields) else []),
   ("bin", if fields.bin.1.isSet then EntryChecks.missingCommands tree ctx fields.bin else []),
   ("imports",
      match fields.imports.1 with
      | .obj _ => missingTargets tree ctx (importsEntry fields)
      | _ => [])]

/-- The places of missing files by the field that they belong to. -/
def missingParts (tree : FileTree) (ctx : Context) : List (String × List Location) :=
  fieldParts tree ctx ++ nestedParts tree ctx (Fields.of ctx.manifest)

theorem missing_legacyPlan (h : tree.TakesAnyPath) (ctx : Context) (fields : Fields) :
    (legacyPlan ctx fields).tasks.flatMap (Task.missing tree)
      = tree.missingField ctx fields.main ++ tree.missingField ctx fields.module := by
  have himplicit : (if fields.areImplicit then PackageChecks.implicitIndex ctx
      else {}).tasks.flatMap (Task.missing tree) = [] := by
    split
    · have hindex : ∀ task ∈ (PackageChecks.implicitIndex ctx).tasks,
          task.Reports [.implicitIndexJsInvalidFormat] := by
        intro task htask
        obtain rfl := List.mem_singleton.mp htask
        exact Task.only_single PackageChecks.reports_checkIndex _
      exact flatMap_missing_eq_nil hindex (by decide)
    · rfl
  have hnull : ∀ field : Json × Location, field.1.isNull = true → tree.missingField ctx field = [] := by
    rintro ⟨value, location⟩ hnull
    cases value <;> simp [Json.isNull] at hnull
    rfl
  rw [tasks_legacyPlan, List.flatMap_append, List.flatMap_append, himplicit, List.nil_append]
  congr 1
  · split
    next hmain => rw [hnull _ hmain]; rfl
    next => exact EntryChecks.missing_mainField h _ _ _
  · split
    next hmodule => rw [hnull _ hmodule]; rfl
    next => exact EntryChecks.missing_moduleField h _ _ _

theorem missing_knownFields (h : tree.TakesAnyPath) (ctx : Context) :
    (EntryChecks.knownFields ctx).tasks.flatMap (Task.missing tree)
      = (lookedAt ctx).flatMap fun field =>
          tree.missingField ctx (ctx.manifest.published field) := by
  simp only [EntryChecks.knownFields, Plan.tasks_concat, List.flatMap_map, List.flatMap_assoc]
  exact congrArg ((lookedAt ctx).flatMap ·) (funext fun field => EntryChecks.missing_knownField h field)

theorem missing_browserField (h : tree.TakesAnyPath) (ctx : Context) (value : Json)
    (location : Location) (hasExports : Bool) :
    (EntryChecks.browserField ctx value location hasExports).tasks.flatMap (Task.missing tree)
      = (EntryChecks.nestedStrings location value).flatMap fun entry =>
          tree.missingEntry ctx entry.1 entry.2 := by
  simp only [EntryChecks.browserField, List.flatMap_map]
  exact congrArg ((EntryChecks.nestedStrings location value).flatMap ·)
    (funext fun entry => EntryChecks.missing_browserTask h entry)

theorem missing_exportsPlan (ctx : Context) (fields : Fields) :
    (exportsPlan ctx fields).tasks.flatMap (Task.missing tree)
      = if fields.hasExports then missingTargets tree ctx (exportsEntry fields) else [] := by
  rw [exportsPlan]
  split
  · rw [Plan.tasks_append, List.flatMap_append, flatMap_missing_eq_nil
      (fun task htask => Declarations.reports_plan htask) (by decide), List.append_nil]
    rfl
  · exact flatMap_missing_eq_nil (fun task htask => AllFiles.reports_scan htask) (by decide)

theorem missing_importsPlan (ctx : Context) (fields : Fields) :
    (importsPlan ctx fields).tasks.flatMap (Task.missing tree)
      = match fields.imports.1 with
        | .obj _ => missingTargets tree ctx (importsEntry fields)
        | _ => [] := by
  rw [importsPlan]
  cases fields.imports.1 with
  | obj entries => rfl
  | _ => split <;> rfl

/-- The places at which a plan tells of missing files are those of its parts. -/
theorem missing_plan (h : tree.TakesAnyPath) (ctx : Context) :
    missingPlaces (runPlan tree (plan ctx)).findings
      = (missingParts tree ctx).flatMap Prod.snd := by
  have hfindings : missingPlaces (plan ctx).findings = [] :=
    missingPlaces_eq_nil fun d hd heq => absurd (code_of_mem_planFindings hd) (by rw [heq]; decide)
  have hfiles : (PackageChecks.filesField ctx).tasks.flatMap (Task.missing tree) = [] :=
    flatMap_missing_eq_nil (fun _ => PackageChecks.reports_filesField) (by decide)
  have hlicense : (PackageChecks.licenseField ctx).tasks.flatMap (Task.missing tree) = [] :=
    flatMap_missing_eq_nil (fun _ => PackageChecks.reports_licenseField) (by decide)
  have hset : ∀ (set : Bool) (plan : Plan),
      (if set then plan else {}).tasks.flatMap (Task.missing tree)
        = if set then plan.tasks.flatMap (Task.missing tree) else [] := by
    intro set plan
    cases set <;> rfl
  rw [findings_runPlan, missingPlaces_append, hfindings, List.nil_append, missingPlaces_flatMap]
  change (plan ctx).tasks.flatMap (Task.missing tree) = _
  simp only [tasks_plan, List.flatMap_append, hfiles, hlicense, hset, missing_legacyPlan h,
    missing_knownFields h, missing_browserField h, missing_exportsPlan, missing_importsPlan,
    EntryChecks.missing_binField h, List.nil_append, missingParts, fieldParts, nestedParts,
    List.map_append, List.map_cons, List.map_nil, List.flatMap_cons, List.flatMap_nil,
    List.append_nil, List.flatMap_map, List.append_assoc]
  rfl

/-! ### What is reported in each part -/

/-- No path that legacy resolution tries for a value can be read. -/
def Unresolved (tree : FileTree) (ctx : Context) (value : String) : Prop :=
  ∀ path ∈ Context.candidates (ctx.within value) Context.legacyExtensions, ¬ tree.Readable path

theorem mem_lookedAt {name : String} :
    name ∈ lookedAt ctx
      ↔ name ∈ EntryChecks.fileFields
        ∧ (name ∈ EntryChecks.declarationFields →
          (ctx.manifest.published "typesVersions").1.truthy = false) := by
  rw [lookedAt, EntryChecks.isGiven]
  cases (ctx.manifest.published "typesVersions").1.truthy <;> simp

theorem mem_fieldParts {p : Location} :
    p ∈ (fieldParts tree ctx).flatMap Prod.snd
      ↔ ∃ name v, name ∈ ["main", "module"] ++ EntryChecks.fileFields
          ∧ (name ∈ EntryChecks.declarationFields →
              (ctx.manifest.published "typesVersions").1.truthy = false)
          ∧ ctx.manifest.published name = (.str v, p) ∧ Unresolved tree ctx v := by
  have hname : ∀ name, name ∈ ["main", "module"] ++ lookedAt ctx
      ↔ name ∈ ["main", "module"] ++ EntryChecks.fileFields
        ∧ (name ∈ EntryChecks.declarationFields →
          (ctx.manifest.published "typesVersions").1.truthy = false) := by
    intro name
    rw [List.mem_append, List.mem_append, mem_lookedAt]
    constructor
    · rintro (h | ⟨h, hgiven⟩)
      · refine ⟨Or.inl h, fun hdecl => absurd hdecl ?_⟩
        rcases List.mem_cons.mp h with rfl | h
        · decide
        · obtain rfl := List.mem_singleton.mp h
          decide
      · exact ⟨Or.inr h, hgiven⟩
    · rintro ⟨h, hgiven⟩
      exact h.imp id fun h => ⟨h, hgiven⟩
  simp only [fieldParts, List.flatMap_map, List.mem_flatMap, hname, FileTree.mem_missingField,
    Unresolved]
  constructor
  · rintro ⟨name, ⟨h, hgiven⟩, v, hv, hmissing⟩
    exact ⟨name, v, h, hgiven, hv, hmissing⟩
  · rintro ⟨name, v, h, hgiven, hv, hmissing⟩
    exact ⟨name, ⟨h, hgiven⟩, v, hv, hmissing⟩

theorem mem_nestedParts {fields : Fields} {p : Location} :
    p ∈ (nestedParts tree ctx fields).flatMap Prod.snd
      ↔ (fields.browser.1.isSet = true
          ∧ p ∈ (EntryChecks.nestedStrings fields.browser.2 fields.browser.1).flatMap
              fun entry => tree.missingEntry ctx entry.1 entry.2)
        ∨ (fields.hasExports = true ∧ p ∈ missingTargets tree ctx (exportsEntry fields))
        ∨ (fields.bin.1.isSet = true ∧ p ∈ EntryChecks.missingCommands tree ctx fields.bin)
        ∨ ∃ entries, fields.imports.1 = .obj entries
          ∧ p ∈ missingTargets tree ctx (importsEntry fields) := by
  simp only [nestedParts, List.flatMap_cons, List.flatMap_nil, List.append_nil, List.mem_append,
    List.mem_ite_nil_right]
  cases fields.imports.1 <;> simp

theorem mem_missingBrowser {value : Json} (hd : value.DistinctKeys) {location p : Location} :
    p ∈ (EntryChecks.nestedStrings location value).flatMap
        (fun entry => tree.missingEntry ctx entry.1 entry.2)
      ↔ ∃ q v, p = location ++ q ∧ value.through? q = some (.str v) ∧ Unresolved tree ctx v := by
  simp only [List.mem_flatMap, Prod.exists, EntryChecks.mem_nestedStrings hd,
    FileTree.mem_missingEntry, Unresolved]
  constructor
  · rintro ⟨v, loc, ⟨q, rfl, hq⟩, rfl, hmissing⟩
    exact ⟨q, v, rfl, hq, hmissing⟩
  · rintro ⟨q, v, rfl, hq, hmissing⟩
    exact ⟨v, _, ⟨q, rfl, hq⟩, rfl, hmissing⟩

theorem mem_missingCommands {value : Json} (hd : value.DistinctKeys) {location p : Location} :
    p ∈ EntryChecks.missingCommands tree ctx (value, location)
      ↔ (∃ v, value = .str v ∧ p = location ∧ Unresolved tree ctx v)
        ∨ ∃ fields name v, value = .obj fields ∧ p = location ++ [name]
            ∧ Assoc.get? name fields = some (.str v) ∧ Unresolved tree ctx v := by
  cases value with
  | str v => simp [EntryChecks.missingCommands, FileTree.mem_missingEntry, Unresolved]
  | obj fields =>
    simp only [EntryChecks.missingCommands, List.mem_flatMap, Prod.exists,
      FileTree.mem_missingField, Prod.mk.injEq, reduceCtorEq, false_and, exists_false, false_or,
      Json.obj.injEq, Unresolved]
    constructor
    · rintro ⟨name, value, hmem, v, ⟨rfl, rfl⟩, hmissing⟩
      exact ⟨fields, name, v, rfl, rfl, Assoc.get?_of_mem hd.1 hmem, hmissing⟩
    · rintro ⟨_, name, v, rfl, rfl, hget, hmissing⟩
      exact ⟨name, _, Assoc.mem_of_get? hget, v, ⟨rfl, rfl⟩, hmissing⟩
  | _ => simp [EntryChecks.missingCommands]

/-! ### Counting -/

section

variable (h : tree.TakesAnyPath) (hl : tree.ListsDirs)
  (hfound : ∀ depth search, ∀ path ∈ tree.expanded depth search, tree.Readable path)

include h hl hfound

theorem mem_missingTargets {entry : EntryTree} (hd : entry.tree.DistinctKeys) {p : Location} :
    p ∈ missingTargets tree ctx entry
      ↔ ∃ q v, p = entry.location ++ q ∧ entry.tree.at? q = some (.leaf v)
          ∧ EntryTree.Misses tree ctx entry.field v := by
  simp only [missingTargets, EntryTree.plan, List.flatMap_map, List.mem_flatMap]
  constructor
  · rintro ⟨t, ht, hp⟩
    obtain ⟨q, hloc, hat, -⟩ := (Crawl.mem_targets hd).mp ht
    rcases EntryTree.missing_task h hl (hfound _) entry t with ⟨heq, -⟩ | ⟨heq, hm⟩
    · exact absurd (heq ▸ hp) List.not_mem_nil
    · rw [heq, List.mem_singleton] at hp
      exact ⟨q, t.value, by rw [hp, hloc], hat, hm⟩
  · rintro ⟨q, v, rfl, hat, hm⟩
    classical
    let t : Crawl.Target := ⟨v, entry.location ++ q, decide (entry.tree.BehindNode q)⟩
    have ht : t ∈ Crawl.targets entry.field entry.location entry.tree :=
      (Crawl.mem_targets hd).mpr ⟨q, rfl, hat, by simp [t]⟩
    refine ⟨t, ht, ?_⟩
    rcases EntryTree.missing_task h hl (hfound _) entry t with ⟨-, hn⟩ | ⟨heq, -⟩
    · exact absurd hm hn
    · exact heq ▸ List.mem_singleton_self _

theorem nodup_missingTargets {entry : EntryTree} (hd : entry.tree.DistinctKeys) :
    (missingTargets tree ctx entry).Nodup := by
  simp only [missingTargets, EntryTree.plan, List.flatMap_map]
  refine nodup_flatMap_of_places (Crawl.nodup_targets hd entry.location) fun t _ => ?_
  exact (EntryTree.missing_task h hl (hfound _) entry t).imp And.left And.left

/-- What is reported in the parts of a plan. -/
theorem mem_missingParts (ctx : Context) (hd : (Json.obj ctx.manifest).DistinctKeys)
    {p : Location} :
    p ∈ (missingParts tree ctx).flatMap Prod.snd
      ↔ (∃ v, ctx.manifest.NamesFile p v ∧ Unresolved tree ctx v)
        ∨ ∃ field v, ctx.manifest.Aims field p v ∧ EntryTree.Misses tree ctx field v := by
  have hfield := fun field => Manifest.distinctKeys_published hd field
  have htargets (entry : EntryTree) (hd : entry.tree.DistinctKeys) :
      p ∈ missingTargets tree ctx entry
        ↔ ∃ q v, p = entry.location ++ q ∧ entry.tree.at? q = some (.leaf v)
            ∧ EntryTree.Misses tree ctx entry.field v := mem_missingTargets h hl hfound hd
  have hexports := htargets (exportsEntry (Fields.of ctx.manifest))
    (ConditionTree.distinctKeys_ofJson (hfield "exports"))
  have himports := htargets (importsEntry (Fields.of ctx.manifest))
    (ConditionTree.distinctKeys_ofJson (hfield "imports"))
  rw [missingParts, List.flatMap_append, List.mem_append, mem_fieldParts, mem_nestedParts]
  constructor
  · rintro (⟨name, v, hname, hgiven, hv, hmissing⟩ | ⟨hset, hp⟩ | ⟨hset, hp⟩ | ⟨hset, hp⟩
      | ⟨entries, hobj, hp⟩)
    · exact Or.inl ⟨v, .field hname hgiven hv, hmissing⟩
    · obtain ⟨q, v, rfl, hq, hmissing⟩ := (mem_missingBrowser (hfield "browser")).mp hp
      exact Or.inl ⟨v, .browser hset hq, hmissing⟩
    · obtain ⟨q, v, rfl, hat, hm⟩ := hexports.mp hp
      exact Or.inr ⟨_, v, .exports hset hat, hm⟩
    · rcases (mem_missingCommands (hfield "bin")).mp hp
        with ⟨v, hstr, rfl, hmissing⟩ | ⟨fields, name, v, hobj, rfl, hget, hmissing⟩
      · exact Or.inl ⟨v, .command hset (Prod.ext hstr rfl), hmissing⟩
      · exact Or.inl ⟨v, .commandOf hobj hget, hmissing⟩
    · obtain ⟨q, v, rfl, hat, hm⟩ := himports.mp hp
      exact Or.inr ⟨_, v, .imports hobj hat, hm⟩
  · rintro (⟨v, hnames, hmissing⟩ | ⟨field, v, haims, hm⟩)
    · cases hnames with
      | field hname hgiven hv => exact Or.inl ⟨_, v, hname, hgiven, hv, hmissing⟩
      | browser hset hq =>
        exact Or.inr (Or.inl ⟨hset, (mem_missingBrowser (hfield "browser")).mpr
          ⟨_, v, rfl, hq, hmissing⟩⟩)
      | command hset hv =>
        exact Or.inr (Or.inr (Or.inr (Or.inl ⟨hset, (mem_missingCommands (hfield "bin")).mpr
          (Or.inl ⟨v, congrArg Prod.fst hv, (congrArg Prod.snd hv).symm, hmissing⟩)⟩)))
      | commandOf hobj hget =>
        have hset : (ctx.manifest.published "bin").1.isSet = true := by rw [hobj]; rfl
        exact Or.inr (Or.inr (Or.inr (Or.inl ⟨hset, (mem_missingCommands (hfield "bin")).mpr
          (Or.inr ⟨_, _, v, hobj, rfl, hget, hmissing⟩)⟩)))
    · cases haims with
      | exports hset hat =>
        exact Or.inr (Or.inr (Or.inl ⟨hset, hexports.mpr ⟨_, v, rfl, hat, hm⟩⟩))
      | imports hobj hat =>
        exact Or.inr (Or.inr (Or.inr (Or.inr ⟨_, hobj, himports.mpr ⟨_, v, rfl, hat, hm⟩⟩)))

omit h hl hfound in
theorem field_of_mem_missingField {manifest : Manifest} {field : String} (hf : field ≠ overridesKey)
    {p : Location} (hp : p ∈ tree.missingField ctx (manifest.published field)) :
    Location.field p = field := by
  obtain ⟨v, hv, -⟩ := FileTree.mem_missingField.mp hp
  have := Location.field_published manifest hf []
  rwa [List.append_nil, hv] at this

omit h hl hfound in
theorem nodup_missingCommands {value : Json} (hd : value.DistinctKeys) (location : Location) :
    (EntryChecks.missingCommands tree ctx (value, location)).Nodup := by
  cases value with
  | str v =>
    rcases tree.missingEntry_eq ctx v location with heq | heq <;>
      simp [EntryChecks.missingCommands, heq]
  | obj fields =>
    have hkeys : (Assoc.keys fields).Nodup := hd.1
    rw [Assoc.keys] at hkeys
    have hplaces : (fields.map fun entry => location ++ [entry.1]).Nodup := by
      have := hkeys.map fun a b (hab : location ++ [a] = location ++ [b]) => by simpa using hab
      rwa [List.map_map] at this
    exact nodup_flatMap_of_places hplaces fun entry _ => tree.missingField_eq ctx entry.2 _
  | _ => simp [EntryChecks.missingCommands]

omit h hl hfound in
theorem nodup_of_mem_fieldParts {part : String × List Location} (hpart : part ∈ fieldParts tree ctx) :
    part.2.Nodup ∧ ∀ p ∈ part.2, Location.field p = part.1 := by
  obtain ⟨field, hfield, rfl⟩ := List.mem_map.mp hpart
  refine ⟨?_, fun p hp => field_of_mem_missingField ?_ hp⟩
  · rcases tree.missingField_eq ctx (ctx.manifest.published field).1
      (ctx.manifest.published field).2 with heq | heq <;> simp [heq]
  · rintro rfl
    rw [lookedAt] at hfield
    split at hfield <;> exact absurd hfield (by decide)

theorem nodup_of_mem_nestedParts (hd : (Json.obj ctx.manifest).DistinctKeys)
    {part : String × List Location} (hpart : part ∈ nestedParts tree ctx (Fields.of ctx.manifest)) :
    part.2.Nodup ∧ ∀ p ∈ part.2, Location.field p = part.1 := by
  have hdistinct := fun field => Manifest.distinctKeys_published hd field
  have hplace := fun field (hf : field ≠ overridesKey) rest =>
    Location.field_published ctx.manifest hf rest
  simp only [nestedParts, List.mem_cons, List.not_mem_nil, or_false] at hpart
  rcases hpart with rfl | rfl | rfl | rfl
  · refine ⟨?_, fun p hp => ?_⟩
    · split
      · exact nodup_flatMap_of_places (EntryChecks.nodup_nestedStrings _ (hdistinct "browser"))
          fun entry _ => tree.missingEntry_eq ctx entry.1 entry.2
      · exact List.nodup_nil
    · obtain ⟨-, hp⟩ := List.mem_ite_nil_right.mp hp
      obtain ⟨q, v, rfl, -⟩ := (mem_missingBrowser (hdistinct "browser")).mp hp
      exact hplace "browser" (by decide) q
  · refine ⟨?_, fun p hp => ?_⟩
    · split
      · exact nodup_missingTargets h hl hfound
          (ConditionTree.distinctKeys_ofJson (hdistinct "exports"))
      · exact List.nodup_nil
    · obtain ⟨-, hp⟩ := List.mem_ite_nil_right.mp hp
      obtain ⟨q, v, rfl, -⟩ := (mem_missingTargets h hl hfound
        (ConditionTree.distinctKeys_ofJson (hdistinct "exports"))).mp hp
      exact hplace "exports" (by decide) q
  · refine ⟨?_, fun p hp => ?_⟩
    · split
      · exact nodup_missingCommands (hdistinct "bin") _
      · exact List.nodup_nil
    · obtain ⟨-, hp⟩ := List.mem_ite_nil_right.mp hp
      have hbin : p ∈ EntryChecks.missingCommands tree ctx ((ctx.manifest.published "bin").1,
          (ctx.manifest.published "bin").2) := hp
      rcases (mem_missingCommands (hdistinct "bin")).mp hbin with ⟨v, -, hp, -⟩ | ⟨fields, name, v, -, hp, -⟩
      · have := hplace "bin" (by decide) []
        rwa [List.append_nil, ← hp] at this
      · exact hp ▸ hplace "bin" (by decide) [name]
  · refine ⟨?_, fun p hp => ?_⟩
    · split
      · exact nodup_missingTargets h hl hfound
          (ConditionTree.distinctKeys_ofJson (hdistinct "imports"))
      · exact List.nodup_nil
    · split at hp
      · obtain ⟨q, v, rfl, -⟩ := (mem_missingTargets h hl hfound
          (ConditionTree.distinctKeys_ofJson (hdistinct "imports"))).mp hp
        exact hplace "imports" (by decide) q
      · exact absurd hp List.not_mem_nil

/-- No place is reported twice: it tells its field, and the keys of an object differ. -/
theorem nodup_missingParts (ctx : Context) (hd : (Json.obj ctx.manifest).DistinctKeys) :
    ((missingParts tree ctx).flatMap Prod.snd).Nodup := by
  have hfields : (missingParts tree ctx).map Prod.fst
      = ["main", "module"] ++ lookedAt ctx ++ ["browser", "exports", "bin", "imports"] := by
    simp [missingParts, fieldParts, nestedParts, Function.comp_def]
  refine nodup_of_fields ?_ fun part hpart => ?_
  · rw [hfields, lookedAt]
    split <;> decide
  · rcases List.mem_append.mp hpart with hpart | hpart
    · exact nodup_of_mem_fieldParts hpart
    · exact nodup_of_mem_nestedParts h hl hfound hd hpart

end

end Pass

/-! ### Legacy candidates in memory -/

namespace MemoryTree

theorem hasEnd_slash {path : String} :
    Text.hasEnd path "/" = true ↔ path.toList.getLast? = some '/' := by
  rw [Text.hasEnd, List.isSuffixOf_iff_suffix, List.getLast?_eq_some_iff]
  exact exists_congr fun front => eq_comm

/-- The index file of a directory is found by its text as by a join. -/
theorem readable_index (tree : MemoryTree) (base value : String) :
    tree.toFileTree.Readable (Context.extend (Path.join base value) "/index.js")
      ↔ tree.toFileTree.Readable (Path.join (Path.join base value) "/index.js") := by
  have hne : (Path.join base value).toList ≠ [] := by
    rw [Path.toList_join, Path.joinChars_eq]
    split
    · rw [Path.appendPart_nil (Path.normalizeChars_ne_nil _)]
      split <;> simp [Path.normalizeChars_ne_nil]
    · exact Path.normalizeChars_ne_nil _
  have hextend : (Context.extend (Path.join base value) "/index.js").toList
      = Path.appendPart (Path.join base value).toList "index.js".toList := by
    have hstart : Text.hasStart "/index.js" "/" = true := by decide
    rw [Context.extend, Path.appendPart, hstart, Bool.true_and]
    by_cases hlast : (Path.join base value).toList.getLast? = some '/'
    · rw [if_pos (hasEnd_slash.mpr hlast), if_pos (by simp [hlast]), String.toList_append]
      rfl
    · rw [if_neg fun h => hlast (hasEnd_slash.mp h), if_neg (by simp [hne, hlast]),
        String.toList_append]
      rfl
  have hname : Path.IsName "index.js".toList := ⟨by decide, by decide, by decide, by decide⟩
  have hindex : (Path.join (Path.join base value) "/index.js").toList
      = Path.normalizeChars (Path.appendPart (Path.join base value).toList "index.js".toList) := by
    rw [Path.toList_join, Path.joinChars_eq, if_neg (by decide)]
    rfl
  refine readable_congr ?_ ?_
  · rw [Path.normalize, Path.normalize, hextend, hindex, Path.normalizeChars_normalizeChars]
  · rw [namesDirectory, namesDirectory, hextend, hindex, Path.getLast?_appendPart _ hname,
      Path.normalizeChars_appendPart_name _ hname, Path.getLast?_ofSegments _ _ hname]

/-- Legacy resolution tries the value's path, the path with `.js`, and the index file below it. -/
theorem unresolved_iff (tree : MemoryTree) (ctx : Context) (value : String) :
    Pass.Unresolved tree.toFileTree ctx value
      ↔ let path := Path.join ctx.pkgDir value
        ¬ tree.toFileTree.Readable path ∧ ¬ tree.toFileTree.Readable (path ++ ".js")
          ∧ ¬ tree.toFileTree.Readable (Path.join path "/index.js") := by
  have hextend : Context.extend (ctx.within value) ".js" = Path.join ctx.pkgDir value ++ ".js" := by
    have hstart : Text.hasStart ".js" "/" = false := by decide
    simp [Context.extend, hstart, Context.within]
  simp only [Pass.Unresolved, Context.candidates, Context.legacyExtensions, List.map_cons,
    List.map_nil, List.forall_mem_cons, List.not_mem_nil, false_imp_iff, implies_true, and_true,
    hextend]
  exact and_congr_right fun _ => and_congr_right fun _ =>
    not_congr (readable_index tree ctx.pkgDir value)

end MemoryTree

/-! ### Whole passes in memory -/

namespace Pass

/-- The file that a target names cannot be read, though it should be there: it has no extension that
nothing understands, and is code, or a path that is no typed source. -/
def TargetMissing (tree : FileTree) (pkgDir value : String) : Prop :=
  let target := if Path.looksRelative value then Path.join pkgDir value else value
  ¬ tree.Readable target
    ∧ Text.hasEnd target ".mjsx" = false ∧ Text.hasEnd target ".cjsx" = false
    ∧ (Source.isLintableName target = true
      ∨ Path.looksAbsolute target = true ∧ Source.isTypedSource target = false)

theorem misses_iff (tree : FileTree) (ctx : Context) (field : EntryField) (value : String) :
    EntryTree.Misses tree ctx field value
      ↔ (field = .imports → Text.hasStart value "." = true)
        ∧ Pattern.hasWildcard value = false ∧ Text.hasEnd value "/" = false
        ∧ TargetMissing tree ctx.pkgDir value := by
  constructor
  · intro h
    obtain ⟨hmjsx, hcjsx⟩ := Context.jsxExtension?_eq_none.mp h.no_jsx
    exact ⟨h.crawled, h.plain, h.no_folder, h.unreadable, hmjsx, hcjsx, h.is_file⟩
  · rintro ⟨hcrawled, hplain, hfolder, hunreadable, hmjsx, hcjsx, hfile⟩
    exact ⟨hcrawled, hplain, hfolder, hunreadable,
      Context.jsxExtension?_eq_none.mpr ⟨hmjsx, hcjsx⟩, hfile⟩

/-- A pass tells of a missing file exactly at the places where the manifest names a file, in a field
of legacy resolution or as a target, that is not there, and once at each. -/
theorem missing_files_exact {files : List (String × String)} {tree : MemoryTree}
    (htree : MemoryTree.ofFiles files = .ok tree) {pkgDir : String} {manifest : Manifest}
    (hload : (Manifest.load pkgDir).result tree.toFileTree = .ok (.ok manifest))
    (published : Option (List String)) (workDir : String) :
    ∃ result, run tree.toFileTree pkgDir { published } workDir = .ok result
      ∧ (missingPlaces result.diagnostics).Nodup
      ∧ ∀ p, p ∈ missingPlaces result.diagnostics
        ↔ ∃ v, (Json.obj manifest).at? p = some (.str v)
          ∧ ((manifest.NamesFile p v
              ∧ let path := Path.join pkgDir v
                ¬ tree.toFileTree.Readable path ∧ ¬ tree.toFileTree.Readable (path ++ ".js")
                  ∧ ¬ tree.toFileTree.Readable (Path.join path "/index.js"))
            ∨ ∃ field, manifest.Aims field p v
              ∧ (field = .imports → Text.hasStart v "." = true)
              ∧ Pattern.hasWildcard v = false ∧ Text.hasEnd v "/" = false
              ∧ TargetMissing tree.toFileTree pkgDir v) := by
  let ctx := contextOf tree.toFileTree.depth workDir pkgDir manifest { published }
  have hd : (Json.obj ctx.manifest).DistinctKeys := Manifest.distinctKeys_load hload
  have hsound := (MemoryTree.reachable_ofFiles htree).sound
  have h := tree.takesAnyPath
  have hl := tree.listsDirs
  have hfound : ∀ depth search, ∀ path ∈ tree.toFileTree.expanded depth search,
      tree.toFileTree.Readable path := fun _ _ _ hmem => hsound.readable_of_mem_expanded hmem
  refine ⟨_, run_of_load hload _ _, ?_⟩
  rw [diagnostics_resultOf, missing_plan h ctx]
  refine ⟨nodup_missingParts h hl hfound ctx hd, fun p => ?_⟩
  rw [mem_missingParts h hl hfound ctx hd]
  constructor
  · rintro (⟨v, hnames, hmissing⟩ | ⟨field, v, haims, hm⟩)
    · exact ⟨v, hnames.at?, Or.inl ⟨hnames, (tree.unresolved_iff ctx v).mp hmissing⟩⟩
    · exact ⟨v, haims.at?, Or.inr ⟨field, haims, (misses_iff _ ctx field v).mp hm⟩⟩
  · rintro ⟨v, -, ⟨hnames, hmissing⟩ | ⟨field, haims, hm⟩⟩
    · exact Or.inl ⟨v, hnames, (tree.unresolved_iff ctx v).mpr hmissing⟩
    · exact Or.inr ⟨field, v, haims, (misses_iff _ ctx field v).mpr hm⟩

/-- A pass over a package whose `main` is not there tells so. -/
theorem missing_main_reported :
    ∃ tree result, MemoryTree.ofFiles [("/p/package.json", "\x7b\"main\":\"./a.js\"\x7d")] = .ok tree
      ∧ run tree.toFileTree "/p" {} "/" = .ok result
      ∧ ["main"] ∈ missingPlaces result.diagnostics := by
  let files := [("/p/package.json", "\x7b\"main\":\"./a.js\"\x7d")]
  let tree : MemoryTree := { files, dirs := [("/", ["p"]), ("/p", ["package.json"])] }
  have htree : MemoryTree.ofFiles files = .ok tree := by rfl
  have hload : (Manifest.load "/p").result tree.toFileTree
      = .ok (.ok [("main", .str "./a.js")]) := by
    cbv
  obtain ⟨result, hrun, -, hplaces⟩ := missing_files_exact htree hload none "/"
  refine ⟨tree, result, htree, hrun, (hplaces _).mpr ⟨"./a.js", by rfl, Or.inl ⟨?_, ?_⟩⟩⟩
  · have hmain : Manifest.published [("main", .str "./a.js")] "main" = (.str "./a.js", ["main"]) := by
      rfl
    exact .field (by decide) (fun h => absurd h (by decide)) hmain
  · refine ⟨?_, ?_, ?_⟩ <;> exact FileTree.text?_eq_none.mp (by decide +kernel)

/-- An empty command is not looked for, though no file has its path. -/
theorem empty_command_not_reported :
    ∃ tree result, MemoryTree.ofFiles [("/p/package.json", "\x7b\"bin\":\"\"\x7d")] = .ok tree
      ∧ (Manifest.load "/p").result tree.toFileTree = .ok (.ok [("bin", .str "")])
      ∧ ¬ tree.toFileTree.Readable (Path.join "/p" "")
      ∧ ¬ tree.toFileTree.Readable (Path.join "/p" "" ++ ".js")
      ∧ ¬ tree.toFileTree.Readable (Path.join (Path.join "/p" "") "/index.js")
      ∧ run tree.toFileTree "/p" {} "/" = .ok result
      ∧ missingPlaces result.diagnostics = [] := by
  let files := [("/p/package.json", "\x7b\"bin\":\"\"\x7d")]
  let tree : MemoryTree := { files, dirs := [("/", ["p"]), ("/p", ["package.json"])] }
  have hload : (Manifest.load "/p").result tree.toFileTree = .ok (.ok [("bin", .str "")]) := by
    cbv
  have hrun : ((run tree.toFileTree "/p").toOption.map fun r => missingPlaces r.diagnostics)
      = some [] := by
    decide +kernel
  obtain ⟨result, hresult, hnone⟩ := Option.map_eq_some_iff.mp hrun
  refine ⟨tree, result, by rfl, hload, ?_, ?_, ?_, ?_, hnone⟩
  · exact FileTree.text?_eq_none.mp (by decide +kernel)
  · exact FileTree.text?_eq_none.mp (by decide +kernel)
  · exact FileTree.text?_eq_none.mp (by decide +kernel)
  · cases hr : run tree.toFileTree "/p" {} "/" with
    | error e => simp [hr, Except.toOption] at hresult
    | ok found => simpa [hr, Except.toOption] using hresult

end Pass

end PackageLint
