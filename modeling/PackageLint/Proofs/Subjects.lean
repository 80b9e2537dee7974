import PackageLint.Proofs.FormatFindings

/-!
# Which file a finding is about

Not every finding names a file, but a check that speaks of formats looks at one file: the first that
it reads. Whatever it reads afterwards are the manifests that tell the format expected of that file. So
the findings of a pass can be told apart by the file that they are about.

Files are told apart by the normal form of their paths, since two texts may lead to one file.

## Main definitions

* `Check.subject?` — the file that a check looks at
* `Check.about`, `Task.about`, `Pass.about` — the findings about one file
* `ofCodes`, `textualCodes` — the findings with some codes, and the codes that depend on texts

## Main results

* `Check.subject?_bind` — a sequence looks at what its parts look at
* `Pass.about_sublist` — what is about a file is among the findings
* `Task.Reports.ofCodes_about` — a task finds nothing about a file that it never reports
-/

namespace PackageLint

/-! ### Findings by code -/

/-- The findings with some of the given codes. -/
def ofCodes (codes : List Code) (ds : List Diagnostic) : List Diagnostic :=
  ds.filter fun d => codes.contains d.code

section

variable {codes : List Code} {ds : List Diagnostic} {d : Diagnostic}

@[simp] theorem ofCodes_nil (codes : List Code) : ofCodes codes [] = [] := rfl

@[simp] theorem ofCodes_append (codes : List Code) (a b : List Diagnostic) :
    ofCodes codes (a ++ b) = ofCodes codes a ++ ofCodes codes b :=
  List.filter_append a b

theorem mem_ofCodes : d ∈ ofCodes codes ds ↔ d ∈ ds ∧ d.code ∈ codes := by
  rw [ofCodes, List.mem_filter, List.contains_iff_mem]

theorem ofCodes_eq_self (h : ∀ d ∈ ds, d.code ∈ codes) : ofCodes codes ds = ds :=
  List.filter_eq_self.mpr fun d hd => List.contains_iff_mem.mpr (h d hd)

theorem ofCodes_eq_nil (h : ∀ d ∈ ds, d.code ∉ codes) : ofCodes codes ds = [] :=
  List.filter_eq_nil_iff.mpr fun d hd => by simp [h d hd]

/-- Of the findings with some codes, those with fewer codes. -/
theorem ofCodes_ofCodes {fewer : List Code} (h : fewer ⊆ codes) (ds : List Diagnostic) :
    ofCodes fewer (ofCodes codes ds) = ofCodes fewer ds := by
  rw [ofCodes, ofCodes, List.filter_filter]
  refine List.filter_congr fun d _ => ?_
  cases hcode : fewer.contains d.code with
  | true => rw [List.contains_iff_mem.mpr (h (List.contains_iff_mem.mp hcode))]; rfl
  | false => rfl

theorem ofCodes_flatMap {α : Type} (codes : List Code) (f : α → List Diagnostic) (items : List α) :
    ofCodes codes (items.flatMap f) = items.flatMap fun a => ofCodes codes (f a) := by
  induction items with
  | nil => rfl
  | cons a rest ih => rw [List.flatMap_cons, ofCodes_append, ih, List.flatMap_cons]

end

/-- The codes of findings that come from the text of a file. -/
def textualCodes : List Code :=
  judgingCodes
    ++ [.moduleShouldBeEsm, .entry .exports .moduleShouldBeEsm, .entry .imports .moduleShouldBeEsm]

theorem judging_subset_textual : judgingCodes ⊆ textualCodes := List.subset_append_left _ _

/-! ### The file that a check looks at -/

/-- The file that a question reads, when it can be read. -/
def FileTree.reads? (tree : FileTree) : Question → Option String
  | .contents path => (tree.text? path).map fun _ => Path.normalize path
  | _ => none

/-- The first file that can be read among some paths. -/
def FileTree.firstFile? (tree : FileTree) (paths : List String) : Option String :=
  (tree.firstText? paths).map fun found => Path.normalize found.1

namespace Check

variable {α β : Type} {tree : FileTree} {file : String}

/-- The file that a check looks at: the first that it reads. -/
def subject? (tree : FileTree) : Check α → Option String
  | .done _ => none
  | .fail _ => none
  | .report _ next => next.subject? tree
  | .ask q next => (tree.reads? q).or ((next (tree.answer q)).subject? tree)

/-- The findings of a check about a file: all of them, when the check looks at it. -/
def about (tree : FileTree) (file : String) (c : Check α) : List Diagnostic :=
  if c.subject? tree = some file then c.findings tree else []

/-- A sequence looks at what its first part looks at, or else at what follows. -/
theorem subject?_bind (c : Check α) (f : α → Check β) :
    (c.bind f).subject? tree
      = (c.subject? tree).or
          (match c.result tree with
            | .ok a => (f a).subject? tree
            | .error _ => none) := by
  induction c with
  | done a => rfl
  | fail e => rfl
  | report d next ih => exact ih
  | ask q next ih => rw [bind, subject?, subject?, ih, Option.or_assoc]; rfl

/-- What follows a check that ends with a value without looking at a file. -/
theorem subject?_bind_of_none {c : Check α} (h : c.subject? tree = none) {a : α}
    (ha : c.result tree = .ok a) (f : α → Check β) :
    (c.bind f).subject? tree = (f a).subject? tree := by
  rw [subject?_bind, h, ha, Option.none_or]

/-- What follows does not count when it looks at no file. -/
theorem subject?_bind_of_blind (c : Check α) {f : α → Check β}
    (hf : ∀ a, c.result tree = .ok a → c.subject? tree = none → (f a).subject? tree = none) :
    (c.bind f).subject? tree = c.subject? tree := by
  rw [subject?_bind]
  cases hsubject : c.subject? tree with
  | some file => rfl
  | none =>
    cases hresult : c.result tree with
    | error e => rfl
    | ok a => exact hf a hresult hsubject

theorem about_sublist (tree : FileTree) (file : String) (c : Check α) :
    (c.about tree file).Sublist (c.findings tree) := by
  rw [about]
  split
  · exact List.Sublist.refl _
  · exact List.nil_sublist _

theorem mem_about {c : Check α} {d : Diagnostic} :
    d ∈ c.about tree file ↔ c.subject? tree = some file ∧ d ∈ c.findings tree := by
  rw [about, List.mem_ite_nil_right]

end Check

/-! ### Reading files -/

namespace Context

variable {tree : FileTree}

theorem subject?_readQuietly (path : String) :
    (readQuietly path).subject? tree = (tree.text? path).map fun _ => Path.normalize path := by
  simp only [readQuietly, Check.bind_eq, Check.readFile, Check.bind, Check.subject?,
    FileTree.reads?, FileTree.answer, FileTree.text?]
  cases tree.contents path with
  | ok content => rfl
  | error e => cases e <;> rfl

/-- What follows a quiet reading looks at no other file. -/
theorem subject?_readQuietly_bind {β : Type} (h : tree.TakesAnyPath) (path : String)
    {f : Option String → Check β} (hf : (f none).subject? tree = none) :
    ((readQuietly path).bind f).subject? tree = tree.firstFile? [path] := by
  rw [Check.subject?_bind, subject?_readQuietly, Check.result, run_readQuietly h,
    FileTree.firstFile?, FileTree.firstText?_singleton]
  cases tree.text? path with
  | some content => rfl
  | none => exact hf

theorem subject?_firstReadable (h : tree.TakesAnyPath) (paths : List String) :
    (firstReadable paths).subject? tree = tree.firstFile? paths := by
  induction paths with
  | nil => rfl
  | cons path rest ih =>
    rw [firstReadable, Check.bind_eq, Check.subject?_bind, subject?_readQuietly, Check.result,
      run_readQuietly h, FileTree.firstFile?, FileTree.firstText?, List.findSome?_cons]
    cases tree.text? path with
    | some content => rfl
    | none => exact ih

/-- Reading an entry looks at the candidate that is read. -/
theorem subject?_readEntry (h : tree.TakesAnyPath) (ctx : Context) (path : String)
    (location : Location) (extensions : List String) :
    (ctx.readEntry path location extensions).subject? tree
      = tree.firstFile? (candidates path extensions) := by
  rw [readEntry, Check.bind_eq, Check.subject?_bind_of_blind, subject?_firstReadable h]
  intro found _ _
  cases found with
  | none => rfl
  | some found =>
    simp only
    split <;> rfl

/-- What follows the reading of an entry looks at no other file. -/
theorem subject?_readEntry_bind {β : Type} (h : tree.TakesAnyPath) (ctx : Context) (path : String)
    (location : Location) (extensions : List String) {f : Option String → Check β}
    (hf : (f none).subject? tree = none) :
    ((ctx.readEntry path location extensions).bind f).subject? tree
      = tree.firstFile? (candidates path extensions) := by
  rw [Check.subject?_bind_of_blind, subject?_readEntry h]
  intro text htext hnone
  rw [subject?_readEntry h, FileTree.firstFile?, Option.map_eq_none_iff] at hnone
  rw [Check.result, run_readEntry h, hnone] at htext
  obtain rfl := Except.ok.inj htext
  exact hf

end Context

/-! ### Checks that speak of formats -/

section

variable {tree : FileTree} {ctx : Context} {location : Location}

/-- The check of the implicit entry point looks at it, where it is there. -/
theorem PackageChecks.subject?_checkIndex (h : tree.TakesAnyPath) (ctx : Context) :
    (checkIndex ctx).subject? tree
      = if tree.isThere (ctx.within indexName) then tree.firstFile? [ctx.within indexName]
        else none := by
  have hthere : (Check.isThere (ctx.within indexName)).result tree
      = .ok (tree.isThere (ctx.within indexName)) := rfl
  rw [checkIndex, Check.bind_eq, Check.subject?_bind_of_none rfl hthere]
  split
  · exact Context.subject?_readQuietly_bind h _ rfl
  · rfl

namespace EntryChecks

/-- Reading an entry point looks at the file that its value resolves to. -/
theorem subject?_readLegacy (h : tree.TakesAnyPath) (v : String) :
    (readLegacy ctx (.str v) location).subject? tree
      = tree.firstFile? (Context.candidates (ctx.within v) Context.legacyExtensions) :=
  Context.subject?_readEntry_bind h _ _ _ _ rfl

/-- What follows the reading of an entry point looks at no other file. -/
theorem subject?_readLegacy_bind (h : tree.TakesAnyPath) (v : String)
    {f : Option (String × String) → Check Unit} (hf : (f none).subject? tree = none) :
    ((readLegacy ctx (.str v) location).bind f).subject? tree
      = tree.firstFile? (Context.candidates (ctx.within v) Context.legacyExtensions) := by
  rw [Check.subject?_bind_of_blind, subject?_readLegacy h]
  intro found hfound hblind
  rw [subject?_readLegacy h, FileTree.firstFile?, Option.map_eq_none_iff] at hblind
  have hnone : found = none := by
    simpa [Check.result, run_readLegacy h, hblind] using hfound.symm
  rw [hnone, hf]

theorem subject?_checkMain (h : tree.TakesAnyPath) (v : String) (hasExports : Bool) :
    (checkMain ctx (.str v) location hasExports).subject? tree
      = tree.firstFile? (Context.candidates (ctx.within v) Context.legacyExtensions) :=
  subject?_readLegacy_bind h v rfl

theorem subject?_checkModule (h : tree.TakesAnyPath) (v : String) (hasExports : Bool) :
    (checkModule ctx (.str v) location hasExports).subject? tree
      = tree.firstFile? (Context.candidates (ctx.within v) Context.legacyExtensions) :=
  subject?_readLegacy_bind h v rfl

theorem subject?_checkCommand (h : tree.TakesAnyPath) (v : String) :
    (checkCommand ctx v location).subject? tree
      = tree.firstFile? (Context.candidates (ctx.within v) Context.legacyExtensions) :=
  Context.subject?_readEntry_bind h _ _ _ _ rfl

end EntryChecks

/-- The check of a file of the scan looks at that file. -/
theorem AllFiles.subject?_checkFile (h : tree.TakesAnyPath) (path shown : String) :
    (checkFile path shown).subject? tree = tree.firstFile? [path] :=
  Context.subject?_readQuietly_bind h path rfl

namespace EntryTree

variable {entry : EntryTree}

theorem subject?_checkFile (h : tree.TakesAnyPath) (path value : String) (afterNode : Bool)
    (globbed : Option String) :
    (entry.checkFile ctx path value location afterNode globbed).subject? tree
      = tree.firstFile? [path] :=
  Context.subject?_readEntry_bind h _ _ _ _ rfl

theorem subject?_checkPresence (h : tree.TakesAnyPath) (path : String) :
    (checkPresence ctx path location).subject? tree = tree.firstFile? [path] :=
  Context.subject?_readEntry_bind h _ _ _ _ rfl

end EntryTree

end

/-! ### Tasks and passes -/

/-- The findings of a task about a file, with those of the checks it leaves. -/
def Task.about (tree : FileTree) (file : String) (task : Task) : List Diagnostic :=
  task.check.about tree file ++
    match task.check.result tree with
    | .ok batch => batch.checks.flatMap fun check => check.about tree file
    | .error _ => []

/-- The findings of a pass about a file. -/
def Pass.about (tree : FileTree) (ctx : Context) (file : String) : List Diagnostic :=
  (Pass.plan ctx).tasks.flatMap fun task => task.about tree file

theorem sublist_flatMap {α : Type} {f g : α → List Diagnostic} (h : ∀ a, (f a).Sublist (g a))
    (items : List α) : (items.flatMap f).Sublist (items.flatMap g) := by
  induction items with
  | nil => exact List.Sublist.refl _
  | cons a rest ih =>
    rw [List.flatMap_cons, List.flatMap_cons]
    exact (h a).append ih

theorem Task.about_sublist (tree : FileTree) (file : String) (task : Task) :
    (task.about tree file).Sublist (task.findings tree) := by
  rw [about, findings]
  refine (task.check.about_sublist tree file).append ?_
  cases task.check.result tree with
  | ok batch => exact sublist_flatMap (fun check => check.about_sublist tree file) _
  | error e => exact List.Sublist.refl _

/-- What a pass finds about a file is among what it finds. -/
theorem Pass.about_sublist (tree : FileTree) (ctx : Context) (file : String) :
    (about tree ctx file).Sublist (runPlan tree (plan ctx)).findings := by
  rw [findings_runPlan]
  exact (sublist_flatMap (Task.about_sublist tree file) _).trans (List.sublist_append_right _ _)

theorem Task.about_single (tree : FileTree) (file label : String) (check : Check Unit) :
    (Task.single label check).about tree file = check.about tree file := by
  have hfindings : (check.bind fun _ => (.done {} : Check Batch)).findings tree
      = check.findings tree := Check.findings_bind_of_silent check fun _ => rfl
  have hbatch : (match (check.bind fun _ => (.done {} : Check Batch)).result tree with
      | .ok batch => batch.checks.flatMap fun check => check.about tree file
      | .error _ => []) = [] := by
    simp only [Check.result, Check.run_bind]
    cases (check.run tree).result <;> rfl
  rw [about, single, hbatch, List.append_nil, Check.about, Check.about, hfindings,
    Check.subject?_bind_of_blind check fun _ _ _ => rfl]

/-- A task that never reports some codes finds nothing with them about a file. -/
theorem Task.Reports.ofCodes_about {reported codes : List Code} {task : Task}
    (h : task.Reports reported) (hcodes : ∀ code ∈ reported, code ∉ codes) (tree : FileTree)
    (file : String) : ofCodes codes (task.about tree file) = [] :=
  ofCodes_eq_nil fun _ hd => hcodes _ (h.code_mem ((task.about_sublist tree file).subset hd))

theorem flatMap_about_eq_nil {tree : FileTree} {file : String} {tasks : List Task}
    {reported codes : List Code} (h : ∀ task ∈ tasks, task.Reports reported)
    (hcodes : ∀ code ∈ reported, code ∉ codes) :
    ofCodes codes (tasks.flatMap fun task => task.about tree file) = [] := by
  rw [ofCodes_flatMap]
  exact List.flatMap_eq_nil_iff.mpr fun task htask => (h task htask).ofCodes_about hcodes tree file

end PackageLint
