import PackageLint.Proofs.AdjacentDeclarations
import PackageLint.Proofs.FindingPlaces
import PackageLint.Proofs.FormatFindings
import PackageLint.Proofs.TaskCodes

/-!
# Suggested extensions cure what they are suggested for

A finding about a wrong format names the extension of the file and another one that states the right
format. Exchanging the one for the other gives a path that has the right format by its ending alone, so
no manifest has a say in it any more, wherever the file lies and whatever else is there.

Two things could go wrong with the exchange, and do not. The text of the extension may occur more than
once in the path, or be empty; but it is the end of the path, and so its last occurrence. And what is in
front of the extension takes part in the ending of a declaration; but it is the `.d` there.

## Main definitions

* `Path.IsExtension` — the extension of a path
* `Path.Exchanged` — two paths that differ in their extension only
* `Diagnostic.Renames` — the path that a finding suggests

## Main results

* `Path.isExtension_iff` — extensions are what is computed for them
* `Manifest.expectedFormat_codeExtension` and the same for declarations — an extension that states a
  format does so behind any stem
* `Declarations.exists_wrongFormat` — what is known of a declaration with a wrong format
* `Pass.suggested_extensions_cure` — every suggested path has the right format on every file tree
-/

namespace PackageLint

/-! ### Extensions -/

namespace Path

/-- Whether a text is the extension of a path: what its last segment holds from the last dot on, when
something else than dots is before that dot. -/
inductive IsExtension : List Char → List Char → Prop
  | final {front lead body : List Char} (hfront : IsFront front) (hlead : '/' ∉ lead)
      (hname : ∃ c ∈ lead, c ≠ '.') (hslash : '/' ∉ body) (hdot : '.' ∉ body) :
      IsExtension (front ++ (lead ++ '.' :: body)) ('.' :: body)
  | none {front dots name : List Char} (hfront : IsFront front) (hdots : ∀ c ∈ dots, c = '.')
      (hslash : '/' ∉ name) (hdot : '.' ∉ name) : IsExtension (front ++ (dots ++ name)) []

/-- Two paths that differ in their extension only. -/
structure Exchanged (path old new renamed : String) : Prop where
  isExtension : IsExtension path.toList old.toList
  exists_stem : ∃ stem, path = stem ++ old ∧ renamed = stem ++ new

theorem extensionOf_of_not_mem {name : List Char} (h : '.' ∉ name) : extensionOf name = [] := by
  induction name with
  | nil => rfl
  | cons c rest ih =>
    obtain ⟨hc, hrest⟩ := List.ne_and_not_mem_of_not_mem_cons h
    rw [extensionOf, ih hrest]
    exact if_neg hc.symm

theorem extensionOf_append (lead : List Char) {body : List Char} (h : '.' ∉ body) :
    extensionOf (lead ++ '.' :: body) = '.' :: body := by
  induction lead with
  | nil => simp [extensionOf, extensionOf_of_not_mem h]
  | cons c rest ih => rw [List.cons_append, extensionOf, ih]

/-- A text has a last dot or none. -/
theorem exists_last_dot (cs : List Char) :
    '.' ∉ cs ∨ ∃ lead body, cs = lead ++ '.' :: body ∧ '.' ∉ body := by
  induction cs with
  | nil => exact Or.inl List.not_mem_nil
  | cons c rest ih =>
    rcases ih with hrest | ⟨lead, body, rfl, hbody⟩
    · by_cases hc : c = '.'
      · exact Or.inr ⟨[], rest, by rw [hc, List.nil_append], hrest⟩
      · exact Or.inl (List.not_mem_cons_of_ne_of_not_mem (Ne.symm hc) hrest)
    · exact Or.inr ⟨c :: lead, body, rfl, hbody⟩

theorem extension_front {front name : List Char} (hfront : IsFront front) (hname : '/' ∉ name) :
    extension (String.ofList (front ++ name))
      = String.ofList (extensionOf (name.dropWhile (· = '.'))) := by
  rw [extension, String.toList_ofList, splitLast_front hfront hname]

/-- The dots in front of a name. -/
theorem exists_dots (name : List Char) :
    ∃ dots rest, name = dots ++ rest ∧ name.dropWhile (· = '.') = rest
      ∧ (∀ c ∈ dots, c = '.') ∧ rest.head? ≠ some '.' := by
  refine ⟨name.takeWhile (· = '.'), name.dropWhile (· = '.'),
    List.takeWhile_append_dropWhile.symm, rfl, fun c hc => ?_, fun hhead => ?_⟩
  · simpa using List.mem_takeWhile_imp hc
  · have hnot := List.head?_dropWhile_not (fun c => decide (c = '.')) name
    rw [hhead] at hnot
    simp at hnot

theorem isExtension_extension (path : String) :
    IsExtension path.toList (extension path).toList := by
  obtain ⟨front, name, hpath, hfront, hslash⟩ := exists_front path.toList
  have hextension := extension_front hfront hslash
  rw [← hpath, String.ofList_toList] at hextension
  obtain ⟨dots, rest, rfl, hdrop, hdots, hhead⟩ := exists_dots name
  rw [hpath, hextension, String.toList_ofList, hdrop]
  rw [List.mem_append, not_or] at hslash
  rcases exists_last_dot rest with hdot | ⟨lead, body, rfl, hbody⟩
  · rw [extensionOf_of_not_mem hdot]
    exact .none hfront hdots hslash.2 hdot
  · simp only [List.mem_append, List.mem_cons, not_or] at hslash
    rw [extensionOf_append lead hbody, ← List.append_assoc dots]
    refine .final hfront (by simp [hslash.1, hslash.2.1]) ?_ hslash.2.2.2 hbody
    cases lead with
    | nil => exact absurd rfl hhead
    | cons c lead => exact ⟨c, by simp, fun heq => hhead (by rw [heq]; rfl)⟩

/-- A path has one extension, which is what is computed for it. -/
theorem isExtension_iff {path text : String} :
    IsExtension path.toList text.toList ↔ text = extension path := by
  refine ⟨fun h => ?_, fun h => h ▸ isExtension_extension path⟩
  rw [← String.toList_inj, ← String.ofList_toList (s := path)]
  generalize path.toList = cs at h ⊢
  generalize text.toList = ext at h ⊢
  cases h with
  | @final front lead body hfront hlead hname hslash hdot =>
    have hne : lead.dropWhile (· = '.') ≠ [] := by simpa using hname
    rw [extension_front hfront (by simp [hlead, hslash]), String.toList_ofList,
      List.dropWhile_append, if_neg (by simpa using hne), extensionOf_append _ hdot]
  | @none front dots name hfront hdots hslash hdot =>
    have hnil : dots.dropWhile (· = '.') = [] := by simpa using hdots
    have hsegment : '/' ∉ dots ++ name := by
      rw [List.mem_append, not_or]
      exact ⟨fun hmem => absurd (hdots _ hmem) (by decide), hslash⟩
    rw [extension_front hfront hsegment, String.toList_ofList, List.dropWhile_append, hnil,
      if_pos List.isEmpty_nil, extensionOf_of_not_mem fun hmem => hdot ((List.dropWhile_suffix _).subset hmem)]

theorem exchanged_extension (path new : String) :
    Exchanged path (extension path) new (Text.replaceLast path (extension path) new) := by
  obtain ⟨stem, hstem⟩ := exists_stem path
  have hrenamed := Text.replaceLast_append stem (extension path) new
  rw [hstem] at hrenamed
  exact ⟨isExtension_extension path, stem, hstem.symm, hrenamed⟩

end Path

/-! ### Formats that an extension states -/

theorem Format.isCertain_iff {format : Format} :
    format.isCertain = true ↔ format = .esm ∨ format = .cjs := by
  cases format <;> decide

namespace Manifest

/-- The extension of a format states it, whatever is in front, and no question is asked. -/
theorem expectedFormat_codeExtension {format : Format} (h : format.isCertain = true)
    (stem : String) : expectedFormat (stem ++ format.codeExtension) = .done format := by
  rcases Format.isCertain_iff.mp h with rfl | rfl <;>
    simp [expectedFormat, Text.dropEnd, platformEnding, Format.codeExtension, Text.hasEnd,
      List.isSuffixOf, List.isPrefixOf]

/-- So does that of a declaration behind `.d`. -/
theorem expectedDeclarationFormat_of_hasEnd {format : Format} (h : format.isCertain = true)
    {path : String} (hend : Text.hasEnd path (".d" ++ format.declarationExtension) = true) :
    expectedDeclarationFormat path = .done format := by
  obtain ⟨stem, rfl⟩ := Text.hasEnd_iff.mp hend
  rcases Format.isCertain_iff.mp h with rfl | rfl <;>
    simp [expectedDeclarationFormat, Format.declarationExtension, Text.hasEnd,
      List.isSuffixOf, List.isPrefixOf]

/-- A format that is stated is the expected one on every tree. -/
theorem expectedFormat_of_done {path : String} {format : Format}
    (h : expectedFormat path = .done format) (tree : FileTree) :
    tree.expectedFormat path = format :=
  Check.value_congr h (run_expectedFormat tree path) (Check.run_done tree format)

theorem expectedDeclarationFormat_of_done {path : String} {format : Format}
    (h : expectedDeclarationFormat path = .done format) (tree : FileTree) :
    tree.expectedDeclarationFormat path = format :=
  Check.value_congr h (run_expectedDeclarationFormat tree path) (Check.run_done tree format)

end Manifest

/-- Paths are expected to have a format that is certain. -/
theorem FileTree.isCertain_expectedFormat (tree : FileTree) (path : String) :
    (tree.expectedFormat path).isCertain = true := by
  have hformat : ∀ manifest, (Manifest.formatOf manifest).isCertain = true := by
    intro manifest
    rw [Manifest.formatOf.eq_def]
    split
    · split <;> rfl
    · rfl
  simp only [expectedFormat]
  split
  · rfl
  · split
    · rfl
    · exact hformat _

/-! ### Declarations with a wrong format -/

namespace Declarations

open ConditionTree (Resolved)

variable {tree : FileTree} {ctx : Context} {root : Root} {d : Diagnostic}

theorem isCertain_dueFormat (tree : FileTree) (ctx : Context) (root : Root) (request : Request) :
    (dueFormat tree ctx root request).isCertain = true := by
  rw [dueFormat, codeFormat?]
  cases (root.described request).filter fun code => tree.isThere (ctx.within code.target) with
  | none => cases request.condition <;> rfl
  | some code =>
    rw [Option.map_some, Option.getD_some]
    exact tree.isCertain_expectedFormat _

/-- A finding about a wrong format is about a declaration that some request leads to, and expects a
format that is certain. -/
theorem exists_wrongFormat (hd : d ∈ (check ctx root).findings tree)
    (hcode : d.code = .exportsTypesInvalidFormat) :
    ∃ request found actual expected, root.types request = some found
      ∧ Source.isDeclaration found.target = true ∧ expected.isCertain = true
      ∧ d = wrongFormat request.condition found actual expected := by
  have hsilent : (shippedDeclaration ctx).Only fun _ => False := only_shippedDeclaration
  rcases Check.mem_findings_bind.mp hd with hd | ⟨shipped, -, hd⟩
  · exact (hsilent.of_mem hd).elim
  · cases shipped with
    | none => exact absurd hd List.not_mem_nil
    | some shipped =>
      change d ∈ (checkRequests ctx root shipped [] requests).findings tree at hd
      rw [Check.findings, run_checkRequests] at hd
      obtain ⟨request, -, hd⟩ := List.mem_filterMap.mp hd
      obtain ⟨found, hfound, hd⟩ := Option.bind_eq_some_iff.mp hd
      obtain ⟨-, ⟨hdeclaration, -, rfl⟩ | ⟨-, -, rfl⟩⟩ := findingAt_eq_some_iff.mp hd
      · exact ⟨request, found, _, _, hfound, hdeclaration, isCertain_dueFormat .., rfl⟩
      · exact absurd hcode (by simp [notExported])

/-- The extension of a declaration is what is behind `.d`. -/
theorem exists_declaration_stem {path : String} (h : Source.isDeclaration path = true) :
    ∃ stem, path = stem ++ ".d" ++ Path.extension path := by
  obtain ⟨stem, text, hpath, hslash, hdot⟩ : ∃ stem text : String,
      path = stem ++ ".d" ++ ("." ++ text) ∧ '/' ∉ text.toList ∧ '.' ∉ text.toList := by
    obtain ⟨ending, hending, hend⟩ := List.any_eq_true.mp h
    have hall : ∀ ending ∈ [".d.ts", ".d.mts", ".d.cts"], ∃ text ∈ ["ts", "mts", "cts"],
        ending = ".d" ++ ("." ++ text) := by decide
    obtain ⟨text, htext, rfl⟩ := hall ending hending
    have hplain : ∀ text ∈ ["ts", "mts", "cts"], '/' ∉ text.toList ∧ '.' ∉ text.toList := by decide
    obtain ⟨hslash, hdot⟩ := hplain text htext
    rcases Bool.or_eq_true_iff.mp hend with hend | hend
    · obtain ⟨stem, rfl⟩ := Text.hasEnd_iff.mp hend
      exact ⟨stem, text, String.append_assoc.symm, hslash, hdot⟩
    · obtain ⟨stem, rfl⟩ := Text.hasEnd_iff.mp hend
      refine ⟨stem, text ++ "\n", ?_, by simp [hslash], by simp [hdot]⟩
      simp only [String.append_assoc]
  suffices hextension : "." ++ text = Path.extension path from ⟨stem, hextension ▸ hpath⟩
  obtain ⟨front, name, hstem, hfront, hname⟩ := Path.exists_front stem.toList
  rw [← Path.isExtension_iff, hpath]
  simp only [String.toList_append, hstem, List.append_assoc]
  rw [← List.append_assoc name]
  exact .final hfront (by simp [hname]) ⟨'d', by simp, by decide⟩ hslash hdot

end Declarations

/-! ### What findings suggest -/

/-- Whether a finding suggests a path in place of another one, which is the other one with the expected
extension in place of its own. -/
def Diagnostic.Renames (d : Diagnostic) (path renamed : String) : Prop :=
  ∃ old new, Assoc.get? "actual_extension" d.args = some (.str old)
    ∧ Assoc.get? "expect_extension" d.args = some (.str new)
    ∧ renamed = Text.replaceLast path old new ∧ Path.Exchanged path old new renamed

variable {tree : FileTree} {d : Diagnostic}

/-- A finding about the format of a file suggests a path that has the format of the text. -/
theorem FileFormat.exists_renamed {path content : String} {location : Location}
    {leniency : Leniency} {shown : Option String}
    (hd : d ∈ findings tree path content location leniency shown) :
    Assoc.get? "actual_format" d.args = some (.format (Source.classify content))
      ∧ ∃ renamed, d.Renames path renamed
        ∧ Manifest.expectedFormat renamed = .done (Source.classify content) := by
  obtain ⟨⟨hmismatch, -⟩, rfl⟩ := mem_findings.mp hd
  have hcertain : (Source.classify content).isCertain = true :=
    (Bool.and_eq_true_iff.mp hmismatch).1
  have hexchanged := Path.exchanged_extension path (Source.classify content).codeExtension
  refine ⟨rfl, _, ⟨_, _, rfl, rfl, rfl, hexchanged⟩, ?_⟩
  obtain ⟨stem, -, hrenamed⟩ := hexchanged.exists_stem
  rw [hrenamed]
  exact Manifest.expectedFormat_codeExtension hcertain stem

/-- A text that has the format that its path expects is not reported. -/
theorem FileFormat.findings_check_of_expected {path content : String}
    (h : tree.expectedFormat path = Source.classify content) (location : Location)
    (leniency : Leniency) (shown : Option String) :
    (check path content location leniency shown).findings tree = [] := by
  have hmatch : (Source.classify content).mismatch (tree.expectedFormat path) = false := by
    simp [h, Format.mismatch]
  simp [Check.findings, run_check, findings, hmatch]

/-- A finding about the format of a declaration suggests a path that has the format of the code, put
below any directory as well. -/
theorem Declarations.exists_renamed (condition : Condition) {found : ConditionTree.Resolved}
    (actual : Format) {expected : Format} (hdeclaration : Source.isDeclaration found.target = true)
    (hcertain : expected.isCertain = true) :
    ∃ renamed, (wrongFormat condition found actual expected).Renames found.target renamed
      ∧ Manifest.expectedDeclarationFormat renamed = .done expected
      ∧ ∀ dir, Manifest.expectedDeclarationFormat (Path.join dir renamed) = .done expected := by
  have hexchanged := Path.exchanged_extension found.target expected.declarationExtension
  refine ⟨_, ⟨_, _, rfl, rfl, rfl, hexchanged⟩, ?_⟩
  obtain ⟨stem, hstem⟩ := exists_declaration_stem hdeclaration
  have hrenamed := Text.replaceLast_append (stem ++ ".d") (Path.extension found.target)
    expected.declarationExtension
  rw [← hstem, String.append_assoc] at hrenamed
  have hend := Text.hasEnd_append stem (".d" ++ expected.declarationExtension)
  rw [← hrenamed] at hend
  refine ⟨Manifest.expectedDeclarationFormat_of_hasEnd hcertain hend, fun dir => ?_⟩
  have hname : Path.IsName (".d" ++ expected.declarationExtension).toList := by
    cases expected <;> exact by decide
  exact Manifest.expectedDeclarationFormat_of_hasEnd hcertain (Path.hasEnd_join hname hend)

/-! ### Findings of a pass -/

namespace Pass

/-- A finding of a pass that a declaration has a wrong format is about a declaration that the manifest
names where the finding says. -/
theorem exists_wrongFormat_of_mem {pkgDir workDir : String} {options : Options} {result : Result}
    (h : run tree pkgDir options workDir = .ok result) (hd : d ∈ result.diagnostics)
    (hcode : d.code = .exportsTypesInvalidFormat) :
    ∃ condition found actual expected,
      (Json.obj result.manifest).at? d.location = some (.str found.target)
        ∧ Source.isDeclaration found.target = true ∧ expected.isCertain = true
        ∧ d.args = (Declarations.wrongFormat condition found actual expected).args := by
  obtain ⟨manifest, hload, rfl⟩ := run_eq_ok_iff.mp h
  have hk : (Json.obj manifest).DistinctKeys := Manifest.distinctKeys_load hload
  obtain ⟨⟨e, he, rfl⟩, -⟩ := mem_diagnostics_resultOf.mp hd
  have hshown : (options.shown e).code = e.code ∧ (options.shown e).location = e.location
      ∧ (options.shown e).args = e.args := by
    rw [Options.shown]
    split <;> exact ⟨rfl, rfl, rfl⟩
  obtain ⟨hsame, hlocation, hargs⟩ := hshown
  rw [hsame] at hcode
  rw [hlocation, hargs]
  have hothers : ∀ {codes : List Code} {task : Task}, task.Reports codes →
      .exportsTypesInvalidFormat ∉ codes → e ∉ task.findings tree :=
    fun hreports hcodes hfound => hcodes (hcode ▸ hreports.code_mem hfound)
  obtain ⟨task, htask, he⟩ := exists_task_of_mem he (by rw [hcode]; decide)
  rcases task_cases htask with hleaf | ⟨hset, hroot⟩ | hplain
  · obtain ⟨field, hreports⟩ := hleaf.reports
    exact absurd he (hothers hreports (by cases field <;> decide))
  · rw [Task.findings_single] at he
    obtain ⟨request, found, actual, expected, hfound, hdeclaration, hcertain, rfl⟩ :=
      Declarations.exists_wrongFormat he hcode
    obtain ⟨hat, hdistinct⟩ := at?_of_isSet hk hset
    obtain ⟨place, hplace, hleaf⟩ :=
      Declarations.leaf_of_resolve (ConditionTree.distinctKeys_ofJson hdistinct) hroot hfound
    refine ⟨request.condition, found, actual, expected, ?_, hdeclaration, hcertain, rfl⟩
    rw [ConditionTree.at?_eq_leaf] at hleaf
    change (Json.obj manifest).at? found.location = _
    rw [hplace]
    exact Manifest.at?_below hat hleaf
  · exact absurd he (hothers hplain (by decide))

/-- Every finding about the format of a file, and every one of a pass about that of a declaration,
names the extension of the path that it is about. With the expected extension in its place, and nothing
else changed, the path has the format that it should have on every file tree, and no question has to be
asked for that: a file has that of its text, so that nothing is found about it any more, and a declaration
that of the code, at the target as it is written and below any directory. -/
theorem suggested_extensions_cure :
    (∀ (tree : FileTree) (path content : String) (location : Location)
      (leniency : FileFormat.Leniency) (shown : Option String),
      ∀ d ∈ (FileFormat.check path content location leniency shown).findings tree,
        ∃ actual renamed, Assoc.get? "actual_format" d.args = some (.format actual)
          ∧ d.Renames path renamed
          ∧ Manifest.expectedFormat renamed = .done actual
          ∧ ∀ other : FileTree, other.expectedFormat renamed = actual
            ∧ (FileFormat.check renamed content location leniency shown).findings other = [])
      ∧ ∀ (tree : FileTree) (pkgDir workDir : String) (options : Options) (result : Result),
        run tree pkgDir options workDir = .ok result →
        ∀ d ∈ result.diagnostics, d.code = .exportsTypesInvalidFormat →
          ∃ target expected renamed,
            (Json.obj result.manifest).at? d.location = some (.str target)
              ∧ Assoc.get? "expect_format" d.args = some (.format expected)
              ∧ d.Renames target renamed
              ∧ Manifest.expectedDeclarationFormat renamed = .done expected
              ∧ ∀ other : FileTree, other.expectedDeclarationFormat renamed = expected
                ∧ ∀ dir, other.expectedDeclarationFormat (Path.join dir renamed) = expected := by
  constructor
  · intro tree path content location leniency shown d hd
    rw [Check.findings, FileFormat.run_check] at hd
    obtain ⟨hactual, renamed, hrenames, hdone⟩ := FileFormat.exists_renamed hd
    refine ⟨_, renamed, hactual, hrenames, hdone, fun other => ?_⟩
    have hexpected := Manifest.expectedFormat_of_done hdone other
    exact ⟨hexpected, FileFormat.findings_check_of_expected hexpected _ _ _⟩
  · intro tree pkgDir workDir options result h d hd hcode
    obtain ⟨condition, found, actual, expected, hat, hdeclaration, hcertain, hargs⟩ :=
      exists_wrongFormat_of_mem h hd hcode
    obtain ⟨renamed, hrenames, hdone, hbelow⟩ :=
      Declarations.exists_renamed condition actual hdeclaration hcertain
    rw [Diagnostic.Renames, ← hargs] at hrenames
    refine ⟨found.target, expected, renamed, hat, by rw [hargs]; rfl, hrenames, hdone,
      fun other => ⟨Manifest.expectedDeclarationFormat_of_done hdone other, fun dir => ?_⟩⟩
    exact Manifest.expectedDeclarationFormat_of_done (hbelow dir) other

/-- The extension of the script occurs three times in its path, and the declaration is that of code in
another format. -/
theorem repeated_extension_cured :
    (∃ d ∈ (FileFormat.check "/p.js/.js.js" "import a from 'a'" []).findings
        MemoryTree.empty.toFileTree,
      ∃ actual renamed, d.Renames "/p.js/.js.js" renamed
        ∧ ∀ other : FileTree, other.expectedFormat renamed = actual)
      ∧ ∃ tree result,
        MemoryTree.ofFiles
            [("/p/package.json",
              "\x7b\"exports\":\x7b\"types\":\"./a.d.ts\",\"import\":\"./a.mjs\"\x7d,\"types\":\"a\"\x7d"),
             ("/p/a.d.ts", ""), ("/p/a.mjs", "")] = .ok tree
          ∧ run tree.toFileTree "/p" {} "/" = .ok result
          ∧ ∃ d ∈ result.diagnostics, d.code = .exportsTypesInvalidFormat
            ∧ ∃ target expected renamed, d.Renames target renamed
              ∧ ∀ other : FileTree, other.expectedDeclarationFormat renamed = expected := by
  constructor
  · have hfound : (FileFormat.check "/p.js/.js.js" "import a from 'a'" []).findings
        MemoryTree.empty.toFileTree ≠ [] := by
      decide +kernel
    obtain ⟨d, hd⟩ := List.exists_mem_of_ne_nil _ hfound
    obtain ⟨actual, renamed, -, hrenames, -, hcures⟩ := suggested_extensions_cure.1 _ _ _ _ _ _ d hd
    exact ⟨d, hd, actual, renamed, hrenames, fun other => (hcures other).1⟩
  · let files := [("/p/package.json",
        "\x7b\"exports\":\x7b\"types\":\"./a.d.ts\",\"import\":\"./a.mjs\"\x7d,\"types\":\"a\"\x7d"),
      ("/p/a.d.ts", ""), ("/p/a.mjs", "")]
    let tree : MemoryTree :=
      { files, dirs := [("/", ["p"]), ("/p", ["package.json", "a.d.ts", "a.mjs"])] }
    have htree : MemoryTree.ofFiles files = .ok tree := by cbv
    have hfound : ((run tree.toFileTree "/p" {} "/").toOption.map fun result =>
        result.diagnostics.any fun d => d.code = .exportsTypesInvalidFormat) = some true := by
      decide +kernel
    cases hrun : run tree.toFileTree "/p" {} "/" with
    | error e => simp [hrun, Except.toOption] at hfound
    | ok result =>
      obtain ⟨d, hd, hcode⟩ :
          ∃ d ∈ result.diagnostics, d.code = .exportsTypesInvalidFormat := by
        simpa [hrun, Except.toOption] using hfound
      obtain ⟨target, expected, renamed, -, -, hrenames, -, hcures⟩ :=
        suggested_extensions_cure.2 _ _ _ _ result hrun d hd hcode
      exact ⟨tree, result, htree, hrun, d, hd, hcode, target, expected, renamed, hrenames,
        fun other => (hcures other).1⟩

example : FileFormat.sibling "/p.js/.js.js" .esm = "/p.js/.js.mjs" := by decide

end Pass

end PackageLint
