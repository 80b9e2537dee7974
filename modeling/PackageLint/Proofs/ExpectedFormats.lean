import PackageLint.Check.FileFormat
import PackageLint.Proofs.Runs

/-!
# The format that a tree expects of a path

The search for the manifest in charge of a path never fails and reports nothing, so on one tree it is
a function, and with it the format that the tree expects of a path. The comparison of a file's text
with that format then has a closed form too.

## Main definitions

* `FileTree.nearestManifest?` — the manifest in charge of a path
* `FileTree.expectedFormat`, `FileTree.expectedDeclarationFormat`
* `FileFormat.findings` — what the comparison reports

## Main results

* `Manifest.run_expectedFormat`, `Manifest.run_expectedDeclarationFormat`
* `FileFormat.run_check` — the comparison reports that and yields the format of the text
-/

namespace PackageLint

namespace FileTree

/-- The manifest in a directory, when it is a readable JSON object. -/
def manifestIn? (tree : FileTree) (dir : String) : Option Manifest :=
  if tree.isThere (Path.join dir manifestName) then
    (tree.contents (Path.join dir manifestName)).toOption.bind Manifest.ofText?
  else none

/-- The manifest in charge of a path. -/
def nearestManifest? (tree : FileTree) (path : String) : Option Manifest :=
  (Path.ancestors path).findSome? tree.manifestIn?

/-- The format that a tree expects of a code file. -/
def expectedFormat (tree : FileTree) (path : String) : Format :=
  let path := Text.dropEnd path Manifest.platformEnding
  if Text.hasEnd path ".mjs" then .esm
  else if Text.hasEnd path ".cjs" then .cjs
  else Manifest.formatOf (tree.nearestManifest? path)

/-- The format that a tree gives to a declaration file. -/
def expectedDeclarationFormat (tree : FileTree) (path : String) : Format :=
  if Text.hasEnd path ".d.mts" then .esm
  else if Text.hasEnd path ".d.cts" then .cjs
  else Manifest.formatOf (tree.nearestManifest? path)

variable {tree : FileTree}

theorem manifestIn?_eq_some {dir : String} {manifest : Manifest}
    (h : tree.manifestIn? dir = some manifest) :
    ∃ text, tree.contents (Path.join dir manifestName) = .ok text
      ∧ Manifest.ofText? text = some manifest := by
  rw [manifestIn?] at h
  split at h
  · obtain ⟨text, htext, hmanifest⟩ := Option.bind_eq_some_iff.mp h
    cases hread : tree.contents (Path.join dir manifestName) with
    | error e => simp [hread, Except.toOption] at htext
    | ok found =>
      obtain rfl : found = text := by simpa [hread, Except.toOption] using htext
      exact ⟨found, rfl, hmanifest⟩
  · simp at h

/-- What makes a path expect ESM: its ending, or some manifest. -/
theorem expectedFormat_eq_esm {path : String} (h : tree.expectedFormat path = .esm) :
    Text.hasEnd (Text.dropEnd path Manifest.platformEnding) ".mjs" = true
      ∨ ∃ dir manifest, tree.manifestIn? dir = some manifest ∧ manifest.declaresEsm = true := by
  simp only [expectedFormat] at h
  split at h
  next hend => exact Or.inl hend
  next =>
    split at h
    · simp at h
    · cases hnearest : tree.nearestManifest? (Text.dropEnd path Manifest.platformEnding) with
      | none => simp [hnearest, Manifest.formatOf] at h
      | some manifest =>
        obtain ⟨dir, -, hdir⟩ := List.exists_of_findSome?_eq_some hnearest
        refine Or.inr ⟨dir, manifest, hdir, ?_⟩
        cases hdeclares : manifest.declaresEsm with
        | true => rfl
        | false => simp [hnearest, Manifest.formatOf, hdeclares] at h

end FileTree

namespace Manifest

theorem run_firstIn (tree : FileTree) (dirs : List String) :
    (firstIn dirs).run tree = ⟨[], .ok (dirs.findSome? tree.manifestIn?)⟩ := by
  induction dirs with
  | nil => rfl
  | cons dir rest ih =>
    rw [firstIn, Check.bind_eq, Check.run_isThere_bind, List.findSome?_cons, FileTree.manifestIn?]
    split
    next hthere =>
      rw [Check.bind_eq, Check.run_readFile_bind]
      cases tree.contents (Path.join dir manifestName) with
      | error e => exact ih
      | ok text =>
        simp only [Except.toOption, Option.bind_some]
        cases ofText? text with
        | none => exact ih
        | some manifest => rfl
    next => exact ih

theorem run_nearest (tree : FileTree) (path : String) :
    (nearest path).run tree = ⟨[], .ok (tree.nearestManifest? path)⟩ :=
  run_firstIn tree _

theorem run_inheritedFormat (tree : FileTree) (path : String) :
    (inheritedFormat path).run tree = ⟨[], .ok (formatOf (tree.nearestManifest? path))⟩ := by
  rw [inheritedFormat, Check.bind_eq, Check.run_bind_of_quiet (run_nearest tree path)]
  rfl

/-- The format that a tree expects of a code file is found without a report or a failure. -/
theorem run_expectedFormat (tree : FileTree) (path : String) :
    (Manifest.expectedFormat path).run tree = ⟨[], .ok (tree.expectedFormat path)⟩ := by
  simp only [Manifest.expectedFormat, FileTree.expectedFormat]
  split
  · rfl
  · split
    · rfl
    · exact run_inheritedFormat tree _

/-- The same for a declaration file. -/
theorem run_expectedDeclarationFormat (tree : FileTree) (path : String) :
    (Manifest.expectedDeclarationFormat path).run tree
      = ⟨[], .ok (tree.expectedDeclarationFormat path)⟩ := by
  simp only [Manifest.expectedDeclarationFormat, FileTree.expectedDeclarationFormat]
  split
  · rfl
  · split
    · rfl
    · exact run_inheritedFormat tree _

variable {P : Diagnostic → Prop}

theorem only_firstIn (dirs : List String) : (firstIn dirs).Only P := by
  induction dirs with
  | nil => exact .done trivial
  | cons dir rest ih =>
    refine (Check.only_isThere _).bind ?_
    intro there _
    split
    · refine (Check.only_readFile _).bind ?_
      intro answer _
      cases answer with
      | error e => exact ih
      | ok text =>
        simp only
        split
        · exact .done trivial
        · exact ih
    · exact ih

theorem only_inheritedFormat (path : String) : (inheritedFormat path).Only P :=
  (only_firstIn _).bind fun _ _ => .done trivial

theorem only_expectedFormat (path : String) : (Manifest.expectedFormat path).Only P := by
  rw [Manifest.expectedFormat]
  split
  · exact .done trivial
  · split
    · exact .done trivial
    · exact only_inheritedFormat _

theorem only_expectedDeclarationFormat (path : String) :
    (Manifest.expectedDeclarationFormat path).Only P := by
  rw [Manifest.expectedDeclarationFormat]
  split
  · exact .done trivial
  · split
    · exact .done trivial
    · exact only_inheritedFormat _

end Manifest

namespace FileFormat

/-- Whether a mismatch of a file whose text has a certain format is excused. -/
def isExcused (tree : FileTree) (path : String) (actual : Format) (leniency : Leniency) : Bool :=
  (leniency.bundlerEsm && decide (actual = .esm) && forBundlers path)
    || (leniency.rightSibling && tree.isThere (sibling path actual))

/-- What comparing the text of a file with the format expected of its path reports. -/
def findings (tree : FileTree) (path content : String) (location : Location)
    (leniency : Leniency := {}) (shown : Option String := none) : List Diagnostic :=
  let actual := Source.classify content
  let expected := tree.expectedFormat path
  if actual.mismatch expected && !isExcused tree path actual leniency then
    [mismatch path location actual expected shown]
  else []

/-- The comparison reports a mismatch that is not excused, and yields the format of the text. -/
theorem run_check (tree : FileTree) (path content : String) (location : Location)
    (leniency : Leniency) (shown : Option String) :
    (check path content location leniency shown).run tree
      = ⟨findings tree path content location leniency shown, .ok (Source.classify content)⟩ := by
  simp only [check, findings, isExcused, Check.bind_eq, Check.pure_eq]
  rw [Check.run_bind_of_quiet (Manifest.run_expectedFormat tree path)]
  cases hm : (Source.classify content).mismatch (tree.expectedFormat path) with
  | false => simp
  | true =>
    simp only [Bool.not_true, Bool.false_eq_true, if_false, Bool.true_and]
    by_cases hb : (leniency.bundlerEsm && decide (Source.classify content = .esm)
        && forBundlers path) = true
    · simp [hb]
    · rw [if_neg hb]
      cases hs : leniency.rightSibling with
      | false => simp [hb]
      | true =>
        simp only [if_true, Check.run_isThere_bind, Bool.true_and]
        cases tree.isThere (sibling path (Source.classify content)) <;> simp [hb]

theorem only_check {P : Diagnostic → Prop} (path content : String) (location : Location)
    (leniency : Leniency) (shown : Option String)
    (h : ∀ actual expected, P (mismatch path location actual expected shown)) :
    (check path content location leniency shown).Only P := by
  refine (Manifest.only_expectedFormat path).bind ?_
  intro expected _
  split
  · exact .done trivial
  · split
    · exact .done trivial
    · have hreport : ∀ excused : Bool, Check.Only P
          (if excused = true then pure (Source.classify content)
          else do
            Check.add (mismatch path location (Source.classify content) expected shown)
            pure (Source.classify content)) := by
        intro excused
        split
        · exact .done trivial
        · exact .report (h _ _) (.done trivial)
      simp only
      split
      · exact (Check.only_isThere _).bind fun excused _ => hreport excused
      · exact hreport false

end FileFormat

end PackageLint
