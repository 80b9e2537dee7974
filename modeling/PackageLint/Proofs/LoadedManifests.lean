import PackageLint.Proofs.JsonTexts
import PackageLint.Proofs.PublishedPlaces
import PackageLint.Proofs.Reads

/-!
# How loading a manifest ends

A load is meant to end in one of three ways: with the object in the text of the manifest, with the error
that there is no file to read, or with the error that its text is no object. There is a fourth. The
reader refuses an integer of more than 4300 digits with an error of its own, wherever in the text the
integer stands and whether or not the text is JSON, and the load hands this error on as it is. The search
for the nearest manifest, which reads the same files, takes such a text for one without a manifest.

## Main definitions

* `Manifest.Documented` — the ways in which a load is meant to end

## Main results

* `Manifest.load_documented_iff` — how every load ends, and when it is in one of these ways
-/

namespace PackageLint.Manifest

/-- The ways in which a load is meant to end, given the file of the manifest. -/
inductive Documented (tree : FileTree) (pkgDir : String) : Except LoadError Manifest → Prop
  | loaded {text : String} {manifest : Manifest} (hread : tree.contents (pathIn pkgDir) = .ok text)
      (hobject : Json.IsObjectDocument text.toList) (hvalue : Json.parse text = .ok (.obj manifest)) :
    Documented tree pkgDir (.ok manifest)
  | notFound (h : ¬tree.Readable (pathIn pkgDir)) : Documented tree pkgDir (.error (.notFound pkgDir))
  | malformed {text : String} {e : Json.ParseError} (hread : tree.contents (pathIn pkgDir) = .ok text)
      (hno : ¬Json.IsDocument text.toList) :
    Documented tree pkgDir (.error (.malformed (pathIn pkgDir) text e))
  | notObject {text : String} (hread : tree.contents (pathIn pkgDir) = .ok text)
      (hvalue : Json.IsDocument text.toList) (hno : ¬Json.IsObjectDocument text.toList) :
    Documented tree pkgDir (.error (.notObject (pathIn pkgDir)))

variable {tree : FileTree} {pkgDir text : String} {n : Nat}

theorem run_load (tree : FileTree) (pkgDir : String) :
    (load pkgDir).run tree
      = ⟨[], .ok (match tree.contents (pathIn pkgDir) with
          | .ok text => ofFile (pathIn pkgDir) text
          | .error _ => .error (.notFound pkgDir))⟩ := by
  rw [load, Check.bind_eq, Check.run_readFile_bind]
  cases tree.contents (pathIn pkgDir) <;> rfl

theorem ofFile_ok_iff {path : String} :
    (∃ manifest, ofFile path text = .ok manifest) ↔ Json.IsObjectDocument text.toList := by
  rw [← Json.parseChars_object_iff, ofFile, Json.parse]
  cases Json.parseChars text.toList with
  | error e => cases e <;> simp
  | ok value => cases value <;> simp

theorem ofFile_tooManyDigits_iff {path : String} :
    ofFile path text = .error (.tooManyDigits n) ↔ Json.IsCutDocument n text.toList := by
  rw [← Json.parseChars_tooManyDigits_iff, ofFile, Json.parse]
  cases Json.parseChars text.toList with
  | error e => cases e <;> simp
  | ok value => cases value <;> simp

/-- A text that is read ends the load as documented, unless an integer that is too long is met in it. -/
theorem documented_ofFile_iff (hread : tree.contents (pathIn pkgDir) = .ok text) :
    Documented tree pkgDir (ofFile (pathIn pkgDir) text) ↔ ∀ n, ¬Json.IsCutDocument n text.toList := by
  have hdocument := @Json.parseChars_ok_iff text.toList
  have hobject := @ofFile_ok_iff text (pathIn pkgDir)
  simp only [← @ofFile_tooManyDigits_iff text _ (pathIn pkgDir)]
  rw [ofFile, Json.parse] at hobject ⊢
  cases hparse : Json.parseChars text.toList with
  | error e =>
    rw [hparse] at hdocument
    cases e with
    | malformed problem position =>
      have hno : ¬Json.IsDocument text.toList := by simpa using hdocument
      exact iff_of_true (.malformed hread hno) (by simp)
    | tooManyDigits digits =>
      refine iff_of_false (fun h => ?_) (by simp)
      cases h
  | ok value =>
    rw [hparse] at hdocument hobject
    cases value with
    | obj manifest =>
      exact iff_of_true (.loaded hread (hobject.mp ⟨manifest, rfl⟩) hparse) (by simp)
    | _ =>
      have hno : ¬Json.IsObjectDocument text.toList := by simpa using hobject
      exact iff_of_true (.notObject hread (hdocument.mp ⟨_, rfl⟩) hno) (by simp)

/-- A load always ends and reports nothing. It ends as documented unless the reader meets an integer of
more digits than it takes, and then it ends with the error of the reader: this and no other outcome is
left over. That there is no file is told exactly when the file cannot be read, and there is a manifest
exactly when the text is an object. -/
theorem load_documented_iff (tree : MemoryTree) (pkgDir : String) :
    let read := tree.toFileTree.contents (pathIn pkgDir)
    ∃ outcome, (load pkgDir).run tree.toFileTree = ⟨[], .ok outcome⟩
      ∧ (Documented tree.toFileTree pkgDir outcome
        ↔ ∀ text, read = .ok text → ∀ n, ¬Json.IsCutDocument n text.toList)
      ∧ (∀ n, outcome = .error (.tooManyDigits n)
        ↔ ∃ text, read = .ok text ∧ Json.IsCutDocument n text.toList)
      ∧ ((∃ dir, outcome = .error (.notFound dir)) ↔ ¬tree.toFileTree.Readable (pathIn pkgDir))
      ∧ ((∃ manifest, outcome = .ok manifest)
        ↔ ∃ text, read = .ok text ∧ Json.IsObjectDocument text.toList) := by
  intro read
  refine ⟨_, run_load _ _, ?_⟩
  cases hread : tree.toFileTree.contents (pathIn pkgDir) with
  | error e =>
    have hno : ¬tree.toFileTree.Readable (pathIn pkgDir) := by
      rintro ⟨text, htext⟩
      simp [hread] at htext
    refine ⟨iff_of_true (.notFound hno) ?_, fun n => ?_, iff_of_true ⟨pkgDir, rfl⟩ hno, ?_⟩ <;>
      simp [read, hread]
  | ok text =>
    have hyes : tree.toFileTree.Readable (pathIn pkgDir) := ⟨text, hread⟩
    have hfound : ¬∃ dir, ofFile (pathIn pkgDir) text = .error (.notFound dir) := by
      rintro ⟨dir, h⟩
      rw [ofFile] at h
      split at h <;> simp at h
    refine ⟨?_, fun n => ?_, iff_of_false hfound (not_not.mpr hyes), ?_⟩
    · simpa [read, hread] using documented_ofFile_iff hread
    · simpa [read, hread] using ofFile_tooManyDigits_iff
    · simpa [read, hread] using ofFile_ok_iff

/-- An object with an integer of more digits than are read is cut there. -/
theorem isCutDocument_replicate (h : Numeral.maxDigits < n) :
    Json.IsCutDocument n ("\x7b\"a\":".toList ++ (List.replicate n '1' ++ ['\x7d'])) := by
  obtain ⟨m, rfl⟩ := Nat.exists_eq_add_one.mpr (Nat.zero_lt_of_lt h)
  have hno : Json.AreSpaces [] := by simp [Json.AreSpaces]
  have hwhole : Json.IsWhole (List.replicate (m + 1) '1') := by
    refine Or.inr ⟨⟨List.replicate_succ_ne_nil, fun c hc => ?_⟩, by simp [List.replicate_succ]⟩
    rw [List.eq_of_mem_replicate hc]
    decide
  have hends : ¬Json.Continues ['\x7d'] := Json.not_continues_of_head (by simp [Json.isDigit])
  have hkey : Json.IsName ['"', 'a', '"', ':'] :=
    .mk (.char (by decide) (by decide) (by decide) .close) hno hno
  exact ⟨[], _, hno,
    .object hno (.inField hkey (.integer (Or.inl (.mk hwhole List.length_replicate h hends)))), rfl⟩

/-- A load of an object with an integer of 4301 digits does not end as documented. -/
theorem long_integer_undocumented :
    let text := String.ofList ("\x7b\"a\":".toList ++ (List.replicate 4301 '1' ++ ['\x7d']))
    ∃ tree outcome, MemoryTree.ofFiles [("/p/package.json", text)] = .ok tree
      ∧ (load "/p").run tree.toFileTree = ⟨[], .ok outcome⟩
      ∧ outcome = .error (.tooManyDigits 4301) ∧ ¬Documented tree.toFileTree "/p" outcome := by
  intro text
  let tree : MemoryTree :=
    { files := [("/p/package.json", text)], dirs := [("/", ["p"]), ("/p", ["package.json"])] }
  have htree : ∀ text, MemoryTree.ofFiles [("/p/package.json", text)] = .ok
      { files := [("/p/package.json", text)], dirs := [("/", ["p"]), ("/p", ["package.json"])] } := by
    intro text
    cbv
  have hread : tree.toFileTree.contents (pathIn "/p") = .ok text := by
    have hpath : Path.normalize (pathIn "/p") = "/p/package.json" := by decide +kernel
    have hslash : MemoryTree.namesDirectory (pathIn "/p") = false := by decide +kernel
    have hfile : Assoc.get? (Path.normalize (pathIn "/p")) tree.files = some text := by
      rw [hpath]
      rfl
    exact MemoryTree.contents_eq_ok_iff.mpr ⟨hfile, hslash⟩
  have hcut : Json.IsCutDocument 4301 text.toList := by
    rw [String.toList_ofList]
    exact isCutDocument_replicate (by decide)
  obtain ⟨outcome, hrun, hdocumented, hlong, -⟩ := load_documented_iff tree "/p"
  exact ⟨tree, outcome, htree text, hrun, (hlong 4301).mpr ⟨text, hread, hcut⟩,
    fun h => hdocumented.mp h text hread 4301 hcut⟩

end PackageLint.Manifest
