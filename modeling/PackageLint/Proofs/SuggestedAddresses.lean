import PackageLint.Proofs.CompletedAddresses
import PackageLint.Proofs.FormatFindings
import PackageLint.Proofs.TaskCodes

/-!
# Suggested addresses

For the address of a repository on one of two sites a completion is suggested. A manifest to which the
suggestion has been applied should be left in peace. It is, exactly when the completion is accepted as
an address; otherwise the suggestion leads to a warning in its place, which is shown whenever warnings
are.

Whatever else a manifest holds does not matter: findings with the code of repositories come from the
check of this field alone.

## Main definitions

* `RepositoryField.IsAt` — a manifest gives the address of a git repository
* `RepositoryField.withAddress` — the manifest with another address

## Main results

* `RepositoryField.ofAddress_eq_nil_iff` — what is accepted is left in peace
* `Pass.mem_repository_iff` — the findings of a pass about the repository
* `Pass.suggested_address_accepted_iff` — the suggestions that can be applied
-/

namespace PackageLint

open Repository Text

/-! ### The field -/

namespace RepositoryField

variable {manifest : Manifest} {fields : Json.Fields} {url other : String} {d : Diagnostic}

/-- Whether a manifest gives an address as that of a git repository. -/
structure IsAt (manifest : Manifest) (fields : Json.Fields) (url : String) : Prop where
  get? : Assoc.get? "repository" manifest = some (.obj fields)
  isGit : isGit (Json.field fields "type") = true
  address : Json.field fields "url" = .str url

/-- The fields of a repository with another address. -/
def withUrl (fields : Json.Fields) (url : String) : Json.Fields := Assoc.put "url" (.str url) fields

/-- A manifest whose repository has another address. -/
def withAddress (manifest : Manifest) (fields : Json.Fields) (url : String) : Manifest :=
  Assoc.put "repository" (.obj (withUrl fields url)) manifest

/-- The suggestion of an address. -/
def suggestion (value : String) : Diagnostic :=
  invalid .suggestion ["repository", "url"]
    [("type", .str "shorthand-git-sites"), ("suggest_value", .str value)]

theorem IsAt.withAddress (h : IsAt manifest fields url) (other : String) :
    IsAt (withAddress manifest fields other) (withUrl fields other) other where
  get? := Assoc.get?_put_self _ _ _
  isGit := by
    have htype : Json.field (withUrl fields other) "type" = Json.field fields "type" := by
      rw [Json.field, Json.field, withUrl, Assoc.get?_put_of_ne (by decide)]
    rw [htype]
    exact h.isGit
  address := by rw [Json.field, withUrl, Assoc.get?_put_self]; rfl

theorem IsAt.findings_eq (h : IsAt manifest fields url) (hne : url ≠ "") :
    findings manifest = ofAddress url := by
  rw [findings, h.get?]
  simp only [h.address, h.isGit, hne, decide_false, Bool.not_true, Bool.or_false, Bool.false_eq_true,
    if_false]

/-- What is accepted is left in peace, and nothing else. -/
theorem ofAddress_eq_nil_iff : ofAddress url = [] ↔ IsAccepted url := by
  rw [ofAddress, IsAccepted]
  cases isGitAddress url <;> cases isRetiredGithubAddress url <;>
    cases isIncompleteSiteAddress url <;> simp

theorem ofAddress_of_offered (h : IsOffered url) : ofAddress url = [suggestion (complete url)] := by
  obtain ⟨hgit, hretired, hsite⟩ := h
  simp [ofAddress, hgit, hretired, hsite, suggestion]

/-- What is no address is warned about. -/
theorem ofAddress_of_not_isGitAddress (h : ¬isGitAddress url = true) :
    ofAddress url
      = [invalid .warning ["repository", "url"] [("type", .str "invalid-git-url")]] := by
  simp [ofAddress, h]

end RepositoryField

/-! ### Whole passes -/

namespace Pass

open RepositoryField

variable {tree : FileTree} {ctx : Context} {d : Diagnostic}

/-- The findings of a pass about the repository are those of the field. -/
theorem mem_repository_iff (hcode : d.code = .invalidRepositoryValue) :
    d ∈ (runPlan tree (plan ctx)).findings ↔ d ∈ RepositoryField.findings ctx.manifest := by
  rw [findings_runPlan, List.mem_append]
  constructor
  · rintro (hd | hd)
    · refine (repository_or_code_of_mem hd).resolve_right fun hother => ?_
      have hcodes : Code.invalidRepositoryValue ∉ otherPlanCodes := by decide
      exact hcodes (hcode ▸ hother)
    · obtain ⟨task, htask, hd⟩ := List.mem_flatMap.mp hd
      have hnone : ∀ {codes : List Code}, task.Reports codes → .invalidRepositoryValue ∈ codes :=
        fun hreports => hcode ▸ hreports.code_mem hd
      rcases task_cases htask with hleaf | hroot | hplain
      · obtain ⟨field, hreports⟩ := hleaf.reports
        exact absurd (hnone hreports) (by cases field <;> decide)
      · exact absurd (hnone hroot.reports) (by decide)
      · exact absurd (hnone hplain) (by decide)
  · intro hd
    rw [findings_plan]
    simp [hd]

/-- Whether anything is reported about the repository depends on the field alone, and on its severity. -/
theorem reports_repository_iff {pkgDir workDir : String} {options : Options} {result : Result}
    (hrun : run tree pkgDir options workDir = .ok result) :
    (∃ d ∈ result.diagnostics, d.code = .invalidRepositoryValue)
      ↔ ∃ found ∈ RepositoryField.findings result.manifest,
          found.code = .invalidRepositoryValue
            ∧ options.level.atLeast (options.shown found).severity = true := by
  obtain ⟨manifest, -, rfl⟩ := run_eq_ok_iff.mp hrun
  constructor
  · rintro ⟨d, hd, hcode⟩
    obtain ⟨⟨found, hfound, rfl⟩, hlevel⟩ := mem_diagnostics_resultOf.mp hd
    rw [code_shown] at hcode
    exact ⟨found, (mem_repository_iff hcode).mp hfound, hcode, hlevel⟩
  · rintro ⟨found, hfound, hcode, hlevel⟩
    refine ⟨options.shown found, mem_diagnostics_resultOf.mpr
      ⟨⟨found, (mem_repository_iff hcode).mpr hfound, rfl⟩, hlevel⟩, ?_⟩
    rw [code_shown, hcode]

/-- A completion is accepted as an address unless the protocol is bare git or the text ends with a line
feed. It is complete in every case, and it is suggested wherever the address is given. Applied to the
manifest, it leaves nothing to report about the repository just if it is accepted, or warnings are not
shown. -/
theorem suggested_address_accepted_iff {url : String} (h : IsOffered url) :
    (IsAccepted (complete url) ↔ ¬hasStart url "git://" = true ∧ ¬hasEnd url "\n" = true)
      ∧ complete (complete url) = complete url
      ∧ ∀ manifest fields, IsAt manifest fields url →
          RepositoryField.findings manifest = [suggestion (complete url)]
            ∧ ∀ (tree : FileTree) (pkgDir workDir : String) (options : Options) (result : Result),
              run tree pkgDir options workDir = .ok result →
              result.manifest = withAddress manifest fields (complete url) →
                ((∀ d ∈ result.diagnostics, d.code ≠ .invalidRepositoryValue)
                  ↔ IsAccepted (complete url) ∨ ¬options.showsWarnings) := by
  have hparse : (parse? url).isSome = true := by
    have hgit := h.1
    rw [isGitAddress, Bool.and_eq_true] at hgit
    exact hgit.1
  obtain ⟨haccepted, hgit⟩ := isAccepted_complete_iff hparse
  refine ⟨haccepted, complete_complete_of_parse? hparse, fun manifest fields hat => ⟨?_, ?_⟩⟩
  · have hne : url ≠ "" := by
      rintro rfl
      exact absurd hparse (by decide)
    rw [hat.findings_eq hne, ofAddress_of_offered h]
  · intro tree pkgDir workDir options result hrun hresult
    have hfindings : RepositoryField.findings result.manifest = ofAddress (complete url) := by
      rw [hresult, (hat.withAddress _).findings_eq (complete_ne_empty url)]
    have hreports := reports_repository_iff hrun
    rw [hfindings] at hreports
    have hnone : (∀ d ∈ result.diagnostics, d.code ≠ .invalidRepositoryValue)
        ↔ ¬∃ d ∈ result.diagnostics, d.code = .invalidRepositoryValue := by
      simp only [not_exists, not_and, ne_eq]
    rw [hnone, hreports]
    by_cases hok : IsAccepted (complete url)
    · simp [ofAddress_eq_nil_iff.mpr hok, hok]
    · rw [ofAddress_of_not_isGitAddress (mt hgit.mpr hok)]
      simp [hok, invalid, shown_warning_iff]

/-- What is suggested for an address over bare git is refused, and what is suggested in place of the
short form of an address is accepted. -/
theorem bare_protocol_suggestion_refused :
    (IsOffered "git://gitlab.com/user/repo.git"
        ∧ complete "git://gitlab.com/user/repo.git" = "git+git://gitlab.com/user/repo.git"
        ∧ ¬IsAccepted "git+git://gitlab.com/user/repo.git")
      ∧ IsOffered "git@github.com:user/repo"
      ∧ complete "git@github.com:user/repo" = "git+ssh://git@github.com/user/repo.git"
      ∧ IsAccepted "git+ssh://git@github.com/user/repo.git"
      ∧ RepositoryField.findings
          [("repository", .obj [("type", .str "git"), ("url", .str "git@github.com:user/repo")])]
        = [suggestion "git+ssh://git@github.com/user/repo.git"] := by
  have hbare : IsOffered "git://gitlab.com/user/repo.git" := by decide +kernel
  have hshort : IsOffered "git@github.com:user/repo" := by decide +kernel
  have hbarecomplete :
      complete "git://gitlab.com/user/repo.git" = "git+git://gitlab.com/user/repo.git" := by
    decide +kernel
  have hshortcomplete :
      complete "git@github.com:user/repo" = "git+ssh://git@github.com/user/repo.git" := by
    decide +kernel
  obtain ⟨hrefused, -, -⟩ := suggested_address_accepted_iff hbare
  obtain ⟨haccepted, -, hfield⟩ := suggested_address_accepted_iff hshort
  rw [hbarecomplete] at hrefused
  rw [hshortcomplete] at haccepted hfield
  refine ⟨⟨hbare, hbarecomplete, fun h => absurd (hrefused.mp h).1 (by decide +kernel)⟩, hshort,
    hshortcomplete, haccepted.mpr (by decide +kernel), ?_⟩
  exact (hfield _ _ ⟨rfl, by decide, rfl⟩).1

end Pass

end PackageLint
