import PackageLint.Proofs.Schedules

/-!
# Levels and strict mode

The level and the strict flag are read once, when all checks are over: no check knows them. So one
pass, at the level of suggestions and not strict, tells what every other pass over the same package
reports. Warnings are turned into errors before anything is left out. Done the other way round, a
strict pass at the level of errors would leave out warnings that count as errors, and a pass would
succeed or fail with its level.

## Main definitions

* `Pass.shown` — what is shown of findings at a level, in strict mode or not
* `Pass.Result.isRejected` — whether a pass fails, given what it finds at all levels

## Main results

* `Pass.run_eq_shown` — a pass shows what the pass at all levels finds
* `Pass.State.diagnostics_eq_shown` — so does every schedule of it
* `Pass.hasErrors_iff_isRejected` — whether it reports an error does not depend on the level
-/

namespace PackageLint.Pass

/-- What is shown of findings: in strict mode warnings as errors, then what is at or above a level. -/
def shown (level : Severity) (strict : Bool) (ds : List Diagnostic) : List Diagnostic :=
  (ds.map fun d => if strict then Log.escalateOne d else d).filter fun d => level.atLeast d.severity

/-- Whether findings make a pass fail: an error does, and in strict mode a warning too. -/
def Result.isRejected (strict : Bool) (base : Result) : Bool :=
  base.diagnostics.any fun d => d.severity = .error || (strict && d.severity = .warning)

theorem Result.isRejected_iff {strict : Bool} {base : Result} :
    base.isRejected strict = true
      ↔ (∃ d ∈ base.diagnostics, d.severity = .error)
        ∨ strict = true ∧ ∃ d ∈ base.diagnostics, d.severity = .warning := by
  simp only [isRejected, List.any_eq_true, Bool.or_eq_true, Bool.and_eq_true, decide_eq_true_eq]
  constructor
  · rintro ⟨d, hd, herror | ⟨hstrict, hwarning⟩⟩
    · exact Or.inl ⟨d, hd, herror⟩
    · exact Or.inr ⟨hstrict, d, hd, hwarning⟩
  · rintro (⟨d, hd, herror⟩ | ⟨hstrict, d, hd, hwarning⟩)
    · exact ⟨d, hd, Or.inl herror⟩
    · exact ⟨d, hd, Or.inr ⟨hstrict, hwarning⟩⟩

/-! ### What a log shows -/

theorem atLevel_logOf (options : Options) (ds : List Diagnostic) :
    (logOf options ds).atLevel options.level = shown options.level options.strict ds := by
  rw [logOf, Log.atLevel, shown]
  cases options.strict with
  | false => simp [Log.addAll, Log.empty]
  | true => simp [Log.addAll, Log.empty, Log.escalate]

/-- Errors are shown at every level, and only strict mode makes more of them. -/
theorem exists_error_shown (level : Severity) {strict : Bool} {ds : List Diagnostic} :
    (∃ d ∈ shown level strict ds, d.severity = .error)
      ↔ (∃ d ∈ ds, d.severity = .error) ∨ strict = true ∧ ∃ d ∈ ds, d.severity = .warning := by
  have hlevel : level.atLeast .error = true := by cases level <;> rfl
  constructor
  · rintro ⟨d, hd, herror⟩
    obtain ⟨e, he, rfl⟩ := List.mem_map.mp (List.mem_of_mem_filter hd)
    cases strict with
    | false => exact Or.inl ⟨e, he, herror⟩
    | true =>
      cases hseverity : e.severity with
      | error => exact Or.inl ⟨e, he, hseverity⟩
      | warning => exact Or.inr ⟨rfl, e, he, hseverity⟩
      | suggestion => simp [Log.escalateOne, hseverity, Severity.escalated] at herror
  · have hmem : ∀ e ∈ ds, (if strict then Log.escalateOne e else e).severity = .error →
        ∃ d ∈ shown level strict ds, d.severity = .error := by
      intro e he herror
      refine ⟨_, List.mem_filter.mpr ⟨List.mem_map.mpr ⟨e, he, rfl⟩, ?_⟩, herror⟩
      rw [herror, hlevel]
    rintro (⟨e, he, herror⟩ | ⟨hstrict, e, he, hwarning⟩)
    · refine hmem e he ?_
      split
      · simp [Log.escalateOne, herror, Severity.escalated]
      · exact herror
    · refine hmem e he ?_
      rw [if_pos hstrict]
      simp [Log.escalateOne, hwarning, Severity.escalated]

/-! ### Whole passes -/

theorem resultOf_eq_shown (options : Options) (manifest : Manifest) (report : Report) :
    let base := resultOf { published := options.published } manifest report
    resultOf options manifest report
      = { base with diagnostics := shown options.level options.strict base.diagnostics } := by
  intro base
  rw [diagnostics_resultOf, ← atLevel_logOf]
  rfl

/-- A pass shows what the pass at all levels finds, in the same order. -/
theorem run_eq_shown (tree : FileTree) (pkgDir : String) (options : Options) (workDir : String) :
    run tree pkgDir options workDir
      = (run tree pkgDir { published := options.published } workDir).map fun base =>
          { base with diagnostics := shown options.level options.strict base.diagnostics } := by
  rw [run, run]
  cases loaded pkgDir ((Manifest.load pkgDir).result tree) with
  | error e => rfl
  | ok manifest => exact congrArg Except.ok (resultOf_eq_shown options manifest _)

/-- Whether a pass reports an error can be told from the pass at all levels, whatever the level. -/
theorem hasErrors_iff_isRejected {tree : FileTree} {pkgDir workDir : String} (options : Options)
    {base result : Result}
    (hbase : run tree pkgDir { published := options.published } workDir = .ok base)
    (hresult : run tree pkgDir options workDir = .ok result) :
    result.hasErrors = base.isRejected options.strict := by
  rw [run_eq_shown, hbase] at hresult
  obtain rfl := Except.ok.inj hresult
  rw [Bool.eq_iff_iff, Result.isRejected_iff, ← exists_error_shown options.level]
  simp [Result.hasErrors]

/-- Every schedule shows at a level what it finds at all levels. -/
theorem State.diagnostics_eq_shown {tree : FileTree} {plan : Plan} {s : State}
    (h : Reaches tree (start plan) s) (options : Options) :
    s.diagnostics options
      = shown options.level options.strict
          (s.diagnostics { published := options.published }) := by
  have hbase : s.diagnostics { published := options.published } = s.log.findings := by
    rw [h.diagnostics_eq]
    exact diagnostics_resultOf options.published [] { findings := s.log.findings }
  rw [hbase, h.diagnostics_eq, atLevel_logOf]

end PackageLint.Pass
