import Mathlib.Data.List.Basic
import PackageLint.Diagnostic.Log

/-!
# Runs of a log

A log is changed by adding findings and by turning warnings into errors, and read at some level in
between. Every finding stays at its place, and only its severity ever changes: once, if it is a warning
and is there when warnings are turned into errors for the first time. What is added later keeps its
severity, however often that is asked for again. Reading leaves no trace.

## Main definitions

* `Log.Step`, `Log.step`, `Log.run` — what is done to a log, and what it returns
* `Log.added`, `Log.escalates` — the findings that steps add, and whether they turn warnings into errors
* `Log.promoted` — what becomes of a finding
* `Severity.included` — the severities that a level takes in

## Main results

* `Log.findings_step`, `Log.findings_run` — what becomes of the findings that are there
* `Log.findings_after_run` — every finding of a run, and every view of it
-/

namespace PackageLint

/-- The severities that a level takes in. -/
def Severity.included : Severity → List Severity
  | .error => [.error]
  | .warning => [.error, .warning]
  | .suggestion => [.error, .warning, .suggestion]

theorem Severity.atLeast_eq_decide (level s : Severity) :
    level.atLeast s = decide (s ∈ level.included) := by
  cases level <;> cases s <;> rfl

namespace Log

/-! ### Steps and runs -/

/-- What is done to a log. -/
inductive Step
  | add (finding : Diagnostic)
  | escalate
  | filter (level : Severity)

/-- The log after a step, and the findings that the step returns. -/
def step (log : Log) : Step → Log × List Diagnostic
  | .add d => (log.add d, [d])
  | .escalate => (log.escalate, [])
  | .filter level => (log, log.atLevel level)

/-- The log after a sequence of steps, and what each of them returns. -/
def run (log : Log) : List Step → Log × List (List Diagnostic)
  | [] => (log, [])
  | s :: rest =>
    let next := step log s
    let last := run next.1 rest
    (last.1, next.2 :: last.2)

/-- The findings that steps add. -/
def added (steps : List Step) : List Diagnostic :=
  steps.filterMap fun
    | .add d => some d
    | _ => none

/-- Whether steps turn warnings into errors. -/
def escalates (steps : List Step) : Bool :=
  steps.any fun
    | .escalate => true
    | _ => false

/-- What becomes of a finding, given whether warnings have been turned into errors before and whether
they are now. -/
def promoted (before now : Bool) (d : Diagnostic) : Diagnostic :=
  if !before && now then escalateOne d else d

@[simp] theorem promoted_false (before : Bool) : promoted before false = id := by
  funext d
  simp [promoted]

/-- Of two occasions the first one counts. -/
theorem promoted_promoted (before first second : Bool) (d : Diagnostic) :
    promoted (before || first) second (promoted before first d)
      = promoted before (first || second) d := by
  cases before <;> cases first <;> simp [promoted]

theorem promoted_eq (before now : Bool) (d : Diagnostic) :
    promoted before now d
      = { d with severity :=
            if d.severity = .warning ∧ before = false ∧ now = true then .error else d.severity } := by
  rw [promoted]
  cases before <;> cases now <;> simp [escalateOne, Severity.escalated]
  cases d.severity <;> rfl

theorem added_append (a b : List Step) : added (a ++ b) = added a ++ added b :=
  List.filterMap_append

theorem escalates_cons (s : Step) (steps : List Step) :
    escalates (s :: steps) = (escalates [s] || escalates steps) := by
  simp [escalates]

theorem run_append (log : Log) (a b : List Step) :
    run log (a ++ b)
      = ((run (run log a).1 b).1, (run log a).2 ++ (run (run log a).1 b).2) := by
  induction a generalizing log with
  | nil => rfl
  | cons s a ih => simp only [List.cons_append, run, ih]

theorem length_run (log : Log) (steps : List Step) : (run log steps).2.length = steps.length := by
  induction steps generalizing log with
  | nil => rfl
  | cons s steps ih => simp only [run, List.length_cons, ih]

/-! ### What a run preserves -/

theorem escalated_step (log : Log) (s : Step) :
    (step log s).1.escalated = (log.escalated || escalates [s]) := by
  cases s with
  | add d => simp [step, add, escalates]
  | escalate =>
    cases h : log.escalated <;> simp [step, escalate, escalates, h]
  | filter level => simp [step, escalates]

theorem findings_step (log : Log) (s : Step) :
    (step log s).1.findings
      = log.findings.map (promoted log.escalated (escalates [s])) ++ added [s] := by
  cases s with
  | add d => simp [step, add, escalates, added]
  | escalate =>
    have hpromoted (e : Bool) : promoted e true = if e then id else escalateOne := by
      cases e <;> rfl
    cases h : log.escalated <;> simp [step, escalate, escalates, added, h, hpromoted]
  | filter level => simp [step, escalates, added]

theorem escalated_run (log : Log) (steps : List Step) :
    (run log steps).1.escalated = (log.escalated || escalates steps) := by
  induction steps generalizing log with
  | nil => simp [run, escalates]
  | cons s steps ih => rw [run, ih, escalated_step, escalates_cons s steps, Bool.or_assoc]

/-- A run adds to the findings that are there, and promotes them where warnings have not been turned
into errors yet. -/
theorem findings_run (log : Log) (steps : List Step) :
    ∃ new, new.length = (added steps).length
      ∧ (run log steps).1.findings
          = log.findings.map (promoted log.escalated (escalates steps)) ++ new := by
  induction steps generalizing log with
  | nil => exact ⟨[], rfl, by simp [run, escalates]⟩
  | cons s steps ih =>
    obtain ⟨new, hlength, hnew⟩ := ih (step log s).1
    refine ⟨(added [s]).map (promoted (step log s).1.escalated (escalates steps)) ++ new, ?_, ?_⟩
    · have hadded : added (s :: steps) = added [s] ++ added steps := added_append [s] steps
      rw [hadded, List.length_append, List.length_append, List.length_map, hlength]
    · rw [run, hnew, findings_step, List.map_append, List.map_map, escalates_cons s steps,
        List.append_assoc]
      congr 2
      funext d
      rw [Function.comp_apply, escalated_step, promoted_promoted]

theorem length_findings_run (steps : List Step) :
    (run empty steps).1.findings.length = (added steps).length := by
  obtain ⟨new, hlength, hnew⟩ := findings_run empty steps
  rw [hnew, ← hlength]
  simp [empty]

/-- What becomes of a finding depends on where it is added. -/
theorem getElem?_findings_run (before after : List Step) (d : Diagnostic) :
    (run empty (before ++ .add d :: after)).1.findings[(added before).length]?
      = some (promoted (escalates before) (escalates after) d) := by
  obtain ⟨new, -, hnew⟩ := findings_run (step (run empty before).1 (.add d)).1 after
  have hescalated : (run empty before).1.escalated = escalates before := by
    rw [escalated_run]
    rfl
  rw [run_append, run, hnew, ← length_findings_run before]
  simp [step, add, hescalated]

/-! ### Views -/

theorem atLevel_eq_filter (log : Log) (level : Severity) :
    log.atLevel level = log.findings.filter fun d => decide (d.severity ∈ level.included) := by
  simp only [atLevel, Severity.atLeast_eq_decide]

theorem atLevel_sublist {level lower : Severity} (h : level.included ⊆ lower.included) (log : Log) :
    (log.atLevel level).Sublist (log.atLevel lower) := by
  rw [atLevel_eq_filter, atLevel_eq_filter]
  exact List.monotone_filter_right _ fun d hd => by
    simp only [decide_eq_true_eq] at hd ⊢
    exact h hd

theorem run_filter (log : Log) (before after : List Step) (level : Severity) :
    (run log (before ++ .filter level :: after)).1 = (run log (before ++ after)).1
      ∧ (run log (before ++ .filter level :: after)).2[before.length]?
          = some ((run log before).1.atLevel level) := by
  rw [run_append, run_append]
  refine ⟨rfl, ?_⟩
  rw [← length_run log before, List.getElem?_append_right (Nat.le_refl _), Nat.sub_self]
  rfl

/-- A run leaves one finding for every one that was added, in the same order. It is as it was added, but
for a warning that was there when warnings were first turned into errors. Reading a log at a level returns
the findings of the severities that the level takes in, and leaves the log as it was. What is returned
at a level is a part of what is returned at a lower one, and at the lowest nothing is missing. -/
theorem findings_after_run (steps : List Step) :
    (run empty steps).1.findings.length = (added steps).length
      ∧ (∀ before d after, steps = before ++ .add d :: after →
          (run empty steps).1.findings[(added before).length]?
            = some { d with severity :=
                if d.severity = .warning ∧ escalates before = false ∧ escalates after = true
                then .error else d.severity })
      ∧ (∀ before level after, steps = before ++ .filter level :: after →
          (run empty steps).2[before.length]?
              = some ((run empty before).1.findings.filter fun d =>
                  decide (d.severity ∈ level.included))
            ∧ (run empty (before ++ [.filter level])).1 = (run empty before).1
            ∧ (run empty steps).1 = (run empty (before ++ after)).1)
      ∧ ((run empty steps).1.atLevel .error).Sublist ((run empty steps).1.atLevel .warning)
      ∧ ((run empty steps).1.atLevel .warning).Sublist ((run empty steps).1.atLevel .suggestion)
      ∧ (run empty steps).1.atLevel .suggestion = (run empty steps).1.findings := by
  refine ⟨length_findings_run steps, ?_, ?_, atLevel_sublist (by decide) _,
    atLevel_sublist (by decide) _, ?_⟩
  · rintro before d after rfl
    rw [getElem?_findings_run, promoted_eq]
  · rintro before level after rfl
    obtain ⟨hlog, hreturned⟩ := run_filter empty before after level
    refine ⟨?_, ?_, hlog⟩
    · rw [hreturned, atLevel_eq_filter]
    · have hlast := (run_filter empty before [] level).1
      rwa [List.append_nil] at hlast
  · rw [atLevel_eq_filter]
    refine List.filter_eq_self.mpr fun d _ => ?_
    cases d.severity <;> rfl

/-- A warning becomes an error once warnings are turned into errors, and one that is added later stays a
warning, even when that is asked for again. -/
theorem later_warning_stays :
    let early : Diagnostic := { code := .fileDoesNotExist, severity := .warning, location := ["main"] }
    let late : Diagnostic := { early with location := ["bin"] }
    let steps : List Step := [.add early, .filter .error, .escalate, .add late, .escalate]
    (run empty steps).1.findings.length = 2
      ∧ (run empty steps).1.findings[0]? = some { early with severity := .error }
      ∧ (run empty steps).1.findings[1]? = some late
      ∧ (run empty steps).2[1]? = some [] := by
  intro early late steps
  obtain ⟨hlength, hfate, hview, -⟩ := findings_after_run steps
  refine ⟨hlength, hfate [] early _ rfl, ?_, (hview [.add early] .error _ rfl).1⟩
  exact hfate [.add early, .filter .error, .escalate] late [.escalate] rfl

end Log

end PackageLint
