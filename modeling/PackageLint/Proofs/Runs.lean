import PackageLint.Pass.Run

/-!
# What runs of checks report

A check is a tree of questions, so what it may report can be said in two ways: over all answers, by
recursion on the check, or on one tree of files, by running it. The first needs no tree and serves
for what a step never does; the second serves for what it does.

## Main definitions

* `Check.Meets` — every finding and every value of a check has a property, whatever is answered
* `Task.findings` — the findings of a task with those of the checks it leaves

## Main results

* `Check.mem_findings_bind` — a finding of a sequence comes from one of its parts
* `Check.Meets.bind` — properties of a sequence from those of its parts
* `Pass.findings_runPlan` — a pass reports what its plan shows and what its tasks find
* `Pass.run_eq_ok_iff` — a pass succeeds exactly where its manifest loads
* `Pass.diagnostics_perm` — what is reported depends on the findings, not on their order
-/

namespace PackageLint

namespace Check

variable {α β γ : Type}

/-! ### Sequences -/

theorem bind_assoc (c : Check α) (f : α → Check β) (g : β → Check γ) :
    (c.bind f).bind g = c.bind fun a => (f a).bind g := by
  induction c with
  | done a => rfl
  | fail e => rfl
  | report d next ih => simp only [bind, ih]
  | ask q next ih =>
    simp only [bind]
    congr 1
    funext answer
    exact ih answer

@[simp] theorem run_fail (tree : FileTree) (e : Failure) :
    (Check.fail e : Check α).run tree = ⟨[], .error e⟩ := rfl

@[simp] theorem run_isThere (tree : FileTree) (path : String) :
    (isThere path).run tree = ⟨[], .ok (tree.isThere path)⟩ := rfl

@[simp] theorem run_isDir (tree : FileTree) (path : String) :
    (isDir path).run tree = ⟨[], .ok (tree.isDir path)⟩ := rfl

@[simp] theorem run_readFile (tree : FileTree) (path : String) :
    (readFile path).run tree = ⟨[], .ok (tree.contents path)⟩ := rfl

/-- What follows a check that ends with a value. -/
theorem run_bind_of_ok {tree : FileTree} {c : Check α} {ds : List Diagnostic} {a : α}
    (h : c.run tree = ⟨ds, .ok a⟩) (f : α → Check β) :
    (c.bind f).run tree = ⟨ds ++ ((f a).run tree).findings, ((f a).run tree).result⟩ := by
  rw [run_bind, h]

/-- A check that reports nothing only hands on its value. -/
theorem run_bind_of_quiet {tree : FileTree} {c : Check α} {a : α}
    (h : c.run tree = ⟨[], .ok a⟩) (f : α → Check β) :
    (c.bind f).run tree = (f a).run tree := by
  rw [run_bind_of_ok h]
  rfl

theorem run_bind_of_error {tree : FileTree} {c : Check α} {ds : List Diagnostic} {e : Failure}
    (h : c.run tree = ⟨ds, .error e⟩) (f : α → Check β) :
    (c.bind f).run tree = ⟨ds, .error e⟩ := by
  rw [run_bind, h]

@[simp] theorem run_isThere_bind (tree : FileTree) (path : String) (f : Bool → Check β) :
    ((isThere path).bind f).run tree = (f (tree.isThere path)).run tree := rfl

@[simp] theorem run_isDir_bind (tree : FileTree) (path : String) (f : Bool → Check β) :
    ((isDir path).bind f).run tree = (f (tree.isDir path)).run tree := rfl

@[simp] theorem run_readFile_bind (tree : FileTree) (path : String)
    (f : Except FileError String → Check β) :
    ((readFile path).bind f).run tree = (f (tree.contents path)).run tree := rfl

@[simp] theorem run_add_bind (tree : FileTree) (d : Diagnostic) (f : Unit → Check β) :
    ((add d).bind f).run tree = ⟨d :: ((f ()).run tree).findings, ((f ()).run tree).result⟩ := rfl

/-- The findings of a sequence are those of its first part, and those of the part that follows where
there is one. -/
theorem findings_bind (tree : FileTree) (c : Check α) (f : α → Check β) :
    (c.bind f).findings tree
      = c.findings tree ++
          match c.result tree with
          | .ok a => (f a).findings tree
          | .error _ => [] := by
  simp only [findings, result, run_bind]
  cases (c.run tree).result <;> simp

theorem mem_findings_bind {tree : FileTree} {c : Check α} {f : α → Check β} {d : Diagnostic} :
    d ∈ (c.bind f).findings tree
      ↔ d ∈ c.findings tree ∨ ∃ a, c.result tree = .ok a ∧ d ∈ (f a).findings tree := by
  rw [findings_bind, List.mem_append]
  refine or_congr_right ?_
  cases c.result tree with
  | ok a => simp
  | error e => simp

/-- What follows does not count when it reports nothing. -/
theorem findings_bind_of_silent {tree : FileTree} (c : Check α) {f : α → Check β}
    (hf : ∀ a, (f a).findings tree = []) : (c.bind f).findings tree = c.findings tree := by
  rw [findings_bind]
  cases c.result tree with
  | ok a => simp [hf]
  | error e => simp

/-! ### What a check may do -/

/-- Every finding that a check may report has the property `P`, and every value that it may end with
the property `Q`, whatever is answered. -/
inductive Meets (P : Diagnostic → Prop) (Q : α → Prop) : Check α → Prop
  | done {a : α} (h : Q a) : Meets P Q (.done a)
  | fail (e : Failure) : Meets P Q (.fail e)
  | report {d : Diagnostic} {next : Check α} (hd : P d) (h : Meets P Q next) :
      Meets P Q (.report d next)
  | ask {q : Question} {next : q.Answer → Check α} (h : ∀ answer, Meets P Q (next answer)) :
      Meets P Q (.ask q next)

/-- Every finding that a check may report has the property `P`. -/
abbrev Only (P : Diagnostic → Prop) (c : Check α) : Prop := c.Meets P fun _ => True

variable {P P' : Diagnostic → Prop} {Q Q' : α → Prop}

theorem Meets.imp {c : Check α} (h : c.Meets P Q) (hP : ∀ d, P d → P' d) (hQ : ∀ a, Q a → Q' a) :
    c.Meets P' Q' := by
  induction h with
  | done h => exact .done (hQ _ h)
  | fail e => exact .fail e
  | report hd _ ih => exact .report (hP _ hd) ih
  | ask _ ih => exact .ask ih

/-- What a sequence may do follows from what its parts may do. -/
theorem Meets.bind {R : β → Prop} {c : Check α} {f : α → Check β} (h : c.Meets P Q)
    (hf : ∀ a, Q a → (f a).Meets P R) : (c.bind f).Meets P R := by
  induction h with
  | done h => exact hf _ h
  | fail e => exact .fail e
  | report hd _ ih => exact .report hd ih
  | ask _ ih => exact .ask ih

theorem Meets.only {c : Check α} (h : c.Meets P Q) : c.Only P := h.imp (fun _ => id) fun _ _ => trivial

theorem only_pure (a : α) : (pure a : Check α).Only P := .done trivial

/-- What a check does on a tree is among what it may do. -/
theorem Meets.of_mem {c : Check α} (h : c.Meets P Q) {tree : FileTree} {d : Diagnostic}
    (hd : d ∈ c.findings tree) : P d := by
  induction h with
  | done _ => exact absurd hd List.not_mem_nil
  | fail e => exact absurd hd List.not_mem_nil
  | report hd' _ ih =>
    rcases List.mem_cons.mp hd with rfl | hd
    · exact hd'
    · exact ih hd
  | ask _ ih => exact ih _ hd

theorem Meets.of_result {c : Check α} (h : c.Meets P Q) {tree : FileTree} {a : α}
    (ha : c.result tree = .ok a) : Q a := by
  induction h with
  | done h =>
    obtain rfl := Except.ok.inj ha
    exact h
  | fail e => simp [result] at ha
  | report _ _ ih => exact ih ha
  | ask _ ih => exact ih _ ha

theorem only_add {d : Diagnostic} (h : P d) : (add d).Only P := .report h (.done trivial)

theorem only_isThere (path : String) : (isThere path).Only P := .ask fun _ => .done trivial

theorem only_isDir (path : String) : (isDir path).Only P := .ask fun _ => .done trivial

theorem only_readFile (path : String) : (readFile path).Only P := .ask fun _ => .done trivial

theorem only_readDir (path : String) : (readDir path).Only P := by
  refine .ask fun answer => ?_
  cases answer with
  | ok names => exact .done trivial
  | error e => exact .fail _

end Check

/-! ### Tasks -/

/-- The findings of a task with those of the checks it leaves. -/
def Task.findings (tree : FileTree) (task : Task) : List Diagnostic :=
  task.check.findings tree ++
    match task.check.result tree with
    | .ok batch => batch.checks.flatMap fun check => check.findings tree
    | .error _ => []

theorem Task.findings_single (tree : FileTree) (label : String) (check : Check Unit) :
    (Task.single label check).findings tree = check.findings tree := by
  simp only [Task.findings, Task.single, Check.findings, Check.result, Check.run_bind]
  cases (check.run tree).result <;> simp

theorem Task.mem_findings {tree : FileTree} {task : Task} {d : Diagnostic} :
    d ∈ task.findings tree
      ↔ d ∈ task.check.findings tree
        ∨ ∃ batch, task.check.result tree = .ok batch
          ∧ ∃ check ∈ batch.checks, d ∈ check.findings tree := by
  rw [Task.findings, List.mem_append]
  refine or_congr_right ?_
  cases task.check.result tree with
  | ok batch => simp
  | error e => simp

/-- What a task may report, when neither its check nor one that it leaves reports anything else. -/
theorem Task.of_mem_findings {P : Diagnostic → Prop} {task : Task}
    (h : task.check.Meets P fun batch => ∀ check ∈ batch.checks, check.Only P) {tree : FileTree}
    {d : Diagnostic} (hd : d ∈ task.findings tree) : P d := by
  rcases Task.mem_findings.mp hd with hd | ⟨batch, hbatch, check, hcheck, hd⟩
  · exact h.of_mem hd
  · exact (h.of_result hbatch check hcheck).of_mem hd

namespace Pass

/-! ### Plans -/

@[simp] theorem findings_append (a b : Report) :
    (a ++ b).findings = a.findings ++ b.findings := rfl

theorem findings_runChecks (tree : FileTree) (group : String) (number : Nat)
    (checks : List (Check Unit)) :
    (runChecks tree group number checks).findings
      = checks.flatMap fun check => check.findings tree := by
  induction checks generalizing number with
  | nil => rfl
  | cons check rest ih =>
    rw [runChecks, findings_append, ih]
    rfl

theorem findings_runTask (tree : FileTree) (number : Nat) (task : Task) :
    (runTask tree number task).findings = task.findings tree := by
  simp only [runTask, findings_append, Task.findings, Check.findings, Check.result]
  cases (task.check.run tree).result with
  | error e => rfl
  | ok batch => rw [runBatch, findings_runChecks]; rfl

theorem findings_runTasks (tree : FileTree) (number : Nat) (tasks : List Task) :
    (runTasks tree number tasks).findings = tasks.flatMap fun task => task.findings tree := by
  induction tasks generalizing number with
  | nil => rfl
  | cons task rest ih => rw [runTasks, findings_append, findings_runTask, ih, List.flatMap_cons]

/-- A pass reports what its plan shows by itself, then what its tasks find. -/
theorem findings_runPlan (tree : FileTree) (plan : Plan) :
    (runPlan tree plan).findings
      = plan.findings ++ plan.tasks.flatMap fun task => task.findings tree := by
  rw [runPlan, findings_append, findings_runTasks]

/-! ### Whole passes -/

/-- A pass succeeds exactly where its manifest loads, and then reports what its plan finds. -/
theorem run_eq_ok_iff {tree : FileTree} {pkgDir workDir : String} {options : Options}
    {result : Result} :
    run tree pkgDir options workDir = .ok result
      ↔ ∃ manifest, (Manifest.load pkgDir).result tree = .ok (.ok manifest)
          ∧ result = resultOf options manifest
              (runPlan tree (plan (contextOf tree.depth workDir pkgDir manifest options))) := by
  rw [run]
  cases h : (Manifest.load pkgDir).result tree with
  | error e => simp [loaded, Except.map]
  | ok loadedManifest =>
    cases loadedManifest with
    | error e => simp [loaded, Except.map]
    | ok manifest =>
      simp only [loaded, Except.map, Except.ok.injEq, exists_eq_left']
      exact eq_comm

/-- A pass reports what its plan finds, when its manifest loads. -/
theorem run_of_load {tree : FileTree} {pkgDir : String} {manifest : Manifest}
    (h : (Manifest.load pkgDir).result tree = .ok (.ok manifest)) (options : Options)
    (workDir : String) :
    run tree pkgDir options workDir
      = .ok (resultOf options manifest
          (runPlan tree (plan (contextOf tree.depth workDir pkgDir manifest options)))) :=
  run_eq_ok_iff.mpr ⟨manifest, h, rfl⟩

/-- At the level of suggestions, and where warnings stay warnings, a pass reports everything. -/
theorem diagnostics_resultOf (published : Option (List String)) (manifest : Manifest)
    (report : Report) :
    (resultOf { published } manifest report).diagnostics = report.findings := by
  simp [resultOf, logOf, Log.atLevel, Log.addAll, Log.empty, Severity.atLeast, Severity.weight]

/-- Errors are shown at every level, whether the pass is strict or not. -/
theorem atLevel_logOf_append {options : Options} {errors : List Diagnostic}
    (h : ∀ d ∈ errors, d.severity = .error) (ds : List Diagnostic) :
    (logOf options (errors ++ ds)).atLevel options.level
      = errors ++ (logOf options ds).atLevel options.level := by
  have hshown : errors.filter (fun d => options.level.atLeast d.severity) = errors := by
    refine List.filter_eq_self.mpr fun d hd => ?_
    rw [h d hd]
    cases options.level <;> rfl
  have hescalated : errors.map Log.escalateOne = errors := by
    refine (List.map_congr_left fun d hd => ?_).trans (List.map_id errors)
    rw [Log.escalateOne, h d hd, id]
    exact congrArg (fun severity => { d with severity }) (h d hd).symm
  rw [logOf, logOf, Log.atLevel, Log.atLevel]
  cases options.strict <;>
    simp [Log.escalate, Log.addAll, Log.empty, hshown, hescalated]

/-- A translation of findings that leaves severities alone. -/
def KeepsSeverity (ρ : Diagnostic → Diagnostic) : Prop :=
  ∀ (d : Diagnostic) (s : Severity), ρ { d with severity := s } = { ρ d with severity := s }

theorem KeepsSeverity.severity_eq {ρ : Diagnostic → Diagnostic} (h : KeepsSeverity ρ)
    (d : Diagnostic) : (ρ d).severity = d.severity := by
  have hd : ρ d = { ρ d with severity := d.severity } := h d d.severity
  rw [hd]

theorem keepsSeverity_id : KeepsSeverity id := fun _ _ => rfl

/-- What a pass reports of findings follows them through a translation, up to their order, whatever
the level and the strict flag are. -/
theorem diagnostics_perm {ρ : Diagnostic → Diagnostic} (hρ : KeepsSeverity ρ)
    {options options' : Options} (hlevel : options.level = options'.level)
    (hstrict : options.strict = options'.strict) {ds ds' : List Diagnostic}
    (h : (ds.map ρ).Perm ds') :
    (((logOf options ds).atLevel options.level).map ρ).Perm
      ((logOf options' ds').atLevel options'.level) := by
  have hfilter : ∀ es : List Diagnostic,
      (es.filter fun d => options.level.atLeast d.severity).map ρ
        = (es.map ρ).filter fun d => options.level.atLeast d.severity := by
    intro es
    rw [List.filter_map]
    refine congrArg (List.map ρ) (List.filter_congr fun d _ => ?_)
    rw [Function.comp_apply, hρ.severity_eq]
  have hescalate : ∀ es : List Diagnostic,
      (es.map Log.escalateOne).map ρ = (es.map ρ).map Log.escalateOne := by
    intro es
    rw [List.map_map, List.map_map]
    refine List.map_congr_left fun d _ => ?_
    rw [Function.comp_apply, Function.comp_apply, Log.escalateOne, Log.escalateOne, hρ,
      hρ.severity_eq]
  rw [logOf, logOf, ← hlevel, ← hstrict]
  cases options.strict with
  | false =>
    simp only [Bool.false_eq_true, if_false, Log.atLevel, Log.addAll, Log.empty, List.nil_append]
    rw [hfilter]
    exact h.filter _
  | true =>
    simp only [if_true, Log.atLevel, Log.addAll, Log.empty, Log.escalate, Bool.false_eq_true,
      if_false, List.nil_append]
    rw [hfilter, hescalate]
    exact (h.map _).filter _

/-- An error that is found is reported. -/
theorem mem_diagnostics_of_error {d : Diagnostic} (hd : d.severity = .error) {report : Report}
    (h : d ∈ report.findings) (options : Options) (manifest : Manifest) :
    d ∈ (resultOf options manifest report).diagnostics := by
  obtain ⟨front, back, hfindings⟩ := List.append_of_mem h
  have hfirst : (report.findings.map id).Perm ([d] ++ (front ++ back)) := by
    rw [List.map_id, hfindings]
    exact List.perm_middle
  have hperm := diagnostics_perm keepsSeverity_id (Eq.refl options.level) rfl hfirst
  rw [atLevel_logOf_append fun e he => by rw [List.mem_singleton.mp he, hd], List.map_id] at hperm
  exact hperm.mem_iff.mpr List.mem_cons_self

end Pass

end PackageLint
