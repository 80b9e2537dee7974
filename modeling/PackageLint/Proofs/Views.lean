import PackageLint.Proofs.Runs

/-!
# What a pass sees of its plan

A pass does not look into checks. Of a task it sees the label, what its check reports and whether it
fails, and the same of the checks that it leaves. Two plans that look the same on a tree are run with the
same report, whatever questions their checks ask. This is finer than agreement up to the order of
findings: failures, their names and all orders are the same.

## Main definitions

* `Check.view` — what is seen of a check whose value is seen through a function
* `Task.view`, `Plan.view` — what is seen of a task, and of a plan

## Main results

* `Check.view_bind` — sequences look the same when their parts do
* `Pass.runPlan_congr` — plans that look the same are run with the same report
-/

namespace PackageLint

variable {tree : FileTree} {α β γ : Type}

/-! ### Checks -/

namespace Check

/-- What is seen of a check on a tree: its findings, and its value through a function. -/
def view (tree : FileTree) (see : α → γ) (c : Check α) : Outcome γ :=
  ⟨c.findings tree, (c.result tree).map see⟩

theorem view_of_run_eq {see : α → γ} {c c' : Check α} (h : c.run tree = c'.run tree) :
    c.view tree see = c'.view tree see := by
  rw [view, view, findings, findings, result, result, h]

/-- Sequences look the same when their parts do. What follows need only look the same for the value that
the first part ends with. -/
theorem view_bind {see : β → γ} {c c' : Check α} {f f' : α → Check β} (h : c.run tree = c'.run tree)
    (hf : ∀ a, c.result tree = .ok a → (f a).view tree see = (f' a).view tree see) :
    (c.bind f).view tree see = (c'.bind f').view tree see := by
  cases ha : c.result tree with
  | error e =>
    have hrun : c.run tree = ⟨c.findings tree, .error e⟩ := by rw [← ha]; rfl
    refine view_of_run_eq ?_
    rw [run_bind_of_error hrun, run_bind_of_error (h ▸ hrun)]
  | ok a =>
    have hrun : c.run tree = ⟨c.findings tree, .ok a⟩ := by rw [← ha]; rfl
    have hnext := hf a ha
    simp only [view, findings, result, Outcome.mk.injEq] at hnext ⊢
    rw [run_bind_of_ok hrun, run_bind_of_ok (h ▸ hrun), hnext.1, hnext.2]
    exact ⟨rfl, rfl⟩

/-- Sequences come to the same when their parts do. -/
theorem run_bind_congr {c c' : Check α} {f f' : α → Check β} (h : c.run tree = c'.run tree)
    (hf : ∀ a, (f a).run tree = (f' a).run tree) :
    (c.bind f).run tree = (c'.bind f').run tree := by
  rw [run_bind, run_bind, h]
  simp only [hf]

end Check

/-! ### Tasks and plans -/

/-- What is seen of the checks that a task leaves. -/
def Batch.view (tree : FileTree) (batch : Batch) : String × List (Outcome Unit) :=
  (batch.name, batch.checks.map (Check.run tree))

/-- What is seen of a task. -/
def Task.view (tree : FileTree) (task : Task) : String × Outcome (String × List (Outcome Unit)) :=
  (task.label, task.check.view tree (Batch.view tree))

/-- Tasks that leave no checks look the same when their checks come to the same. -/
theorem Task.view_single {check check' : Check Unit} (h : check.run tree = check'.run tree)
    (label : String) : (Task.single label check).view tree = (Task.single label check').view tree :=
  congrArg (Prod.mk label) (Check.view_bind h fun _ _ => rfl)

namespace Plan

/-- What is seen of a plan. -/
def view (tree : FileTree) (plan : Plan) :
    List Diagnostic × List (String × Outcome (String × List (Outcome Unit))) :=
  (plan.findings, plan.tasks.map (Task.view tree))

variable {plan plan' : Plan}

theorem view_append {a a' b b' : Plan} (ha : a.view tree = a'.view tree)
    (hb : b.view tree = b'.view tree) : (a ++ b).view tree = (a' ++ b').view tree := by
  obtain ⟨hfindings, htasks⟩ := Prod.mk.inj ha
  obtain ⟨hfindings', htasks'⟩ := Prod.mk.inj hb
  change (a.findings ++ b.findings, (a.tasks ++ b.tasks).map (Task.view tree))
    = (a'.findings ++ b'.findings, (a'.tasks ++ b'.tasks).map (Task.view tree))
  rw [List.map_append, List.map_append, hfindings, hfindings', htasks, htasks']

theorem view_concat {plans plans' : List Plan} (h : plans.map (view tree) = plans'.map (view tree)) :
    (concat plans).view tree = (concat plans').view tree := by
  induction plans generalizing plans' with
  | nil =>
    obtain rfl := List.map_eq_nil_iff.mp h.symm
    rfl
  | cons plan rest ih =>
    cases plans' with
    | nil => simp at h
    | cons plan' rest' =>
      obtain ⟨hplan, hrest⟩ := List.cons.inj h
      exact view_append hplan (ih hrest)

theorem view_single {check check' : Check Unit} (h : check.run tree = check'.run tree)
    (label : String) :
    (Plan.task (.single label check)).view tree = (Plan.task (.single label check')).view tree :=
  congrArg (fun seen => ([], [seen])) (Task.view_single h label)

theorem view_ite {c : Prop} [Decidable c] {a a' b b' : Plan} (ha : c → a.view tree = a'.view tree)
    (hb : ¬ c → b.view tree = b'.view tree) :
    (if c then a else b).view tree = (if c then a' else b').view tree := by
  split
  next hc => exact ha hc
  next hc => exact hb hc

end Plan

/-! ### Running -/

namespace Pass

theorem runChecks_congr {checks checks' : List (Check Unit)}
    (h : checks.map (Check.run tree) = checks'.map (Check.run tree)) (group : String)
    (number : Nat) : runChecks tree group number checks = runChecks tree group number checks' := by
  induction checks generalizing checks' number with
  | nil =>
    obtain rfl := List.map_eq_nil_iff.mp h.symm
    rfl
  | cons check rest ih =>
    cases checks' with
    | nil => simp at h
    | cons check' rest' =>
      obtain ⟨hcheck, hrest⟩ := List.cons.inj h
      rw [runChecks, runChecks, hcheck, ih hrest]

theorem runTask_congr {task task' : Task} (h : task.view tree = task'.view tree) (number : Nat) :
    runTask tree number task = runTask tree number task' := by
  obtain ⟨hlabel, hcheck⟩ := Prod.mk.inj h
  obtain ⟨hfindings, hresult⟩ := Outcome.mk.inj hcheck
  simp only [runTask, hlabel]
  simp only [Check.findings, Check.result] at hfindings hresult
  cases hleft : (task.check.run tree).result with
  | error e =>
    cases hright : (task'.check.run tree).result with
    | error e' =>
      rw [hleft, hright] at hresult
      obtain rfl := Except.error.inj hresult
      simp only [Report.ofTask, failureOf, hfindings, hleft, hright]
    | ok batch' => simp [hleft, hright, Except.map] at hresult
  | ok batch =>
    cases hright : (task'.check.run tree).result with
    | error e' => simp [hleft, hright, Except.map] at hresult
    | ok batch' =>
      rw [hleft, hright] at hresult
      obtain ⟨hname, hchecks⟩ := Prod.mk.inj (Except.ok.inj hresult)
      simp only [Report.ofTask, failureOf, hfindings, hleft, hright, runBatch, hname,
        runChecks_congr hchecks]

theorem runTasks_congr {tasks tasks' : List Task}
    (h : tasks.map (Task.view tree) = tasks'.map (Task.view tree)) (number : Nat) :
    runTasks tree number tasks = runTasks tree number tasks' := by
  induction tasks generalizing tasks' number with
  | nil =>
    obtain rfl := List.map_eq_nil_iff.mp h.symm
    rfl
  | cons task rest ih =>
    cases tasks' with
    | nil => simp at h
    | cons task' rest' =>
      obtain ⟨htask, hrest⟩ := List.cons.inj h
      rw [runTasks, runTasks, runTask_congr htask, ih hrest]

/-- Plans that look the same on a tree are run with the same report. -/
theorem runPlan_congr {plan plan' : Plan} (h : plan.view tree = plan'.view tree) :
    runPlan tree plan = runPlan tree plan' := by
  obtain ⟨hfindings, htasks⟩ := Prod.mk.inj h
  rw [runPlan, runPlan, hfindings, runTasks_congr htasks]

end Pass

end PackageLint
