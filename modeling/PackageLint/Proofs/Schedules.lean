import Mathlib.Algebra.Ring.Nat
import Mathlib.Data.List.Perm.Basic
import Mathlib.Data.List.Permutation
import Mathlib.Logic.Relation
import PackageLint.FileTree.Memory
import PackageLint.Proofs.Runs

/-!
# Schedules of a pass

The tasks of a pass run beside each other and share one log. Any of them may take the next step: report
a finding, ask the file tree, end and leave further checks to be run beside the others, or fail. A
schedule is a sequence of such choices, and a pass is over when nothing is left to run.

Between two questions to the tree a task cannot be interrupted in practice. Here it can, at every
finding, so that every schedule that only switches at questions is among those considered.

## Main definitions

* `Batch.tasks` — the tasks that a task leaves behind
* `Task.Step` — what a task may do next
* `Pass.State`, `Pass.Step`, `Pass.Reaches` — a pass on its way, one step of it, and many

## Main results

* `Task.Step.findings_eq` — a step moves findings from what is to come to the log
* `Pass.State.Step.total_perm`, `Pass.Reaches.total_perm` — schedules preserve the findings of a pass
* `Pass.reaches_in_order` — running every task to its end in turn is a schedule
* `Pass.wellFounded_step` — no schedule goes on forever
* `Pass.schedules_agree` — every schedule ends, with the diagnostics of the pass up to their order
-/

namespace PackageLint

/-! ### Tasks step by step -/

/-- The tasks that a task leaves behind: its further checks, which leave none themselves. -/
def Batch.tasks (batch : Batch) : List Task := batch.checks.map (Task.single batch.name)

namespace Task

/-- What a task may do next on a tree: the findings that it logs, and the tasks that then run in its
place. -/
inductive Step (tree : FileTree) : Task → List Diagnostic → List Task → Prop
  | report (label : String) (d : Diagnostic) (next : Check Batch) :
      Step tree { label, check := .report d next } [d] [{ label, check := next }]
  | ask (label : String) (q : Question) (next : q.Answer → Check Batch) :
      Step tree { label, check := .ask q next } [] [{ label, check := next (tree.answer q) }]
  | done (label : String) (batch : Batch) :
      Step tree { label, check := .done batch } [] batch.tasks
  | fail (label : String) (e : Failure) : Step tree { label, check := .fail e } [] []

variable {tree : FileTree}

theorem exists_step (tree : FileTree) (task : Task) : ∃ ds left, Step tree task ds left := by
  obtain ⟨label, check⟩ := task
  cases check with
  | done batch => exact ⟨_, _, .done label batch⟩
  | fail e => exact ⟨_, _, .fail label e⟩
  | report d next => exact ⟨_, _, .report label d next⟩
  | ask q next => exact ⟨_, _, .ask label q next⟩

theorem findings_tasks (tree : FileTree) (batch : Batch) :
    batch.tasks.flatMap (findings tree) = batch.checks.flatMap fun check => check.findings tree := by
  rw [Batch.tasks, List.flatMap_map]
  simp only [findings_single]

/-- A step moves findings from what is to come to the log, and loses none. -/
theorem Step.findings_eq {task : Task} {ds : List Diagnostic} {left : List Task}
    (h : Step tree task ds left) : task.findings tree = ds ++ left.flatMap (findings tree) := by
  cases h with
  | report label d next => simp [findings, Check.findings, Check.result, Check.run]
  | ask label q next => simp [findings, Check.findings, Check.result, Check.run]
  | done label batch =>
    rw [findings_tasks]
    rfl
  | fail label e => rfl

end Task

/-! ### The length of a run -/

/-- The number of steps of a check on a tree. -/
def Check.steps {α : Type} (tree : FileTree) : Check α → Nat
  | .done _ => 1
  | .fail _ => 1
  | .report _ next => 1 + next.steps tree
  | .ask q next => 1 + (next (tree.answer q)).steps tree

namespace Task

/-- The number of steps of a task, with those of the checks that it leaves. -/
def steps (tree : FileTree) (task : Task) : Nat :=
  task.check.steps tree +
    match task.check.result tree with
    | .ok batch => (batch.checks.map (Check.steps tree)).sum
    | .error _ => 0

theorem steps_single (tree : FileTree) (label : String) (check : Check Unit) :
    (single label check).steps tree = check.steps tree := by
  have hbind : ∀ c : Check Unit,
      (c.bind fun _ => .done ({} : Batch)).steps tree = c.steps tree := by
    intro c
    induction c with
    | done a => rfl
    | fail e => rfl
    | report d next ih => rw [Check.bind, Check.steps, Check.steps, ih]
    | ask q next ih => rw [Check.bind, Check.steps, Check.steps, ih]
  have hresult : (check.bind fun _ => .done ({} : Batch)).result tree
      = (check.result tree).map fun _ => {} := by
    rw [Check.result, Check.result, Check.run_bind]
    cases (check.run tree).result <;> rfl
  rw [steps, single, hbind, hresult]
  cases check.result tree <;> rfl

/-- A step leaves fewer steps to be taken. -/
theorem Step.steps_lt {tree : FileTree} {task : Task} {ds : List Diagnostic} {left : List Task}
    (h : Step tree task ds left) : (left.map (steps tree)).sum < task.steps tree := by
  cases h with
  | report label d next => simp [steps, Check.steps, Check.result, Check.run]
  | ask label q next => simp [steps, Check.steps, Check.result, Check.run]
  | done label batch =>
    have hsteps : batch.tasks.map (steps tree) = batch.checks.map (Check.steps tree) := by
      rw [Batch.tasks, List.map_map]
      exact List.map_congr_left fun check _ => steps_single tree batch.name check
    rw [hsteps]
    change (batch.checks.map (Check.steps tree)).sum
      < 1 + (batch.checks.map (Check.steps tree)).sum
    omega
  | fail label e => exact Nat.one_pos

end Task

namespace Pass

/-! ### Passes step by step -/

/-- A pass on its way: the log that all tasks share, and the tasks that are running. -/
structure State where
  /-- The log. -/
  log : Log
  /-- The running tasks. -/
  running : List Task

/-- The state in which the tasks of a plan start. What the manifest shows by itself is logged. -/
def start (plan : Plan) : State :=
  { log := Log.empty.addAll plan.findings, running := plan.tasks }

namespace State

/-- One of the running tasks takes a step. -/
inductive Step (tree : FileTree) : State → State → Prop
  | of_task {log : Log} {before after : List Task} {task : Task} {ds : List Diagnostic}
      {left : List Task} (h : task.Step tree ds left) :
      Step tree { log, running := before ++ task :: after }
        { log := log.addAll ds, running := before ++ left ++ after }

/-- The first running task may take a step. -/
theorem Step.of_first {tree : FileTree} {log : Log} {task : Task} {after left : List Task}
    {ds : List Diagnostic} (h : task.Step tree ds left) :
    Step tree { log, running := task :: after }
      { log := log.addAll ds, running := left ++ after } :=
  @Step.of_task tree log [] after task ds left h

/-- Whether every task has finished. -/
def IsOver (s : State) : Prop := s.running = []

/-- What a pass reports whose log is that of a state. -/
def diagnostics (options : Options) (s : State) : List Diagnostic :=
  (if options.strict then s.log.escalate else s.log).atLevel options.level

/-- What the log holds, with what the running tasks have yet to report. -/
def total (tree : FileTree) (s : State) : List Diagnostic :=
  s.log.findings ++ s.running.flatMap (Task.findings tree)

/-- The number of steps that the running tasks have yet to take. -/
def steps (tree : FileTree) (s : State) : Nat := (s.running.map (Task.steps tree)).sum

variable {tree : FileTree} {s s' : State}

/-- A step neither adds nor drops a finding. -/
theorem Step.total_perm (h : Step tree s s') : (s.total tree).Perm (s'.total tree) := by
  obtain @⟨log, before, after, task, ds, left, h⟩ := h
  simp only [total, Log.addAll, List.flatMap_append, List.flatMap_cons, h.findings_eq,
    List.append_assoc]
  refine List.Perm.append_left log.findings ?_
  rw [← List.append_assoc, ← List.append_assoc ds]
  exact List.perm_append_comm.append_right _

theorem Step.steps_lt (h : Step tree s s') : s'.steps tree < s.steps tree := by
  obtain ⟨h⟩ := h
  have hlt := h.steps_lt
  simp only [steps, List.map_append, List.map_cons, List.sum_append, List.sum_cons]
  omega

/-- A pass that is not over can go on. -/
theorem exists_step (tree : FileTree) (h : ¬ s.IsOver) : ∃ s', Step tree s s' := by
  obtain ⟨log, running⟩ := s
  cases running with
  | nil => exact absurd rfl h
  | cons task rest =>
    obtain ⟨ds, left, hstep⟩ := task.exists_step tree
    exact ⟨_, .of_first hstep⟩

end State

/-- A schedule leads from one state to another. -/
abbrev Reaches (tree : FileTree) : State → State → Prop :=
  Relation.ReflTransGen (State.Step tree)

variable {tree : FileTree} {s s' : State}

/-- A schedule neither adds nor drops a finding. -/
theorem Reaches.total_perm (h : Reaches tree s s') : (s.total tree).Perm (s'.total tree) := by
  induction h with
  | refl => exact .refl _
  | tail _ hstep ih => exact ih.trans hstep.total_perm

/-- No schedule goes on forever. -/
theorem wellFounded_step (tree : FileTree) :
    WellFounded fun next s : State => State.Step tree s next :=
  Subrelation.wf State.Step.steps_lt (InvImage.wf (State.steps tree) Nat.lt_wfRel.wf)

/-! ### Running tasks in order -/

/-- A running task may be run to its end before any other, which leaves its further checks. -/
theorem reaches_check (tree : FileTree) (label : String) (check : Check Batch) (log : Log)
    (rest : List Task) :
    Reaches tree { log, running := { label, check } :: rest }
      { log := log.addAll (check.findings tree)
        running := (match check.result tree with
          | .ok batch => batch.tasks
          | .error _ => []) ++ rest } := by
  have hhead : ∀ {task : Task} {log : Log} {ds : List Diagnostic} {left : List Task},
      task.Step tree ds left → State.Step tree { log, running := task :: rest }
        { log := log.addAll ds, running := left ++ rest } :=
    fun h => .of_first h
  induction check generalizing log with
  | done batch => exact .single (hhead (.done label batch))
  | fail e => exact .single (hhead (.fail label e))
  | report d next ih =>
    refine .head (hhead (.report label d next)) ?_
    have hrest := ih (log.addAll [d])
    simpa [Log.addAll, Check.findings, Check.result, Check.run] using hrest
  | ask q next ih =>
    refine .head (hhead (.ask label q next)) ?_
    have hrest := ih (tree.answer q) (log.addAll [])
    simpa [Log.addAll, Check.findings, Check.result, Check.run] using hrest

theorem reaches_single (tree : FileTree) (label : String) (check : Check Unit) (log : Log)
    (rest : List Task) :
    Reaches tree { log, running := .single label check :: rest }
      { log := log.addAll (check.findings tree), running := rest } := by
  have hrun := reaches_check tree label (check.bind fun _ => .done {}) log rest
  have hfindings : (check.bind fun _ => .done ({} : Batch)).findings tree = check.findings tree :=
    Check.findings_bind_of_silent check fun _ => rfl
  have hnone : (match (check.bind fun _ => .done ({} : Batch)).result tree with
      | .ok batch => batch.tasks
      | .error _ => []) = [] := by
    rw [Check.result, Check.run_bind]
    cases (check.run tree).result <;> rfl
  rwa [hfindings, hnone] at hrun

theorem reaches_checks (tree : FileTree) (label : String) (checks : List (Check Unit)) (log : Log)
    (rest : List Task) :
    Reaches tree { log, running := checks.map (Task.single label) ++ rest }
      { log := log.addAll (checks.flatMap fun check => check.findings tree), running := rest } := by
  induction checks generalizing log with
  | nil => simpa [Log.addAll] using Relation.ReflTransGen.refl
  | cons check others ih =>
    refine (reaches_single tree label check log _).trans ?_
    have hothers := ih (log.addAll (check.findings tree))
    simpa [Log.addAll] using hothers

/-- A task may be run to its end before any other, with the checks that it leaves. -/
theorem reaches_task (tree : FileTree) (task : Task) (log : Log) (rest : List Task) :
    Reaches tree { log, running := task :: rest }
      { log := log.addAll (task.findings tree), running := rest } := by
  refine (reaches_check tree task.label task.check log rest).trans ?_
  rw [Task.findings]
  cases task.check.result tree with
  | error e => simpa using Relation.ReflTransGen.refl
  | ok batch =>
    have hchecks := reaches_checks tree batch.name batch.checks
      (log.addAll (task.check.findings tree)) rest
    simpa [Batch.tasks, Log.addAll] using hchecks

theorem reaches_tasks (tree : FileTree) (tasks : List Task) (log : Log) :
    Reaches tree { log, running := tasks }
      { log := log.addAll (tasks.flatMap (Task.findings tree)), running := [] } := by
  induction tasks generalizing log with
  | nil => simpa [Log.addAll] using Relation.ReflTransGen.refl
  | cons task rest ih =>
    refine (reaches_task tree task log rest).trans ?_
    have hrest := ih (log.addAll (task.findings tree))
    simpa [Log.addAll] using hrest

/-- Running every task of a plan to its end, in the order of the plan, is a schedule. -/
theorem reaches_in_order (tree : FileTree) (plan : Plan) :
    Reaches tree (start plan)
      { log := Log.empty.addAll (runPlan tree plan).findings, running := [] } := by
  have htasks := reaches_tasks tree plan.tasks (Log.empty.addAll plan.findings)
  rw [findings_runPlan]
  simpa [start, Log.addAll] using htasks

/-! ### Every schedule -/

theorem Reaches.escalated_eq (h : Reaches tree s s') : s'.log.escalated = s.log.escalated := by
  induction h with
  | refl => rfl
  | tail _ hstep ih =>
    obtain ⟨-⟩ := hstep
    exact ih

/-- When a schedule is over, the log holds what running the plan in order finds. -/
theorem Reaches.log_perm {plan : Plan} (h : Reaches tree (start plan) s) (hover : s.IsOver) :
    s.log.findings.Perm (runPlan tree plan).findings := by
  have hstart : (start plan).total tree = (runPlan tree plan).findings := by
    rw [findings_runPlan]
    rfl
  have hend : s.total tree = s.log.findings := by
    rw [State.total, hover, List.flatMap_nil, List.append_nil]
  rw [← hstart, ← hend]
  exact h.total_perm.symm

theorem Reaches.diagnostics_eq {plan : Plan} (h : Reaches tree (start plan) s) (options : Options) :
    s.diagnostics options = (logOf options s.log.findings).atLevel options.level := by
  have hlog : s.log = Log.empty.addAll s.log.findings := by
    have hescalated : s.log.escalated = false := h.escalated_eq
    obtain ⟨⟨findings, escalated⟩, running⟩ := s
    obtain rfl : escalated = false := hescalated
    rfl
  rw [State.diagnostics, logOf, ← hlog]

/-- However the tasks of a pass are interleaved, the pass ends with the same diagnostics up to their
order: no schedule goes on forever, one that is not over can go on, and one that is over has reported
what the pass reports that runs every task to its end in the order of the plan, which is a schedule
too. -/
theorem schedules_agree {tree : FileTree} {pkgDir workDir : String} {options : Options}
    {result : Result} (h : run tree pkgDir options workDir = .ok result) :
    let first := start (plan (contextOf tree.depth workDir pkgDir result.manifest options))
    (∃ last, Reaches tree first last ∧ last.IsOver
        ∧ last.diagnostics options = result.diagnostics)
      ∧ ∀ s, Reaches tree first s →
        (s.IsOver → (s.diagnostics options).Perm result.diagnostics)
          ∧ (¬ s.IsOver → ∃ s', State.Step tree s s')
          ∧ Acc (fun next s => State.Step tree s next) s := by
  intro first
  obtain ⟨manifest, -, rfl⟩ := run_eq_ok_iff.mp h
  refine ⟨⟨_, reaches_in_order tree _, rfl, (reaches_in_order tree _).diagnostics_eq options⟩, ?_⟩
  intro s hs
  refine ⟨fun hover => ?_, State.exists_step tree, (wellFounded_step tree).apply s⟩
  have hlog := hs.log_perm hover
  rw [← List.map_id s.log.findings] at hlog
  have hperm := diagnostics_perm keepsSeverity_id (Eq.refl options.level) rfl hlog
  rw [List.map_id] at hperm
  rw [hs.diagnostics_eq options]
  exact hperm

/-- A pass over a package whose `main` is not there can be run to its end, with the diagnostics of the
pass. -/
theorem schedule_of_missing_main :
    ∃ tree result last,
      MemoryTree.ofFiles [("/p/package.json", "\x7b\"main\":\"./a.js\"\x7d")] = .ok tree
        ∧ run tree.toFileTree "/p" {} "/" = .ok result
        ∧ Reaches tree.toFileTree
            (start (plan (contextOf tree.toFileTree.depth "/" "/p" result.manifest {}))) last
        ∧ last.IsOver ∧ (last.diagnostics {}).Perm result.diagnostics := by
  let files := [("/p/package.json", "\x7b\"main\":\"./a.js\"\x7d")]
  let tree : MemoryTree := { files, dirs := [("/", ["p"]), ("/p", ["package.json"])] }
  have htree : MemoryTree.ofFiles files = .ok tree := by rfl
  have hload : (Manifest.load "/p").result tree.toFileTree
      = .ok (.ok [("main", .str "./a.js")]) := by
    cbv
  obtain ⟨result, hrun⟩ : ∃ result, run tree.toFileTree "/p" {} "/" = .ok result :=
    ⟨_, run_of_load hload _ _⟩
  obtain ⟨⟨last, hlast, hover, -⟩, hall⟩ := schedules_agree hrun
  exact ⟨tree, result, last, htree, hrun, hlast, hover, (hall last hlast).1 hover⟩

end Pass

end PackageLint
