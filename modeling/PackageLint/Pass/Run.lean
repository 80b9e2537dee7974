import PackageLint.Diagnostic.Log
import PackageLint.Manifest.Load
import PackageLint.Pass.Plan
import PackageLint.TaskQueue

/-!
# Lint passes

A pass loads the manifest, plans all checks that apply to it, runs them on a file tree, and reports
their findings at a level. In strict mode warnings are reported as errors. A check that fails leaves a
line in the log of the program, and does not touch the others.

## Main definitions

* `Pass.Options`, `Pass.Result`: the options of a pass, and what it reports.
* `Pass.runPlan`: runs a plan, every task to its end in the order of the plan.
* `Pass.run`: a whole pass.
-/

namespace PackageLint.Pass

/-! ### Options and results -/

/-- The options of a pass. -/
structure Options where
  /-- The level from which on findings are reported. -/
  level : Severity := .suggestion
  /-- Whether warnings are reported as errors. -/
  strict : Bool := false
  /-- The absolute paths of the files that will be published, when they are known. -/
  published : Option (List String) := none
  deriving Repr

/-- What a pass reports. -/
structure Result where
  /-- The findings. -/
  diagnostics : List Diagnostic
  /-- The checks that failed, by name, in the order in which this becomes known. -/
  failures : List (String × Failure)
  /-- The manifest. -/
  manifest : Manifest
  deriving Repr

/-- The lines that failed checks leave in the log of the program. -/
def Result.failureLines (result : Result) : List String :=
  result.failures.map fun (name, failure) => TaskQueue.failureLine name failure

/-- Whether a pass reports an error. -/
def Result.hasErrors (result : Result) : Bool :=
  result.diagnostics.any fun d => d.severity = .error

/-- The number of findings of a severity. -/
def Result.count (result : Result) (severity : Severity) : Nat :=
  Diagnostic.count severity result.diagnostics

/-! ### Running a plan -/

/-- The name of the queue of a pass. -/
def queueName : String := "lint"

/-- What came of tasks and of the checks they left: the findings, and which of them failed. -/
structure Report where
  /-- The findings. -/
  findings : List Diagnostic := []
  /-- The checks left by tasks that failed, by name. -/
  failedChecks : List (String × Failure) := []
  /-- The tasks that failed, by name. -/
  failedTasks : List (String × Failure) := []
  deriving Repr

instance : Append Report where
  append a b :=
    { findings := a.findings ++ b.findings
      failedChecks := a.failedChecks ++ b.failedChecks
      failedTasks := a.failedTasks ++ b.failedTasks }

/-- The failure of a check with a name, if it failed. -/
def failureOf {α : Type} (name : String) (outcome : Outcome α) : List (String × Failure) :=
  match outcome.result with
  | .ok _ => []
  | .error failure => [(name, failure)]

/-- What came of a check that a task left. -/
def Report.ofCheck (name : String) (outcome : Outcome Unit) : Report :=
  { findings := outcome.findings, failedChecks := failureOf name outcome }

/-- What came of a task by itself. -/
def Report.ofTask (name : String) (outcome : Outcome Batch) : Report :=
  { findings := outcome.findings, failedTasks := failureOf name outcome }

/-- All that failed. A task waits for the checks it leaves, and the failures of tasks become known when
all tasks are over. -/
def Report.failures (report : Report) : List (String × Failure) :=
  report.failedChecks ++ report.failedTasks

/-- Runs the checks of a group, numbering them from `number` on. -/
def runChecks (tree : FileTree) (group : String) : Nat → List (Check Unit) → Report
  | _, [] => {}
  | number, check :: rest =>
    .ofCheck (TaskQueue.taskName group none number) (check.run tree)
      ++ runChecks tree group (number + 1) rest

/-- Runs the checks that a task leaves; one that failed leaves none. -/
def runBatch (tree : FileTree) : Except Failure Batch → Report
  | .ok batch => runChecks tree batch.name 1 batch.checks
  | .error _ => {}

/-- Runs a task, numbered by its push, with the checks it leaves. -/
def runTask (tree : FileTree) (number : Nat) (task : Task) : Report :=
  let outcome := task.check.run tree
  .ofTask (TaskQueue.taskName queueName (some task.label) number) outcome
    ++ runBatch tree outcome.result

/-- Runs tasks in order, numbering them from `number` on. -/
def runTasks (tree : FileTree) : Nat → List Task → Report
  | _, [] => {}
  | number, task :: rest => runTask tree number task ++ runTasks tree (number + 1) rest

/-- Runs a plan: its findings come first, then those of its tasks. -/
def runPlan (tree : FileTree) (plan : Plan) : Report :=
  { findings := plan.findings } ++ runTasks tree 1 plan.tasks

/-! ### Whole passes -/

/-- The log of a pass once strict mode has been applied. -/
def logOf (options : Options) (findings : List Diagnostic) : Log :=
  let log := Log.empty.addAll findings
  if options.strict then log.escalate else log

/-- The result of a pass whose checks are over. -/
def resultOf (options : Options) (manifest : Manifest) (report : Report) : Result :=
  { diagnostics := (logOf options report.findings).atLevel options.level
    failures := report.failures
    manifest }

/-- What all checks of a pass see. -/
def contextOf (depth : Nat) (workDir pkgDir : String) (manifest : Manifest) (options : Options) :
    Context :=
  { pkgDir, manifest, published := options.published, workDir, depth }

/-- The result of loading a manifest. Loading never fails by itself. -/
def loaded (pkgDir : String) :
    Except Failure (Except Manifest.LoadError Manifest) → Except Manifest.LoadError Manifest
  | .ok result => result
  | .error _ => .error (.notFound pkgDir)

/-- A whole pass over the package in a directory of a tree. -/
def run (tree : FileTree) (pkgDir : String) (options : Options := {}) (workDir : String := "/") :
    Except Manifest.LoadError Result :=
  (loaded pkgDir ((Manifest.load pkgDir).result tree)).map fun manifest =>
    resultOf options manifest
      (runPlan tree (plan (contextOf tree.depth workDir pkgDir manifest options)))

end PackageLint.Pass
