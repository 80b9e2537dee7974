import PackageLint.Pass.Run

/-!
# Passes over a tree that is asked through effects

The same pass where every question is answered by an effect, as on a real disk. Where the effect does
nothing but answer from a tree, this is the pass over that tree.

## Main definitions

* `Pass.runIn`: a whole pass whose answers come from effects.

## Main statements

* `Pass.runIn_pure`: with the answers of a tree, the effectful pass is `Pass.run`.
-/

namespace PackageLint.Pass

section

variable {m : Type → Type} [Monad m]

/-- Runs the checks of a group. -/
def runChecksIn (answer : (q : Question) → m q.Answer) (group : String) :
    Nat → List (Check Unit) → m Report
  | _, [] => pure {}
  | number, check :: rest => do
    let outcome ← check.runIn answer
    let others ← runChecksIn answer group (number + 1) rest
    pure (.ofCheck (TaskQueue.taskName group none number) outcome ++ others)

/-- Runs the checks that a task leaves. -/
def runBatchIn (answer : (q : Question) → m q.Answer) : Except Failure Batch → m Report
  | .ok batch => runChecksIn answer batch.name 1 batch.checks
  | .error _ => pure {}

/-- Runs a task with the checks it leaves. -/
def runTaskIn (answer : (q : Question) → m q.Answer) (number : Nat) (task : Task) :
    m Report := do
  let outcome ← task.check.runIn answer
  let others ← runBatchIn answer outcome.result
  pure (.ofTask (TaskQueue.taskName queueName (some task.label) number) outcome ++ others)

/-- Runs tasks in order. -/
def runTasksIn (answer : (q : Question) → m q.Answer) : Nat → List Task → m Report
  | _, [] => pure {}
  | number, task :: rest => do
    let own ← runTaskIn answer number task
    let others ← runTasksIn answer (number + 1) rest
    pure (own ++ others)

/-- Runs a plan. -/
def runPlanIn (answer : (q : Question) → m q.Answer) (plan : Plan) : m Report := do
  let others ← runTasksIn answer 1 plan.tasks
  pure ({ findings := plan.findings } ++ others)

/-- A whole pass over the package in a directory. -/
def runIn (answer : (q : Question) → m q.Answer) (depth : Nat) (pkgDir : String)
    (options : Options) (workDir : String) : m (Except Manifest.LoadError Result) := do
  let outcome ← (Manifest.load pkgDir).runIn answer
  match loaded pkgDir outcome.result with
  | .error e => pure (.error e)
  | .ok manifest => do
    let report ← runPlanIn answer (plan (contextOf depth workDir pkgDir manifest options))
    pure (.ok (resultOf options manifest report))

end

/-! ### Agreement with passes over a tree -/

/-- The answers of a tree, as an effect that does nothing else. -/
def answersOf (tree : FileTree) (q : Question) : Id q.Answer := tree.answer q

theorem check_runIn_pure {α : Type} (tree : FileTree) (c : Check α) :
    c.runIn (answersOf tree) = (pure (c.run tree) : Id (Outcome α)) := by
  induction c with
  | done a => rfl
  | fail e => rfl
  | report d next ih => simp only [Check.runIn, Check.run, ih]; rfl
  | ask q next ih => exact ih (tree.answer q)

theorem runChecksIn_pure (tree : FileTree) (group : String) (number : Nat)
    (checks : List (Check Unit)) :
    runChecksIn (answersOf tree) group number checks
      = (pure (runChecks tree group number checks) : Id Report) := by
  induction checks generalizing number with
  | nil => rfl
  | cons check rest ih => simp only [runChecksIn, check_runIn_pure, ih]; rfl

theorem runTaskIn_pure (tree : FileTree) (number : Nat) (task : Task) :
    runTaskIn (answersOf tree) number task = (pure (runTask tree number task) : Id Report) := by
  simp only [runTaskIn, check_runIn_pure, runTask]
  cases h : (task.check.run tree).result with
  | error e => simp [runBatchIn, runBatch, h]
  | ok batch => simp [runBatchIn, runBatch, h, runChecksIn_pure]

theorem runTasksIn_pure (tree : FileTree) (number : Nat) (tasks : List Task) :
    runTasksIn (answersOf tree) number tasks
      = (pure (runTasks tree number tasks) : Id Report) := by
  induction tasks generalizing number with
  | nil => rfl
  | cons task rest ih => simp only [runTasksIn, runTaskIn_pure, ih]; rfl

/-- With the answers of a tree, the effectful pass is the pass over that tree. -/
theorem runIn_pure (tree : FileTree) (pkgDir : String) (options : Options) (workDir : String) :
    runIn (answersOf tree) tree.depth pkgDir options workDir
      = (pure (run tree pkgDir options workDir) : Id (Except Manifest.LoadError Result)) := by
  simp only [runIn, check_runIn_pure, run, Check.result]
  cases h : loaded pkgDir ((Manifest.load pkgDir).run tree).result with
  | error e => simp [h, Except.map]
  | ok manifest => simp [h, Except.map, runPlanIn, runTasksIn_pure, runPlan]

end PackageLint.Pass
