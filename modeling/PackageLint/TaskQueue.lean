import PackageLint.Failure

/-!
# Queues of tasks

A queue is a set of tasks that is joined as a whole. A task that runs may push further tasks on its
queue; then it succeeds or fails. A failure is logged under the name of the task and leaves the other
tasks alone. Tasks start in the order in which they were pushed, and each is numbered by its push.

## Main definitions

* `TaskQueue.Job`: what a task does.
* `TaskQueue`: the state of a queue.
* `TaskQueue.push`, `TaskQueue.round`, `TaskQueue.wait`: adding tasks, running those that are pending,
  and running until none is pending.
-/

namespace PackageLint

namespace TaskQueue

/-- What a task does: it pushes further tasks, and then ends with a value or fails. -/
inductive Job (α : Type) where
  | mk (label : Option String) (pushes : List (Job α)) (result : Except Failure α)
  deriving Inhabited

/-- The label of a task. -/
def Job.label {α : Type} : Job α → Option String
  | .mk label _ _ => label

/-- The tasks that a task pushes when it runs. -/
def Job.pushes {α : Type} : Job α → List (Job α)
  | .mk _ pushes _ => pushes

/-- How a task ends. -/
def Job.result {α : Type} : Job α → Except Failure α
  | .mk _ _ result => result

mutual

/-- The number of tasks that running a task leads to, itself included. -/
def Job.size {α : Type} : Job α → Nat
  | .mk _ pushes _ => 1 + sizeOfAll pushes

/-- The number of tasks that running all of some tasks leads to. -/
def sizeOfAll {α : Type} : List (Job α) → Nat
  | [] => 0
  | job :: rest => job.size + sizeOfAll rest

end

/-- The name of a task: its label in its queue, or its number when it has none. -/
def taskName (queue : String) (label : Option String) (number : Nat) : String :=
  match label with
  | some text => queue ++ ":" ++ (if text = "" then toString number else text)
  | none => queue ++ ":" ++ toString number

/-- The line that the failure of a task leaves in the log of the program. -/
def failureLine (name : String) (failure : Failure) : String :=
  "Check " ++ name ++ " failed: " ++ failure.text

end TaskQueue

/-- The state of a queue. -/
structure TaskQueue (α : Type) where
  /-- The name of the queue. -/
  name : String
  /-- The number of tasks pushed so far. -/
  count : Nat := 0
  /-- The tasks that are pending, with their names, in the order of their pushes. -/
  pending : List (String × TaskQueue.Job α) := []
  /-- The values of the tasks that succeeded, in the order in which they ran. -/
  values : List α := []
  /-- The tasks that failed, in the order in which they ran. -/
  failures : List (String × Failure) := []

namespace TaskQueue

variable {α : Type}

/-- Pushes a task. -/
def push (queue : TaskQueue α) (job : Job α) : TaskQueue α :=
  { queue with
    count := queue.count + 1
    pending := queue.pending ++ [(taskName queue.name job.label (queue.count + 1), job)] }

/-- Pushes tasks in turn. -/
def pushAll (queue : TaskQueue α) (jobs : List (Job α)) : TaskQueue α := jobs.foldl push queue

/-- Runs one task that is no longer pending. -/
def runOne (queue : TaskQueue α) (entry : String × Job α) : TaskQueue α :=
  let queue := queue.pushAll entry.2.pushes
  match entry.2.result with
  | .ok value => { queue with values := queue.values ++ [value] }
  | .error failure => { queue with failures := queue.failures ++ [(entry.1, failure)] }

/-- Runs all tasks that are pending. What they push is pending afterwards. -/
def round (queue : TaskQueue α) : TaskQueue α :=
  queue.pending.foldl runOne { queue with pending := [] }

/-- Runs rounds until nothing is pending, or a bound on their number is met. -/
def rounds : Nat → TaskQueue α → TaskQueue α
  | 0, queue => queue
  | bound + 1, queue => if queue.pending.isEmpty then queue else rounds bound queue.round

/-- Runs everything. Each round runs some task, so the number of tasks bounds the rounds. -/
def wait (queue : TaskQueue α) : TaskQueue α :=
  rounds (sizeOfAll (queue.pending.map Prod.snd)) queue

/-- The lines that the failed tasks leave in the log of the program. -/
def failureLines (queue : TaskQueue α) : List String :=
  queue.failures.map fun (name, failure) => failureLine name failure

end TaskQueue

end PackageLint
