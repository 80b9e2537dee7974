import PackageLint.Diagnostic.Basic
import PackageLint.Failure

/-!
# Checks

A check asks questions of a file tree, reports findings on its way, and ends with a value or a
failure. It is a value of its own: which tree answers, and what other checks do between two of its
questions, is left to whoever runs it. Findings reported before a failure count.

## Main definitions

* `Check`: the checks.
* `Check.run`: runs a check on a tree without interruption.
* `Check.runIn`: runs a check where the answers come from effects.

## Main statements

* `Check.run_bind`: a sequence of checks reports the findings of its parts in turn.
-/

namespace PackageLint

/-- A check that ends with a value. -/
inductive Check (α : Type) where
  /-- The check is over. -/
  | done (value : α)
  /-- The check fails. -/
  | fail (failure : Failure)
  /-- The check reports a finding and goes on. -/
  | report (finding : Diagnostic) (next : Check α)
  /-- The check asks a question and goes on with the answer. -/
  | ask (question : Question) (next : question.Answer → Check α)

/-- What came of running a check. -/
structure Outcome (α : Type) where
  /-- The findings, in order. -/
  findings : List Diagnostic
  /-- The value, or why the check failed. -/
  result : Except Failure α
  deriving Repr

namespace Check

variable {α β : Type}

/-! ### Sequences -/

/-- Goes on with the value of a check. -/
def bind : Check α → (α → Check β) → Check β
  | .done a, f => f a
  | .fail e, _ => .fail e
  | .report d next, f => .report d (next.bind f)
  | .ask q next, f => .ask q fun answer => (next answer).bind f

instance : Monad Check where
  pure := .done
  bind := bind

/-! ### Steps -/

/-- Reports a finding. -/
def add (finding : Diagnostic) : Check Unit := .report finding (.done ())

/-- The text of a file. -/
def readFile (path : String) : Check (Except FileError String) := .ask (.contents path) .done

/-- The names in a directory. A check that lists something else fails. -/
def readDir (path : String) : Check (List String) :=
  .ask (.entries path) fun answer =>
    match answer with
    | .ok names => .done names
    | .error e => .fail (.unreadable e)

/-- Whether a path is a directory. -/
def isDir (path : String) : Check Bool := .ask (.isDir path) .done

/-- Whether a path is a file or a directory. -/
def isThere (path : String) : Check Bool := .ask (.isThere path) .done

/-- The value of a computation that may fail. -/
def ofExcept : Except Failure α → Check α
  | .ok a => .done a
  | .error e => .fail e

/-! ### Running -/

/-- Runs a check on a tree without interruption. -/
def run (tree : FileTree) : Check α → Outcome α
  | .done a => ⟨[], .ok a⟩
  | .fail e => ⟨[], .error e⟩
  | .report d next => let rest := next.run tree; ⟨d :: rest.findings, rest.result⟩
  | .ask q next => (next (tree.answer q)).run tree

/-- The findings of a check on a tree. -/
def findings (tree : FileTree) (check : Check α) : List Diagnostic := (check.run tree).findings

/-- The value of a check on a tree. -/
def result (tree : FileTree) (check : Check α) : Except Failure α := (check.run tree).result

/-- Runs a check where the answers come from effects. -/
def runIn {m : Type → Type} [Monad m] (answer : (q : Question) → m q.Answer) :
    Check α → m (Outcome α)
  | .done a => pure ⟨[], .ok a⟩
  | .fail e => pure ⟨[], .error e⟩
  | .report d next => do
    let rest ← next.runIn answer
    pure ⟨d :: rest.findings, rest.result⟩
  | .ask q next => do
    let a ← answer q
    (next a).runIn answer

/-! ### Laws -/

@[simp] theorem pure_eq (a : α) : (pure a : Check α) = .done a := rfl

@[simp] theorem bind_eq (c : Check α) (f : α → Check β) : c >>= f = c.bind f := rfl

@[simp] theorem done_bind (a : α) (f : α → Check β) : (Check.done a).bind f = f a := rfl

@[simp] theorem fail_bind (e : Failure) (f : α → Check β) :
    (Check.fail e : Check α).bind f = .fail e := rfl

@[simp] theorem report_bind (d : Diagnostic) (c : Check α) (f : α → Check β) :
    (Check.report d c).bind f = .report d (c.bind f) := rfl

@[simp] theorem run_done (tree : FileTree) (a : α) : (Check.done a).run tree = ⟨[], .ok a⟩ := rfl

@[simp] theorem run_add (tree : FileTree) (d : Diagnostic) : (add d).run tree = ⟨[d], .ok ()⟩ := rfl

/-- A sequence of checks reports the findings of its parts in turn, and stops at a failure. -/
theorem run_bind (tree : FileTree) (c : Check α) (f : α → Check β) :
    (c.bind f).run tree =
      match (c.run tree).result with
      | .ok a => ⟨(c.run tree).findings ++ ((f a).run tree).findings, ((f a).run tree).result⟩
      | .error e => ⟨(c.run tree).findings, .error e⟩ := by
  induction c with
  | done a => rfl
  | fail e => rfl
  | report d next ih =>
    simp only [bind, run, ih]
    cases (next.run tree).result <;> rfl
  | ask q next ih => simp only [bind, run, ih]

end Check

end PackageLint
