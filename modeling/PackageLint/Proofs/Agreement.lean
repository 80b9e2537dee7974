import Mathlib.Data.List.Perm.Basic
import PackageLint.Pass.Plan
import PackageLint.Proofs.TargetFindings

/-!
# Checks that agree on two trees

Two checks agree, one on each of two trees, when the second reports what the first does, up to a
translation of findings, and either both fail or both end with values that correspond. What corresponds
is a parameter: the paths of one tree may stand for those of the other. Agreement is kept by sequences,
so that it is shown of a check step by step. Plans are compared as a whole, where the order of findings
does not count.

## Main definitions

* `Check.Agree` — two checks, each on its tree, report the same and end with related values
* `Task.Agree` — two tasks report the same
* `Plan.reported`, `Plan.Agree` — two plans report the same, up to the order

## Main results

* `Check.Agree.bind` — sequences agree when their parts do
* `Task.agree_of_checks` — tasks agree when their checks do, with those they leave
* `Plan.Agree.append`, `Plan.agree_concat` — plans agree when their parts do
* `Pass.diagnostics_agree` — passes whose plans agree report the same, up to the order
-/

namespace PackageLint

variable {α β γ δ : Type} {tree tree' : FileTree} {ρ : Diagnostic → Diagnostic}

/-- The second outcome has the findings of the first, translated, and either both failed or ended with
related values. -/
inductive Outcome.Agree (ρ : Diagnostic → Diagnostic) (R : α → β → Prop) :
    Outcome α → Outcome β → Prop
  | ok {ds : List Diagnostic} {a : α} {b : β} (h : R a b) :
      Agree ρ R ⟨ds, .ok a⟩ ⟨ds.map ρ, .ok b⟩
  | error {ds : List Diagnostic} {e e' : Failure} :
      Agree ρ R ⟨ds, .error e⟩ ⟨ds.map ρ, .error e'⟩

theorem Outcome.Agree.findings_eq {R : α → β → Prop} {o : Outcome α} {o' : Outcome β}
    (h : o.Agree ρ R o') : o'.findings = o.findings.map ρ := by
  cases h <;> rfl

namespace Check

variable {R : α → β → Prop} {S : γ → δ → Prop}

/-- Two checks, each on its tree: the second reports what the first does, translated, and either both
fail or end with related values. -/
def Agree (ρ : Diagnostic → Diagnostic) (tree tree' : FileTree) (R : α → β → Prop) (c : Check α)
    (c' : Check β) : Prop :=
  (c.run tree).Agree ρ R (c'.run tree')

/-- Two checks agree and end with the same value. -/
abbrev Same (ρ : Diagnostic → Diagnostic) (tree tree' : FileTree) (c c' : Check α) : Prop :=
  Agree ρ tree tree' Eq c c'

theorem Agree.done {a : α} {b : β} (h : R a b) : Agree ρ tree tree' R (.done a) (.done b) := .ok h

theorem Agree.fail (e e' : Failure) :
    Agree ρ tree tree' R (.fail e : Check α) (.fail e' : Check β) := .error

theorem same_add {d d' : Diagnostic} (h : ρ d = d') : Same ρ tree tree' (add d) (add d') := by
  subst h
  exact .ok rfl

/-- What checks that agree come to. -/
theorem agree_iff {c : Check α} {c' : Check β} :
    Agree ρ tree tree' R c c'
      ↔ ∃ ds, (∃ a b, c.run tree = ⟨ds, .ok a⟩ ∧ c'.run tree' = ⟨ds.map ρ, .ok b⟩ ∧ R a b)
        ∨ ∃ e e', c.run tree = ⟨ds, .error e⟩ ∧ c'.run tree' = ⟨ds.map ρ, .error e'⟩ := by
  rw [Agree]
  constructor
  · generalize c.run tree = o, c'.run tree' = o'
    intro h
    cases h with
    | ok hab => exact ⟨_, Or.inl ⟨_, _, rfl, rfl, hab⟩⟩
    | error => exact ⟨_, Or.inr ⟨_, _, rfl, rfl⟩⟩
  · rintro ⟨ds, ⟨a, b, h, h', hab⟩ | ⟨e, e', h, h'⟩⟩ <;> rw [h, h']
    · exact .ok hab
    · exact .error

/-- Sequences agree when their parts do. -/
theorem Agree.bind {c : Check α} {c' : Check β} {f : α → Check γ} {f' : β → Check δ}
    (h : Agree ρ tree tree' R c c') (hf : ∀ a b, R a b → Agree ρ tree tree' S (f a) (f' b)) :
    Agree ρ tree tree' S (c.bind f) (c'.bind f') := by
  obtain ⟨ds, ⟨a, b, h, h', hab⟩ | ⟨e, e', h, h'⟩⟩ := agree_iff.mp h
  · rw [Agree, run_bind_of_ok h, run_bind_of_ok h']
    obtain ⟨es, ⟨x, y, hn, hn', hxy⟩ | ⟨e, e', hn, hn'⟩⟩ := agree_iff.mp (hf a b hab) <;>
      rw [hn, hn', ← List.map_append]
    · exact .ok hxy
    · exact .error
  · rw [Agree, run_bind_of_error h, run_bind_of_error h']
    exact .error

/-- The same for parts that end with the same value. -/
theorem Agree.bind_same {c c' : Check α} {f : α → Check γ} {f' : α → Check δ}
    (h : Same ρ tree tree' c c') (hf : ∀ a, Agree ρ tree tree' S (f a) (f' a)) :
    Agree ρ tree tree' S (c.bind f) (c'.bind f') :=
  h.bind fun a _ hab => hab ▸ hf a

theorem Agree.imp {R' : α → β → Prop} {c : Check α} {c' : Check β} (h : Agree ρ tree tree' R c c')
    (hR : ∀ a b, R a b → R' a b) : Agree ρ tree tree' R' c c' := by
  obtain ⟨ds, ⟨a, b, h, h', hab⟩ | herror⟩ := agree_iff.mp h
  · exact agree_iff.mpr ⟨ds, Or.inl ⟨a, b, h, h', hR a b hab⟩⟩
  · exact agree_iff.mpr ⟨ds, Or.inr herror⟩

/-- Checks that come to the same on their trees agree. -/
theorem agree_of_run {c : Check α} {c' : Check β} {ds ds' : List Diagnostic} {a : α} {b : β}
    (h : c.run tree = ⟨ds, .ok a⟩) (h' : c'.run tree' = ⟨ds', .ok b⟩) (hds : ds.map ρ = ds')
    (hab : R a b) : Agree ρ tree tree' R c c' := by
  subst hds
  rw [Agree, h, h']
  exact .ok hab

theorem same_isThere {p q : String} (h : tree.isThere p = tree'.isThere q) :
    Same ρ tree tree' (isThere p) (isThere q) :=
  agree_of_run (run_isThere tree p) (run_isThere tree' q) rfl h

theorem same_isDir {p q : String} (h : tree.isDir p = tree'.isDir q) :
    Same ρ tree tree' (isDir p) (isDir q) :=
  agree_of_run (run_isDir tree p) (run_isDir tree' q) rfl h

theorem same_readDir {p q : String} (h : tree.entries p = tree'.entries q) :
    Same ρ tree tree' (readDir p) (readDir q) := by
  cases hentries : tree'.entries q with
  | ok names =>
    have hrun : (readDir p).run tree = ⟨[], .ok names⟩ := by
      simp [readDir, run, FileTree.answer, h, hentries]
    have hrun' : (readDir q).run tree' = ⟨[], .ok names⟩ := by
      simp [readDir, run, FileTree.answer, hentries]
    exact agree_of_run hrun hrun' rfl rfl
  | error e =>
    refine agree_iff.mpr ⟨[], Or.inr ⟨.unreadable e, .unreadable e, ?_, ?_⟩⟩ <;>
      simp [readDir, run, FileTree.answer, h, hentries]

theorem same_ite_add {p : Prop} [Decidable p] {d d' : Diagnostic} (h : ρ d = d') :
    Same ρ tree tree' (if p then add d else pure ()) (if p then add d' else pure ()) := by
  split
  · exact same_add h
  · exact .done rfl

theorem Agree.findings_eq {c : Check α} {c' : Check β} (h : Agree ρ tree tree' R c c') :
    c'.findings tree' = (c.findings tree).map ρ :=
  Outcome.Agree.findings_eq h

end Check

/-! ### Tasks -/

/-- Two tasks, each on its tree: the second reports what the first does, translated. -/
def Task.Agree (ρ : Diagnostic → Diagnostic) (tree tree' : FileTree) (task task' : Task) : Prop :=
  task'.findings tree' = (task.findings tree).map ρ

theorem flatMap_eq_map_of_forall₂ {f : α → List γ} {g : β → List δ} {t : γ → δ} {as : List α}
    {bs : List β} (h : List.Forall₂ (fun a b => g b = (f a).map t) as bs) :
    bs.flatMap g = (as.flatMap f).map t := by
  induction h with
  | nil => rfl
  | cons hab _ ih => rw [List.flatMap_cons, List.flatMap_cons, hab, ih, List.map_append]

/-- Tasks agree when their checks do, and those they leave. -/
theorem Task.agree_of_checks {task task' : Task}
    (h : Check.Agree ρ tree tree'
      (fun batch batch' => List.Forall₂ (Check.Same ρ tree tree') batch.checks batch'.checks)
      task.check task'.check) : task.Agree ρ tree tree' task' := by
  simp only [Task.Agree, Task.findings, Check.findings, Check.result]
  obtain ⟨ds, ⟨batch, batch', h, h', hchecks⟩ | ⟨e, e', h, h'⟩⟩ := Check.agree_iff.mp h <;>
    rw [h, h']
  · have hleft : (batch'.checks.flatMap fun check => check.findings tree')
        = (batch.checks.flatMap fun check => check.findings tree).map ρ :=
      flatMap_eq_map_of_forall₂ (hchecks.imp fun _ _ hc => hc.findings_eq)
    exact (congrArg (ds.map ρ ++ ·) hleft).trans List.map_append.symm
  · simp

theorem Task.agree_single {check check' : Check Unit} (h : Check.Same ρ tree tree' check check')
    (label label' : String) :
    (Task.single label check).Agree ρ tree tree' (Task.single label' check') := by
  rw [Task.Agree, Task.findings_single, Task.findings_single]
  exact h.findings_eq

/-! ### Plans -/

namespace Plan

/-- What a plan shows by itself, with what its tasks report. -/
def reported (tree : FileTree) (plan : Plan) : List Diagnostic :=
  plan.findings ++ plan.tasks.flatMap (Task.findings tree)

/-- Two plans, each on its tree: the second reports what the first does, translated and up to the
order. -/
def Agree (ρ : Diagnostic → Diagnostic) (tree tree' : FileTree) (plan plan' : Plan) : Prop :=
  ((plan.reported tree).map ρ).Perm (plan'.reported tree')

theorem append_assoc (a b c : Plan) : a ++ b ++ c = a ++ (b ++ c) :=
  congrArg₂ Plan.mk (List.append_assoc _ _ _) (List.append_assoc _ _ _)

theorem reported_append (tree : FileTree) (a b : Plan) :
    ((a ++ b).reported tree).Perm (a.reported tree ++ b.reported tree) := by
  change (a.findings ++ b.findings ++ (a.tasks ++ b.tasks).flatMap (Task.findings tree)).Perm _
  simp only [reported, List.flatMap_append, List.append_assoc]
  refine List.Perm.append_left a.findings ?_
  rw [← List.append_assoc, ← List.append_assoc (a.tasks.flatMap _)]
  exact List.perm_append_comm.append_right _

/-- What a plan shows besides comes first. -/
theorem reported_besides (tree : FileTree) (extra : List Diagnostic) (plan : Plan) :
    (({ findings := extra } : Plan) ++ plan).reported tree = extra ++ plan.reported tree :=
  List.append_assoc extra plan.findings _

theorem reported_concat (tree : FileTree) (plans : List Plan) :
    ((concat plans).reported tree).Perm (plans.flatMap (reported tree)) := by
  induction plans with
  | nil => exact .refl _
  | cons plan rest ih =>
    exact (reported_append tree plan (concat rest)).trans (ih.append_left (plan.reported tree))

/-- What one of several plans shows besides may as well be shown before all of them. -/
theorem reported_concat_besides (tree : FileTree) (front back : List Plan) (besides plan : Plan) :
    ((concat (front ++ (besides ++ plan) :: back)).reported tree).Perm
      ((besides ++ concat (front ++ plan :: back)).reported tree) := by
  refine (reported_concat tree _).trans (.trans ?_ (reported_append tree besides _).symm)
  refine .trans ?_ ((reported_concat tree _).symm.append_left _)
  rw [List.flatMap_append, List.flatMap_append, List.flatMap_cons, List.flatMap_cons]
  have hplan := ((reported_append tree besides plan).append_right
    (back.flatMap (reported tree))).append_left (front.flatMap (reported tree))
  refine hplan.trans ?_
  rw [List.append_assoc]
  exact List.perm_append_comm_assoc _ _ _

theorem agree_of_findings {ds ds' : List Diagnostic} (h : (ds.map ρ).Perm ds') :
    Plan.Agree ρ tree tree' { findings := ds } { findings := ds' } := by
  simpa [Plan.Agree, reported] using h

theorem agree_of_tasks {tasks tasks' : List Task}
    (h : List.Forall₂ (Task.Agree ρ tree tree') tasks tasks') :
    Plan.Agree ρ tree tree' { tasks } { tasks := tasks' } := by
  have htasks : tasks'.flatMap (Task.findings tree')
      = (tasks.flatMap (Task.findings tree)).map ρ := flatMap_eq_map_of_forall₂ h
  rw [Plan.Agree, reported, reported, List.nil_append, List.nil_append, htasks]

theorem agree_empty : Plan.Agree ρ tree tree' {} {} := .refl _

theorem agree_finding {d d' : Diagnostic} (h : ρ d = d') :
    Plan.Agree ρ tree tree' (.finding d) (.finding d') :=
  agree_of_findings (by rw [List.map_singleton, h])

theorem agree_task {task task' : Task} (h : task.Agree ρ tree tree' task') :
    Plan.Agree ρ tree tree' (.task task) (.task task') :=
  agree_of_tasks (.cons h .nil)

theorem agree_single {check check' : Check Unit} (h : Check.Same ρ tree tree' check check')
    (label label' : String) :
    Plan.Agree ρ tree tree' (.task (.single label check)) (.task (.single label' check')) :=
  agree_task (Task.agree_single h label label')

/-- Plans whose findings and tasks agree on their own agree. -/
theorem agree_mk {plan plan' : Plan} (hfindings : (plan.findings.map ρ).Perm plan'.findings)
    (htasks : ((plan.tasks.flatMap (Task.findings tree)).map ρ).Perm
      (plan'.tasks.flatMap (Task.findings tree'))) : plan.Agree ρ tree tree' plan' := by
  rw [Plan.Agree, reported, reported, List.map_append]
  exact hfindings.append htasks

theorem Agree.append {a b a' b' : Plan} (ha : a.Agree ρ tree tree' a')
    (hb : b.Agree ρ tree tree' b') : (a ++ b).Agree ρ tree tree' (a' ++ b') := by
  have hparts := (reported_append tree a b).map ρ
  rw [List.map_append] at hparts
  exact (hparts.trans (List.Perm.append ha hb)).trans (reported_append tree' a' b').symm

theorem agree_concat {plans plans' : List Plan}
    (h : List.Forall₂ (Plan.Agree ρ tree tree') plans plans') :
    (concat plans).Agree ρ tree tree' (concat plans') := by
  induction h with
  | nil => exact agree_empty
  | cons hplan _ ih => exact hplan.append ih

/-- Plans that one list of items gives rise to. -/
theorem agree_concat_map {f f' : α → Plan} {items : List α}
    (h : ∀ a ∈ items, (f a).Agree ρ tree tree' (f' a)) :
    (concat (items.map f)).Agree ρ tree tree' (concat (items.map f')) := by
  refine agree_concat ?_
  induction items with
  | nil => exact .nil
  | cons a rest ih =>
    obtain ⟨ha, hrest⟩ := List.forall_mem_cons.mp h
    exact .cons ha (ih hrest)

theorem agree_ite {plan plan' : Plan} {c : Prop} [Decidable c]
    (h : c → plan.Agree ρ tree tree' plan') :
    (if c then plan else {}).Agree ρ tree tree' (if c then plan' else {}) := by
  split
  next hc => exact h hc
  next => exact agree_empty

theorem agree_else {plan plan' : Plan} {c : Prop} [Decidable c]
    (h : ¬ c → plan.Agree ρ tree tree' plan') :
    (if c then {} else plan).Agree ρ tree tree' (if c then {} else plan') := by
  split
  next => exact agree_empty
  next hc => exact h hc

end Plan

/-! ### Passes -/

/-- Passes whose plans agree report the same, up to the order, whatever the level and the strict flag
are. -/
theorem Pass.diagnostics_agree (hρ : KeepsSeverity ρ) {plan plan' : Plan}
    (h : plan.Agree ρ tree tree' plan') {options options' : Options}
    (hlevel : options.level = options'.level) (hstrict : options.strict = options'.strict)
    (manifest manifest' : Manifest) :
    ((resultOf options manifest (runPlan tree plan)).diagnostics.map ρ).Perm
      (resultOf options' manifest' (runPlan tree' plan')).diagnostics := by
  refine diagnostics_perm hρ hlevel hstrict ?_
  rw [findings_runPlan, findings_runPlan]
  exact h

end PackageLint
